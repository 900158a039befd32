import ByteRoutines.Kernel.Fill
import ByteRoutines.Proofs.Kernel.AtOnce
import ByteRoutines.Proofs.Kernel.Regime

/-!
# Fills

A fill replaces its region by copies of one byte, for every size, every policy
and every alignment (`ends_memset`). It reads nothing, so the stores in the
region are all that it needs.

As in a copy, the blocks at both ends cover what the loop in the middle leaves
out: it starts within the first one and may run into the last one
(`ends_fillBlocks`).
-/

namespace ByteRoutines.Kernel

open Exec Memory

/-- What a fill may do: store in its region, and order its streaming stores. -/
structure MayFill (ok : Event → Prop) (dst : Pointer) (n : Nat) : Prop where
  store : ∀ mode, MayStore ok mode dst n
  fence : ok .fence

theorem MayFill.part {ok : Event → Prop} {dst : Pointer} {n off n' : Nat} (may : MayFill ok dst n)
    (hle : off + n' ≤ n) : MayFill ok (dst + off) n' where
  store mode := (may.store mode).part hle
  fence := may.fence

variable {ok : Event → Prop} {k : RegisterKind} {m : Memory} {mode : Mode} {dst : Pointer}
  {value : UInt8} {n off stop : Nat}

theorem ends_fillAtOnce (hn : n ≤ 8 * k.width) (hstore : ∀ mode, MayStore ok mode dst n) :
    Ends ok (fillAtOnce k dst value n) m fun _ m' =>
      m.Replaced m' dst.address 0 n fun _ => value := by
  unfold fillAtOnce
  split
  · rename_i hshort
    exact RegisterKind.ends_setShort hshort (hstore _)
  · exact ends_fill (covers_coverSpans (by omega) hn)
      (fun _ _ => aligned_of_not_needsAlignment rfl) (hstore _)

theorem ends_repFill (hstore : MayStore ok .repeated dst n) :
    Ends ok (repFill dst value n) m fun _ m' =>
      m.Replaced m' dst.address 0 n fun _ => value := by
  induction n generalizing m dst with
  | zero => exact ends_pure (replaced_empty (Nat.le_refl 0))
  | succ n ih =>
    rw [repFill]
    refine (ends_fill (covers_whole 1) (fun _ _ => aligned_of_not_needsAlignment rfl)
      (hstore.take (by omega))).bind fun _ m₁ hfirst => ?_
    refine (ih (hstore.part (by omega))).mono fun _ m₂ hrest => ?_
    have hlater : m₁.Replaced m₂ dst.address 1 (1 + n) fun _ => value :=
      Replaced.of_part (f := fun _ => value) hrest
    exact hfirst.join hlater fun i => by omega

/-- The loop fills the region from `off` up to `stop`, and possibly further. -/
theorem ends_fillBlocks (hstop : stop + k.blockSize ≤ n) (hstore : MayStore ok mode dst n)
    (halign : Aligned mode (dst + off) k.width) :
    Ends ok (fillBlocks k mode dst value off stop) m fun _ m' =>
      ∃ hi, stop ≤ hi ∧ hi ≤ n ∧ m.Replaced m' dst.address off hi fun _ => value := by
  induction hleft : stop - off using Nat.strongRecOn generalizing m off with
  | ind left ih =>
    rw [fillBlocks]
    split
    · rename_i hlt
      refine (RegisterKind.ends_fill_block off (by omega) halign hstore).bind fun _ m₁ hrep => ?_
      have := k.blockSize_pos
      refine (ih (stop - (off + k.blockSize)) (by omega) (k.aligned_add_blockSize.mpr halign)
        rfl).mono ?_
      rintro _ m₂ ⟨hi, hstop', hhi, hrep'⟩
      exact ⟨max hi (off + k.blockSize), by omega, by omega, hrep.join hrep' fun i => by omega⟩
    · exact ends_pure ⟨stop, Nat.le_refl _, by omega, replaced_empty (by omega)⟩

theorem ends_fillMiddle {streaming : Bool} (hstop : stop + k.blockSize ≤ n)
    (may : MayFill ok dst n) :
    Ends ok (fillMiddle k streaming dst value stop) m fun _ m' => ∃ hi, stop ≤ hi ∧ hi ≤ n ∧
      m.Replaced m' dst.address (alignedStart k dst.address) hi fun _ => value := by
  have hmod := add_alignedStart_mod k dst.address
  unfold fillMiddle
  split
  · refine (ends_fillBlocks hstop (may.store _) fun _ => hmod).bind fun _ m₁ hrep => ?_
    exact (runs_fence may.fence).ends hrep
  · exact ends_fillBlocks hstop (may.store _) fun _ => hmod

theorem ends_fillBulk {policy : LoopPolicy} (hn : 8 * k.width < n) (may : MayFill ok dst n) :
    Ends ok (fillBulk k policy dst value n) m fun _ m' =>
      m.Replaced m' dst.address 0 n fun _ => value := by
  have hblock := k.blockSize_eq
  have hplain : ∀ p, Aligned .plain p k.width := fun _ => aligned_of_not_needsAlignment rfl
  have hstart := alignedStart_le k dst.address
  unfold fillBulk
  split
  · exact ends_repFill (may.store _)
  · refine (RegisterKind.ends_fill_block 0 (by omega) (hplain _) (may.store _)).bind
      fun _ m₁ hfirst => ?_
    refine (ends_fillMiddle (by omega) may).bind ?_
    rintro _ m₂ ⟨hi, hlast, hhi, hmiddle⟩
    refine (RegisterKind.ends_fill_block (n - k.blockSize) (by omega) (hplain _)
      (may.store _)).mono fun _ m₃ hrest => ?_
    -- The first block reaches up to where the loop starts, and the loop into the last one.
    have hlow : m.Replaced m₂ dst.address 0 hi fun _ => value :=
      hfirst.join hmiddle fun i => by omega
    exact hlow.join hrest fun i => by omega

/-- **A fill replaces its region by copies of the byte**, whatever the policy. -/
theorem ends_memset {policy : LoopPolicy} (may : MayFill ok dst n) :
    Ends ok (memset k policy dst value n) m fun p m' =>
      p = dst ∧ m.Replaced m' dst.address 0 n fun _ => value := by
  unfold memset
  split
  · rename_i hsmall
    refine (ends_fillAtOnce hsmall may.store).bind fun _ m₁ hrep => ?_
    exact ends_pure ⟨rfl, hrep⟩
  · refine (ends_fillBulk (by omega) may).bind fun _ m₁ hrep => ?_
    exact ends_pure ⟨rfl, hrep⟩

end ByteRoutines.Kernel
