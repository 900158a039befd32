import ByteRoutines.Kernel.Copy
import ByteRoutines.Proofs.Kernel.AtOnce
import ByteRoutines.Proofs.Kernel.Regime

/-!
# Copies

What a copy does is one statement for every size, every policy and every
alignment: the destination is replaced by the bytes that the source held
before the call. A loop runs wherever the two regions lie, and stays within
them. Only that it replaces the destination by the right bytes depends on
where they lie, so this is what the conclusions have a condition for
(`ends_copyBlocksUp`, `ends_copyBlocksDown`). The blocks at both ends are
snapshots that were taken before the loop, and cover what it leaves out.

`MayCopy` says what a copy may do on the way.
-/

namespace ByteRoutines.Kernel

open Exec Memory

/-- What a copy may do: access its two regions, by string instructions and streaming stores only
where the regions are `apart`. -/
structure MayCopy (ok : Event → Prop) (apart : Prop) (dst src : Pointer) (n : Nat) : Prop where
  load : ∀ mode, (mode = .repeated ∨ mode = .streaming → apart) → MayLoad ok mode src n
  store : ∀ mode, (mode = .repeated ∨ mode = .streaming → apart) → MayStore ok mode dst n
  prefetch : ∀ p, ok (.prefetch p)
  fence : ok .fence

variable {ok : Event → Prop} {k : RegisterKind} {m : Memory} {dst src : Pointer} {n : Nat}

/-- What is not yet read of the source is as it was, where it is safe to copy upwards. -/
theorem UpwardSafe.get_source {m' : Memory} {lo hi i : Nat} {f : Nat → UInt8}
    (h : UpwardSafe dst.address src.address n) (hrep : m.Replaced m' dst.address lo hi f)
    (hhi : hi ≤ i) (hi' : i < n) : m'.get (src.address + i) = m.get (src.address + i) := by
  apply hrep.outside
  simp only [UpwardSafe] at h
  omega

/-! ### Upwards -/

theorem ends_repCopy (hload : MayLoad ok .repeated src n) (hstore : MayStore ok .repeated dst n) :
    Ends ok (repCopy dst src n) m fun _ m' => UpwardSafe dst.address src.address n →
      m.Replaced m' dst.address 0 n fun i => m.get (src.address + i) := by
  induction n generalizing m dst src with
  | zero => exact ends_pure fun _ => replaced_empty (Nat.le_refl 0)
  | succ n ih =>
    rw [repCopy]
    refine (ends_transfer (covers_whole 1) rfl (hload.take (by omega))
      (hstore.take (by omega))).bind fun _ m₁ hfirst => ?_
    refine (ih (hload.part (by omega)) (hstore.part (by omega))).mono fun _ m₂ hrest hsafe => ?_
    have hsafe' : UpwardSafe (dst + 1).address (src + 1).address n := by
      simp only [UpwardSafe, Pointer.address_add] at *
      omega
    have hlater : m₁.Replaced m₂ (dst.address + 1) 0 n fun i => m.get (src.address + (1 + i)) := by
      refine (hrest hsafe').congr fun i _ hi => ?_
      rw [Pointer.address_add, Nat.add_assoc]
      exact hsafe.get_source hfirst (by omega) (by omega)
    exact hfirst.join hlater.of_part fun i => by omega

/-- The upward loop runs from `off` up to `stop`, and possibly further. -/
theorem ends_copyBlocksUp {regime : CopyRegime} {off stop : Nat} (hstop : stop + k.blockSize ≤ n)
    (hload : MayLoad ok regime.loadMode src n) (hstore : MayStore ok regime.storeMode dst n)
    (hprefetch : ∀ p, ok (.prefetch p))
    (hsrcalign : Aligned regime.loadMode (src + off) k.width)
    (hdstalign : Aligned regime.storeMode (dst + off) k.width) :
    Ends ok (copyBlocksUp k regime dst src off stop) m fun _ m' =>
      ∃ hi, stop ≤ hi ∧ hi ≤ n ∧ (UpwardSafe dst.address src.address n →
        m.Replaced m' dst.address off hi fun i => m.get (src.address + i)) := by
  induction hleft : stop - off using Nat.strongRecOn generalizing m off with
  | ind left ih =>
    rw [copyBlocksUp]
    split
    · rename_i hlt
      have hstep : Ends ok (do
          let block ← gather regime.loadMode (src + off) k.blockSpans
          scatter regime.storeMode (dst + off) block
          copyBlocksUp k regime dst src (off + k.blockSize) stop) m fun _ m' =>
            ∃ hi, stop ≤ hi ∧ hi ≤ n ∧ (UpwardSafe dst.address src.address n →
              m.Replaced m' dst.address off hi fun i => m.get (src.address + i)) := by
        refine (RegisterKind.answers_gather_block off (by omega) hsrcalign
          hload).bind fun block hblock => ?_
        refine (RegisterKind.ends_scatter_block off (by omega) hdstalign hstore hblock).bind
          fun _ m₁ hrep => ?_
        have := k.blockSize_pos
        refine (ih (stop - (off + k.blockSize)) (by omega) (k.aligned_add_blockSize.mpr hsrcalign)
          (k.aligned_add_blockSize.mpr hdstalign) rfl).mono ?_
        rintro _ m₂ ⟨hi, hstop', hhi, hrep'⟩
        refine ⟨max hi (off + k.blockSize), by omega, by omega, fun hsafe => ?_⟩
        have hlater := (hrep' hsafe).congr fun i hlo hi' => hsafe.get_source hrep hlo (by omega)
        exact hrep.join hlater fun i => by omega
      dsimp only
      split
      · exact (runs_prefetch (hprefetch _)).bind hstep
      · exact hstep
    · exact ends_pure ⟨stop, Nat.le_refl _, by omega, fun _ => replaced_empty (by omega)⟩

/-- An upward copy, by any regime that suits the two regions. -/
theorem ends_copyUpward {regime : CopyRegime} {apart : Prop} (hn : 8 * k.width < n)
    (may : MayCopy ok apart dst src n) (hfast : regime = .repeated ∨ regime = .streaming → apart)
    (hcongruent : regime.loadMode.needsAlignment = true →
      src.address % k.width = dst.address % k.width) :
    Ends ok (copyUpward k regime dst src n) m fun _ m' => UpwardSafe dst.address src.address n →
      m.Replaced m' dst.address 0 n fun i => m.get (src.address + i) := by
  have hblock := k.blockSize_eq
  unfold copyUpward
  split
  · rename_i hrep
    have hapart := hfast (Or.inl hrep)
    exact ends_repCopy (may.load _ fun _ => hapart) (may.store _ fun _ => hapart)
  · rename_i hloop
    dsimp only
    have hplain : ∀ p, Aligned .plain p k.width := fun _ => aligned_of_not_needsAlignment rfl
    have hmodes : ∀ mode, mode = regime.loadMode ∨ mode = regime.storeMode →
        mode = .repeated ∨ mode = .streaming → apart := fun mode hmode hkind =>
      hfast (Or.inr (eq_streaming_of_mode hloop hmode hkind))
    have hmod := add_alignedStart_mod k dst.address
    have hstart := alignedStart_le k dst.address
    refine (RegisterKind.answers_gather_block 0 (by omega) (hplain _) (may.load .plain
      (by simp))).bind fun head hhead => ?_
    refine (RegisterKind.answers_gather_block (n - k.blockSize) (by omega) (hplain _)
      (may.load .plain (by simp))).bind fun tail htail => ?_
    refine (ends_copyBlocksUp (by omega) (may.load _ (hmodes _ (Or.inl rfl)))
      (may.store _ (hmodes _ (Or.inr rfl))) may.prefetch
      (fun hneeds => add_mod_eq_zero_of_congruent (hcongruent hneeds) hmod)
      (fun _ => hmod)).bind ?_
    rintro _ m₁ ⟨hi, hlast, hhi, hmiddle⟩
    have hends : Ends ok (do
        scatter .plain dst head
        scatter .plain (dst + (n - k.blockSize)) tail) m₁ fun _ m' =>
          UpwardSafe dst.address src.address n →
            m.Replaced m' dst.address 0 n fun i => m.get (src.address + i) := by
      refine (RegisterKind.ends_scatter_block 0 (by omega) (hplain _)
        (may.store .plain (by simp)) hhead).bind fun _ m₂ hfirst => ?_
      refine (RegisterKind.ends_scatter_block (n - k.blockSize) (by omega) (hplain _)
        (may.store .plain (by simp)) htail).mono fun _ m₃ hrest hsafe => ?_
      -- The head reaches up to where the loop starts, and the loop into the tail.
      have hlow : m.Replaced m₂ dst.address 0 hi fun i => m.get (src.address + i) :=
        (hmiddle hsafe).join hfirst fun i => by omega
      exact hlow.join hrest fun i => by omega
    split
    · exact (runs_fence may.fence).bind hends
    · exact hends

/-! ### Downwards -/

/-- The downward loop runs from `stop` down into the first block. -/
theorem ends_copyBlocksDown {stop : Nat} (hstop : stop ≤ n) (hload : MayLoad ok .plain src n)
    (hstore : MayStore ok .aligned dst n) (halign : Aligned .aligned (dst + stop) k.width) :
    Ends ok (copyBlocksDown k dst src stop) m fun _ m' =>
      ∃ lo, lo ≤ k.blockSize ∧ lo ≤ stop ∧ (src.address ≤ dst.address →
        m.Replaced m' dst.address lo stop fun i => m.get (src.address + i)) := by
  induction stop using Nat.strongRecOn generalizing m with
  | ind stop ih =>
    rw [copyBlocksDown]
    split
    · rename_i hlt
      obtain ⟨start, rfl⟩ : ∃ start, stop = start + k.blockSize := ⟨stop - k.blockSize, by omega⟩
      have hstart := k.aligned_add_blockSize.mp halign
      simp only [Nat.add_sub_cancel]
      refine (RegisterKind.answers_gather_block start hstop (aligned_of_not_needsAlignment rfl)
        hload).bind fun block hblock => ?_
      refine (RegisterKind.ends_scatter_block start hstop hstart hstore hblock).bind
        fun _ m₁ hrep => ?_
      have := k.blockSize_pos
      refine (ih start (by omega) (by omega) hstart).mono ?_
      rintro _ m₂ ⟨lo, hlo, hlo', hrep'⟩
      refine ⟨lo, hlo, by omega, fun hle => ?_⟩
      -- The block was stored above everything that is still to be read.
      have hlater := (hrep' hle).congr fun i _ hi => hrep.outside (src.address + i) (by omega)
      exact hrep.join hlater fun i => by omega
    · exact ends_pure ⟨stop, by omega, Nat.le_refl _, fun _ => replaced_empty (Nat.le_refl _)⟩

theorem ends_copyDownward {apart : Prop} (hn : 8 * k.width < n) (may : MayCopy ok apart dst src n) :
    Ends ok (copyDownward k dst src n) m fun _ m' => src.address ≤ dst.address →
      m.Replaced m' dst.address 0 n fun i => m.get (src.address + i) := by
  have hblock := k.blockSize_eq
  have hplain : ∀ p, Aligned .plain p k.width := fun _ => aligned_of_not_needsAlignment rfl
  have hload : MayLoad ok .plain src n := may.load _ (by simp)
  have hstore : MayStore ok .plain dst n := may.store _ (by simp)
  have hstop := alignedStop_le k dst.address n
  have hlow := lt_alignedStop_add k dst.address n
  refine (RegisterKind.answers_gather_block 0 (by omega) (hplain _)
    hload).bind fun head hhead => ?_
  refine (RegisterKind.answers_gather_block (n - k.blockSize) (by omega) (hplain _)
    hload).bind fun tail htail => ?_
  refine (ends_copyBlocksDown hstop hload (may.store _ (by simp))
    fun _ => add_alignedStop_mod k (by omega)).bind ?_
  rintro _ m₁ ⟨lo, hlo, _, hmiddle⟩
  refine (RegisterKind.ends_scatter_block (n - k.blockSize) (by omega) (hplain _) hstore
    htail).bind fun _ m₂ hlast => ?_
  refine (RegisterKind.ends_scatter_block 0 (by omega) (hplain _) hstore hhead).mono
    fun _ m₃ hfirst hle => ?_
  -- The tail starts below where the loop starts, and the loop goes down into the head.
  have hhigh : m.Replaced m₂ dst.address lo n fun i => m.get (src.address + i) :=
    (hmiddle hle).join hlast fun i => by omega
  exact hhigh.join hfirst fun i => by omega

/-! ### Any size -/

/-- An upward copy by the regime that is chosen for it. -/
theorem ends_copyBulk_upward {policy : LoopPolicy} {disjoint : Bool} {apart : Prop}
    (hn : 8 * k.width < n) (hdisjoint : disjoint = true → apart)
    (may : MayCopy ok apart dst src n) :
    Ends ok (copyBulk k policy (.upward disjoint) dst src n) m fun _ m' =>
      UpwardSafe dst.address src.address n →
        m.Replaced m' dst.address 0 n fun i => m.get (src.address + i) :=
  ends_copyUpward hn may (fun hfast => hdisjoint (disjoint_of_choose k hfast)) (mod_eq_of_choose k)

/-- A copy keeps to its two regions wherever they lie. -/
theorem ends_memcpy_anywhere {policy : LoopPolicy} (may : MayCopy ok True dst src n) :
    Ends ok (memcpy k policy dst src n) m fun p m' =>
      p = dst ∧ (UpwardSafe dst.address src.address n →
        m.Replaced m' dst.address 0 n fun i => m.get (src.address + i)) := by
  unfold memcpy
  split
  · rename_i hsmall
    refine (ends_copyAtOnce hsmall (fun _ _ => may.load _ fun _ => trivial)
      fun _ _ => may.store _ fun _ => trivial).bind fun _ m₁ hrep => ?_
    exact ends_pure ⟨rfl, fun _ => hrep⟩
  · rename_i hlarge
    refine (ends_copyBulk_upward (by omega) (fun _ => trivial) may).bind fun _ m₁ hrep => ?_
    exact ends_pure ⟨rfl, hrep⟩

theorem ends_mempcpy_anywhere {policy : LoopPolicy} (may : MayCopy ok True dst src n) :
    Ends ok (mempcpy k policy dst src n) m fun p m' =>
      p = dst + n ∧ (UpwardSafe dst.address src.address n →
        m.Replaced m' dst.address 0 n fun i => m.get (src.address + i)) := by
  refine (ends_memcpy_anywhere may).bind fun p m₁ ⟨hp, hrep⟩ => ?_
  exact ends_pure ⟨by rw [hp], hrep⟩

theorem ends_memcpy {policy : LoopPolicy} (hapart : Apart dst.address src.address n)
    (may : MayCopy ok True dst src n) :
    Ends ok (memcpy k policy dst src n) m fun p m' =>
      p = dst ∧ m.Replaced m' dst.address 0 n fun i => m.get (src.address + i) :=
  (ends_memcpy_anywhere may).mono fun _ _ ⟨hp, hrep⟩ => ⟨hp, hrep hapart.upwardSafe⟩

theorem ends_mempcpy {policy : LoopPolicy} (hapart : Apart dst.address src.address n)
    (may : MayCopy ok True dst src n) :
    Ends ok (mempcpy k policy dst src n) m fun p m' =>
      p = dst + n ∧ m.Replaced m' dst.address 0 n fun i => m.get (src.address + i) :=
  (ends_mempcpy_anywhere may).mono fun _ _ ⟨hp, hrep⟩ => ⟨hp, hrep hapart.upwardSafe⟩

/-- A move keeps to its two regions wherever they lie, and uses string instructions and streaming
stores only where it takes them to have no byte in common. -/
theorem ends_memmove_anywhere {policy : LoopPolicy} {apart : Prop}
    (hapart : 0 < n → Direction.choose dst.address src.address n = .upward true → apart)
    (may : MayCopy ok apart dst src n) :
    Ends ok (memmove k policy dst src n) m fun p m' =>
      p = dst ∧ (dst.address + n ≤ addressSpace → src.address + n ≤ addressSpace →
        m.Replaced m' dst.address 0 n fun i => m.get (src.address + i)) := by
  unfold memmove
  split
  · rename_i hnothing
    refine ends_pure ⟨rfl, fun _ _ => ⟨?_, fun _ _ => rfl⟩⟩
    intro i _ hi
    rcases hnothing with rfl | heq
    · omega
    · rw [heq]
  split
  · rename_i hsmall
    refine (ends_copyAtOnce hsmall (fun mode hmode => may.load _ ?_)
      fun mode hmode => may.store _ ?_).bind fun _ m₁ hrep =>
        ends_pure ⟨rfl, fun _ _ => hrep⟩ <;>
    · rcases hmode with rfl | rfl <;> simp
  · rename_i hlarge
    have hbulk : Ends ok (copyBulk k policy (.choose dst.address src.address n) dst src n) m
        fun _ m' => dst.address + n ≤ addressSpace → src.address + n ≤ addressSpace →
          m.Replaced m' dst.address 0 n fun i => m.get (src.address + i) := by
      cases hdir : Direction.choose dst.address src.address n with
      | upward disjoint =>
        refine (ends_copyBulk_upward (by omega) (fun hdisjoint => ?_) may).mono
          fun _ m₁ hrep hdst hsrc => ?_
        · exact hapart (by omega) (by rw [hdir, hdisjoint])
        · exact hrep (upwardSafe_of_choose (by omega) hdst hsrc hdir).1
      | downward =>
        refine (ends_copyDownward (by omega) may).mono fun _ m₁ hrep hdst hsrc => ?_
        exact hrep (le_of_choose_downward (by omega) hdst hsrc hdir)
    exact hbulk.bind fun _ m₁ hrep => ends_pure ⟨rfl, hrep⟩

/-- **A move is right for any two regions** that do not run past the last address, and uses
string instructions and streaming stores only where they have no byte in common. -/
theorem ends_memmove {policy : LoopPolicy} (hdst : dst.address + n ≤ addressSpace)
    (hsrc : src.address + n ≤ addressSpace)
    (may : MayCopy ok (Apart dst.address src.address n) dst src n) :
    Ends ok (memmove k policy dst src n) m fun p m' =>
      p = dst ∧ m.Replaced m' dst.address 0 n fun i => m.get (src.address + i) := by
  refine (ends_memmove_anywhere (fun hn hdir => ?_) may).mono fun _ m₁ ⟨hp, hrep⟩ =>
    ⟨hp, hrep hdst hsrc⟩
  exact (upwardSafe_of_choose hn hdst hsrc hdir).2 rfl

end ByteRoutines.Kernel
