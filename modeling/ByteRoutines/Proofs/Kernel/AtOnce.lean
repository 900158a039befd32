import ByteRoutines.Kernel.AtOnce
import ByteRoutines.Proofs.Register.Access

/-!
# Regions of up to eight registers

A region that is copied at once is loaded as a whole before anything is
stored, so source and destination may overlap in any way
(`ends_copyAtOnce`). All there is to show is that the spans cover the region
in each of the classes of sizes.
-/

namespace ByteRoutines

open Exec

namespace Kernel

variable {ok : Event → Prop} {m : Memory} {k : RegisterKind} {dst src : Pointer} {n : Nat}

theorem covers_coverSpans (hlow : k.width ≤ n) (hhigh : n ≤ 8 * k.width) :
    Covers (coverSpans k n) n := by
  unfold coverSpans coverOffsets
  split
  · apply covers_spansAt <;> simp <;> omega
  split
  · apply covers_spansAt <;> simp <;> omega
  · apply covers_spansAt <;> simp <;> omega

/-- **A copy that is made at once is right for any two regions.** -/
theorem ends_copyAtOnce (hn : n ≤ 8 * k.width)
    (hload : ∀ mode, mode = .plain ∨ mode = .masked → MayLoad ok mode src n)
    (hstore : ∀ mode, mode = .plain ∨ mode = .masked → MayStore ok mode dst n) :
    Ends ok (copyAtOnce k dst src n) m fun _ m' =>
      m.Replaced m' dst.address 0 n fun i => m.get (src.address + i) := by
  unfold copyAtOnce
  split
  · rename_i hshort
    have hmode : k.partMode = .plain ∨ k.partMode = .masked := by
      cases k <;> simp [RegisterKind.partMode]
    exact RegisterKind.ends_copyShort hshort (hload _ hmode) (hstore _ hmode)
  · exact ends_transfer (covers_coverSpans (by omega) hn) rfl
      (hload _ (Or.inl rfl)) (hstore _ (Or.inl rfl))

end Kernel

end ByteRoutines
