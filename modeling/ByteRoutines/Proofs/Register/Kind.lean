import ByteRoutines.Register.Kind
import ByteRoutines.Proofs.Memory.Transfer

/-!
# Alignment and pages

The width of a register is a power of two that divides the page size. So an
aligned register lies in one page (`width_le_roomInPage`), and so do the bytes
up to the next multiple of the width. The blocks of four registers cover
what they should, and are aligned where their start is.
-/

namespace ByteRoutines.RegisterKind

open Exec

variable (k : RegisterKind)

theorem blockSize_eq : k.blockSize = 4 * k.width := rfl

theorem toBoundary_pos (a : Nat) : 0 < k.toBoundary a := by
  have := Nat.mod_lt a k.width_pos
  simp only [toBoundary]
  omega

theorem toBoundary_le (a : Nat) : k.toBoundary a ≤ k.width := by
  simp only [toBoundary]
  omega

theorem add_toBoundary_mod (a : Nat) : (a + k.toBoundary a) % k.width = 0 := by
  cases k <;> simp only [toBoundary, width] <;> omega

/-- An aligned register lies in one page. -/
theorem width_le_roomInPage {a : Nat} (h : a % k.width = 0) : k.width ≤ roomInPage a := by
  cases k <;> simp only [roomInPage, pageSize, width] at * <;> omega

/-- The bytes up to the next boundary lie in one page. -/
theorem toBoundary_le_roomInPage (a : Nat) : k.toBoundary a ≤ roomInPage a := by
  cases k <;> simp only [roomInPage, pageSize, toBoundary, width] <;> omega

theorem mod_eq_of_width_le_toBoundary {a : Nat} (h : k.width ≤ k.toBoundary a) :
    a % k.width = 0 := by
  have := k.width_pos
  simp only [toBoundary] at h
  omega

theorem add_width_mod {a : Nat} (h : a % k.width = 0) : (a + k.width) % k.width = 0 := by
  rw [Nat.add_mod_right, h]

theorem aligned_add_blockSize {mode : Mode} {p : Pointer} {off : Nat} :
    Aligned mode (p + (off + k.blockSize)) k.width ↔ Aligned mode (p + off) k.width := by
  simp only [Aligned, Pointer.address_add, blockSize, ← Nat.add_assoc, Nat.add_mul_mod_self_right]

theorem covers_blockSpans : Covers k.blockSpans k.blockSize := by
  apply covers_spansAt <;> simp [blockSize] <;> omega

theorem aligned_blockSpans {mode : Mode} {p : Pointer} (h : Aligned mode p k.width) :
    ∀ span ∈ k.blockSpans, Aligned mode (p + span.offset) span.length := by
  intro span hspan hneeds
  have hp := h hneeds
  obtain ⟨o, ho, rfl⟩ := mem_spansAt.mp hspan
  have hmul : ∃ c, o = c * k.width := by
    simp only [List.mem_cons, List.not_mem_nil, or_false] at ho
    rcases ho with rfl | rfl | rfl | rfl
    · exact ⟨0, by omega⟩
    · exact ⟨1, by omega⟩
    · exact ⟨2, rfl⟩
    · exact ⟨3, rfl⟩
  obtain ⟨c, rfl⟩ := hmul
  show (p.address + c * k.width) % k.width = 0
  rw [Nat.add_mul_mod_self_right, hp]

/-! ### Blocks -/

variable {k} {ok : Event → Prop} {m : Memory} {mode : Mode} {dst src : Pointer} {n : Nat}

/-- A snapshot of the block at offset `off` of a region. -/
theorem answers_gather_block (off : Nat) (hoff : off + k.blockSize ≤ n)
    (halign : Aligned mode (src + off) k.width) (hload : MayLoad ok mode src n) :
    Answers ok (gather mode (src + off) k.blockSpans) m
      (Snapshot k.blockSpans fun i => m.get (src.address + (off + i))) := by
  refine answers_gather k.covers_blockSpans (k.aligned_blockSpans halign) (hload.part hoff) ?_
  intro i hi
  rw [Pointer.address_add, Nat.add_assoc]

/-- Storing the snapshot of a block copies the block. -/
theorem ends_scatter_block {m₀ : Memory} {a : Nat} (off : Nat) (hoff : off + k.blockSize ≤ n)
    (halign : Aligned mode (dst + off) k.width) (hstore : MayStore ok mode dst n)
    {block : List Piece} (hblock : Snapshot k.blockSpans (fun i => m₀.get (a + (off + i))) block) :
    Ends ok (scatter mode (dst + off) block) m fun _ m' =>
      m.Replaced m' dst.address off (off + k.blockSize) fun i => m₀.get (a + i) :=
  (ends_scatter hblock k.covers_blockSpans (k.aligned_blockSpans halign)
    (hstore.part hoff)).mono fun _ _ hrep => hrep.of_part (f := fun i => m₀.get (a + i))

theorem ends_fill_block {value : UInt8} (off : Nat) (hoff : off + k.blockSize ≤ n)
    (halign : Aligned mode (dst + off) k.width) (hstore : MayStore ok mode dst n) :
    Ends ok (fill mode (dst + off) value k.blockSpans) m fun _ m' =>
      m.Replaced m' dst.address off (off + k.blockSize) fun _ => value :=
  (ends_fill k.covers_blockSpans (k.aligned_blockSpans halign) (hstore.part hoff)).mono
    fun _ _ hrep => hrep.of_part (f := fun _ => value)

end ByteRoutines.RegisterKind
