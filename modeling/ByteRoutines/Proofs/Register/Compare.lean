import ByteRoutines.Register.Compare
import ByteRoutines.Proofs.Register.Swar

/-!
# Comparisons of registers

The masks of comparisons mark exactly the bytes that they should, for every
kind of register. `lane v i` is byte `i` of a register, and `Shows f valid v`
says that the first `valid` bytes of a register are those of `f`; the other
bytes of a register may be anything, and a mask that is cut to `valid`
positions does not depend on them.
-/

namespace ByteRoutines

/-- Byte `i` of a register, and 0 past its end. -/
def lane {n : Nat} (v : Bytes n) (i : Nat) : UInt8 := v[i]?.getD 0

theorem lane_eq {n : Nat} (v : Bytes n) {i : Nat} (h : i < n) : lane v i = v[i] := by
  rw [lane, Vector.getElem?_eq_getElem h]
  rfl

/-- The first `valid` bytes of the register are those of `f`. -/
def Shows {n : Nat} (f : Nat → UInt8) (valid : Nat) (v : Bytes n) : Prop :=
  ∀ i < valid, lane v i = f i

theorem Shows.take {n valid valid' : Nat} {f : Nat → UInt8} {v : Bytes n} (h : Shows f valid v)
    (hle : valid' ≤ valid) : Shows f valid' v :=
  fun i hi => h i (by omega)

theorem marks_ofBits_map {n : Nat} (hn : n ≤ 64) (v : Bytes n) (test : UInt8 → Bool) :
    Marks (Mask.ofBits (v.toList.map test)) (fun i => test (lane v i) = true) n := by
  intro i
  rw [getLsbD_ofBits (by simpa using hn), List.getElem?_map]
  by_cases hi : i < n
  · simp [hi, lane_eq v hi]
  · simp [hi]

theorem marks_ofBits_zipWith {n : Nat} (hn : n ≤ 64) (v w : Bytes n)
    (test : UInt8 → UInt8 → Bool) :
    Marks (Mask.ofBits (List.zipWith test v.toList w.toList))
      (fun i => test (lane v i) (lane w i) = true) n := by
  intro i
  rw [getLsbD_ofBits (by simpa using hn), List.getElem?_zipWith]
  by_cases hi : i < n
  · simp [hi, lane_eq v hi, lane_eq w hi]
  · simp [hi]

namespace RegisterKind

theorem lane_splat (k : RegisterKind) (byte : UInt8) {i : Nat} (hi : i < k.width) :
    lane (k.splat byte) i = byte := by
  rw [lane_eq _ hi, splat, Vector.getElem_replicate]

/-- The mask of zero bytes. -/
theorem marks_zeroMask (k : RegisterKind) (v : Register k) :
    Marks (k.zeroMask v) (fun i => lane v i = 0) k.width := by
  have hbits : ∀ {n : Nat} (_ : n ≤ 64) (v : Bytes n),
      Marks (Mask.ofBits (v.toList.map fun byte => byte == 0)) (fun i => lane v i = 0) n :=
    fun hn v => (marks_ofBits_map hn v _).congr fun i _ => beq_iff_eq
  cases k with
  | gpr =>
    refine (Swar.zeroMask_marks (Swar.pack v)).congr fun i hi => ?_
    rw [Swar.zeroLane_pack v hi, lane_eq v hi]
    exact Iff.rfl
  | xmm => exact hbits (by decide) v
  | ymm => exact hbits (by decide) v
  | zmm => exact hbits (by decide) v

/-- The mask of the bytes in which two registers agree. -/
theorem marks_eqMask (k : RegisterKind) (v w : Register k) :
    Marks (k.eqMask v w) (fun i => lane v i = lane w i) k.width := by
  have hbits : ∀ {n : Nat} (_ : n ≤ 64) (v w : Bytes n),
      Marks (Mask.ofBits (List.zipWith (fun x y => x == y) v.toList w.toList))
        (fun i => lane v i = lane w i) n :=
    fun hn v w => (marks_ofBits_zipWith hn v w _).congr fun i _ => beq_iff_eq
  cases k with
  | gpr =>
    refine (Swar.eqMask_marks (Swar.pack v) (Swar.pack w)).congr fun i hi => ?_
    rw [Swar.eqLane_pack v w hi, lane_eq v hi, lane_eq w hi]
    exact Iff.rfl
  | xmm => exact hbits (by decide) v w
  | ymm => exact hbits (by decide) v w
  | zmm => exact hbits (by decide) v w

/-- The mask of the bytes that are a given one. -/
theorem marks_eqMask_splat (k : RegisterKind) (v : Register k) (byte : UInt8) :
    Marks (k.eqMask v (k.splat byte)) (fun i => lane v i = byte) k.width := by
  refine (k.marks_eqMask v (k.splat byte)).congr fun i hi => ?_
  rw [k.lane_splat byte hi]

/-- The mask of the bytes in which two registers differ. -/
theorem marks_neMask (k : RegisterKind) (v w : Register k) :
    Marks (k.neMask v w) (fun i => lane v i ≠ lane w i) k.width := by
  cases k with
  | gpr => exact (marks_eqMask .gpr v w).compl (by decide)
  | xmm => exact (marks_eqMask .xmm v w).compl (by decide)
  | ymm => exact (marks_eqMask .ymm v w).compl (by decide)
  | zmm => exact (marks_ofBits_zipWith (by decide) v w _).congr fun i _ => bne_iff_ne

end RegisterKind

end ByteRoutines
