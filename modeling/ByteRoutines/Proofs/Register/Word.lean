import ByteRoutines.Proofs.Register.Compare

/-!
# Bytes of a word

`byteOf word i` are the bits of byte `i` of a word, byte 0 lowest. The three
masks of words are exact in each byte and have no bit beyond the eight
(`masks_exact`), whatever stands in the bytes beside it: `ZeroLane` and
`eqMask_marks` say so bit by bit, and here it is said of whole bytes.
-/

namespace ByteRoutines.Swar

def byteOf (word : BitVec 64) (i : Nat) : BitVec 8 := word.extractLsb' (8 * i) 8

theorem getLsbD_byteOf (word : BitVec 64) (i : Nat) {b : Nat} (hb : b < 8) :
    (byteOf word i).getLsbD b = word.getLsbD (8 * i + b) := by
  rw [byteOf, BitVec.getLsbD_extractLsb', decide_eq_true hb, Bool.true_and]

theorem byteOf_eq_iff {v w : BitVec 64} {i : Nat} :
    byteOf v i = byteOf w i ↔ ∀ b < 8, v.getLsbD (8 * i + b) = w.getLsbD (8 * i + b) := by
  constructor
  · intro heq b hb
    rw [← getLsbD_byteOf v i hb, heq, getLsbD_byteOf w i hb]
  · intro hbits
    refine BitVec.eq_of_getLsbD_eq fun b hb => ?_
    rw [getLsbD_byteOf v i hb, getLsbD_byteOf w i hb, hbits b hb]

theorem zeroLane_iff {word : BitVec 64} {i : Nat} : ZeroLane word i ↔ byteOf word i = 0#8 := by
  have hzero : byteOf 0#64 i = 0#8 := BitVec.extractLsb'_zero
  rw [← hzero, byteOf_eq_iff]
  simp only [ZeroLane, BitVec.getLsbD_zero]

theorem neMask_marks (a b : BitVec 64) :
    Marks (neMask a b) (fun i => byteOf a i ≠ byteOf b i) 8 := by
  refine ((eqMask_marks a b).compl (by decide)).congr fun i _ => ?_
  rw [← byteOf_eq_iff]

/-- The bytes of a register are those of its word, the first one lowest. -/
theorem byteOf_pack (v : Bytes 8) (i : Nat) : byteOf (pack v) i = (lane v i).toBitVec := by
  refine BitVec.eq_of_getLsbD_eq fun b hb => ?_
  rw [getLsbD_byteOf (pack v) i hb]
  by_cases hi : i < 8
  · rw [getLsbD_pack v hi hb, lane_eq v hi]
  · have hnone : lane v i = 0 := by
      rw [lane, Vector.getElem?_eq_none (Nat.not_lt.mp hi)]
      rfl
    rw [hnone, BitVec.getLsbD_of_ge _ _ (by omega)]
    simp

/-- **The masks of words are exact in every byte**: bit `i` of the mask of zero bytes is set if and
only if byte `i` is 0, and of the mask of equal bytes if and only if the two words agree in byte
`i`; the mask of different bytes is the complement within the lowest eight bits, and no bit above
them is set in any mask. A register of eight bytes is compared by its word in this way, the first
byte in memory being byte 0. -/
theorem masks_exact (a b : BitVec 64) (i : Nat) :
    ((zeroMask a).getLsbD i = true ↔ i < 8 ∧ byteOf a i = 0#8) ∧
      ((eqMask a b).getLsbD i = true ↔ i < 8 ∧ byteOf a i = byteOf b i) ∧
      ((neMask a b).getLsbD i = true ↔ i < 8 ∧ byteOf a i ≠ byteOf b i) ∧
      ((neMask a b).getLsbD i = (decide (i < 8) && !(eqMask a b).getLsbD i)) ∧
      ∀ v w : Register .gpr, byteOf (pack v) i = (lane v i).toBitVec ∧
        RegisterKind.zeroMask .gpr v = zeroMask (pack v) ∧
        RegisterKind.eqMask .gpr v w = eqMask (pack v) (pack w) ∧
        RegisterKind.neMask .gpr v w = neMask (pack v) (pack w) := by
  have heq : (eqMask a b).getLsbD i = true ↔ i < 8 ∧ byteOf a i = byteOf b i :=
    ((eqMask_marks a b).congr fun _ _ => byteOf_eq_iff.symm) i
  have hne : (neMask a b).getLsbD i = true ↔ i < 8 ∧ byteOf a i ≠ byteOf b i := neMask_marks a b i
  refine ⟨((zeroMask_marks a).congr fun _ _ => zeroLane_iff) i, heq, hne, ?_,
    fun v w => ⟨byteOf_pack v i, rfl, rfl, rfl⟩⟩
  rw [Bool.eq_iff_iff, hne, Bool.and_eq_true, decide_eq_true_eq, Bool.not_eq_true',
    ← Bool.not_eq_true, heq]
  exact and_congr_right fun hi => by rw [not_and, imp_iff_right hi]

-- A byte 1 above a zero byte is not taken for another one, nor is a byte with its top bit alone.
example : zeroMask 0x0100800001FF0100#64 = 0b01010001#64 := by decide

end ByteRoutines.Swar
