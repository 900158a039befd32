import ByteRoutines.Register.Swar
import ByteRoutines.Proofs.Register.Mask

/-!
# Lanes of a word

The masks of a word are exact in every byte (`zeroMask_marks`,
`eqMask_marks`). Two things are to show. The addition in `zeroBytes` does not
carry from one byte to the next: in both summands bit 7 of every byte is
clear, so that a carry into that bit, which says whether a lower bit of the
byte is set, ends there (`carry_lane`). And the multiplication in
`gatherHighBits` brings the eight high bits to eight places of their own, which
is a matter of 2^8 words (`gatherHighBits_spread`).
-/

namespace ByteRoutines.Swar

/-- Byte `i` of a word is zero. -/
def ZeroLane (word : BitVec 64) (i : Nat) : Prop := ∀ b < 8, word.getLsbD (8 * i + b) = false

theorem getLsbD_lowSeven {i b : Nat} (hi : i < 8) (hb : b < 8) :
    lowSeven.getLsbD (8 * i + b) = decide (b ≠ 7) := by
  have hall : ∀ i : Fin 8, ∀ b : Fin 8,
      lowSeven.getLsbD (8 * i.val + b.val) = decide (b.val ≠ 7) := by decide
  exact hall ⟨i, hi⟩ ⟨b, hb⟩

/-- The carry into bit `b` of byte `i` tells whether a lower bit of that byte is set, and knows
nothing of the bytes before. -/
theorem carry_lane (word : BitVec 64) {i b : Nat} (hi : i < 8) (hb : b ≤ 7) :
    BitVec.carry (8 * i + b) (word &&& lowSeven) lowSeven false = true ↔
      ∃ c < b, word.getLsbD (8 * i + c) = true := by
  induction b with
  | zero =>
    have hstart : BitVec.carry (8 * i) (word &&& lowSeven) lowSeven false = false := by
      cases i with
      | zero => exact BitVec.carry_zero
      | succ i =>
        have hclear : lowSeven.getLsbD (8 * i + 7) = false :=
          getLsbD_lowSeven (by omega) (by omega)
        rw [show 8 * (i + 1) = 8 * i + 7 + 1 by omega, BitVec.carry_succ, BitVec.getLsbD_and,
          hclear, Bool.and_false, Bool.atLeastTwo_false_left, Bool.false_and]
    simp [hstart]
  | succ b ih =>
    have hset : lowSeven.getLsbD (8 * i + b) = true := by
      rw [getLsbD_lowSeven hi (by omega)]
      exact decide_eq_true (by omega)
    rw [← Nat.add_assoc, BitVec.carry_succ, BitVec.getLsbD_and, hset, Bool.and_true,
      Bool.atLeastTwo_true_mid, Bool.or_eq_true, ih (by omega)]
    constructor
    · rintro (hbit | ⟨c, hc, hbit⟩)
      · exact ⟨b, by omega, hbit⟩
      · exact ⟨c, by omega, hbit⟩
    · rintro ⟨c, hc, hbit⟩
      by_cases hcb : c = b
      · exact Or.inl (hcb ▸ hbit)
      · exact Or.inr ⟨c, by omega, hbit⟩

/-- Of each byte, `zeroBytes` sets bit 7 if the byte is zero, and no other bit. -/
theorem getLsbD_zeroBytes (word : BitVec 64) {i b : Nat} (hi : i < 8) (hb : b < 8) :
    (zeroBytes word).getLsbD (8 * i + b) = true ↔ b = 7 ∧ ZeroLane word i := by
  have hlt : 8 * i + b < 64 := by omega
  rw [zeroBytes, BitVec.getLsbD_not, BitVec.getLsbD_or, BitVec.getLsbD_or, BitVec.getLsbD_add hlt,
    BitVec.getLsbD_and, getLsbD_lowSeven hi hb]
  by_cases h7 : b = 7
  · subst h7
    have hcarry := carry_lane word hi (Nat.le_refl 7)
    have hlane : ZeroLane word i ↔
        BitVec.carry (8 * i + 7) (word &&& lowSeven) lowSeven false = false ∧
          word.getLsbD (8 * i + 7) = false := by
      rw [← Bool.not_eq_true, hcarry]
      constructor
      · intro hzero
        refine ⟨?_, hzero 7 (by omega)⟩
        rintro ⟨c, hc, hbit⟩
        rw [hzero c (by omega)] at hbit
        cases hbit
      · rintro ⟨hnone, htop⟩ c hc
        by_cases hc7 : c = 7
        · rw [hc7, htop]
        · exact Bool.not_eq_true _ ▸ fun hbit => hnone ⟨c, by omega, hbit⟩
    rw [hlane]
    cases BitVec.carry (8 * i + 7) (word &&& lowSeven) lowSeven false <;>
      cases word.getLsbD (8 * i + 7) <;> simp [hlt]
  · simp [h7]

/-! ### Bytes and words -/

theorem getLsbD_foldr_shift {bytes : List UInt8} (hlen : bytes.length ≤ 8) {i b : Nat}
    (hb : b < 8) :
    (bytes.foldr (fun byte (word : BitVec 64) => (word <<< 8) ||| byte.toBitVec.setWidth 64)
      0).getLsbD (8 * i + b) = (bytes[i]?.getD 0).toBitVec.getLsbD b := by
  induction bytes generalizing i with
  | nil => simp
  | cons byte rest ih =>
    simp only [List.length_cons] at hlen
    rw [List.foldr_cons, BitVec.getLsbD_or, BitVec.getLsbD_shiftLeft, BitVec.getLsbD_setWidth]
    cases i with
    | zero => simp [hb, show b < 64 by omega]
    | succ i =>
      have hhigh : byte.toBitVec.getLsbD (8 * (i + 1) + b) = false :=
        BitVec.getLsbD_of_ge _ _ (by omega)
      rw [hhigh, Bool.and_false, Bool.or_false, show 8 * (i + 1) + b - 8 = 8 * i + b by omega,
        ih (by omega), List.getElem?_cons_succ]
      by_cases hi : i < rest.length
      · simp [show 8 * (i + 1) + b < 64 by omega, show 8 ≤ 8 * (i + 1) + b by omega]
      · simp [List.getElem?_eq_none (Nat.not_lt.mp hi)]

theorem getLsbD_pack (bytes : Vector UInt8 8) {i b : Nat} (hi : i < 8) (hb : b < 8) :
    (pack bytes).getLsbD (8 * i + b) = bytes[i].toBitVec.getLsbD b := by
  have hlist : bytes.toList[i]? = some bytes[i] := by
    rw [List.getElem?_eq_getElem (by simpa using hi), Vector.getElem_toList]
  rw [pack, getLsbD_foldr_shift (by simp) hb, hlist]
  rfl

/-- Two words are the same if their bytes have the same bits. -/
theorem eq_of_lanes {v w : BitVec 64}
    (h : ∀ i < 8, ∀ b < 8, v.getLsbD (8 * i + b) = w.getLsbD (8 * i + b)) : v = w := by
  refine BitVec.eq_of_getLsbD_eq fun j hj => ?_
  rw [← Nat.div_add_mod j 8]
  exact h (j / 8) (by omega) (j % 8) (by omega)

/-! ### Gathering -/

/-- The word with the high bit of byte `i` where bit `i` of `bits` is set. -/
def spread (bits : BitVec 8) : BitVec 64 :=
  pack (Vector.ofFn fun i => if bits.getLsbD i then 0x80 else 0)

theorem gatherHighBits_spread : ∀ bits : BitVec 8,
    gatherHighBits (spread bits) = bits.setWidth 64 := by
  decide +kernel

theorem getLsbD_spread (bits : BitVec 8) {i b : Nat} (hi : i < 8) (hb : b < 8) :
    (spread bits).getLsbD (8 * i + b) = (decide (b = 7) && bits.getLsbD i) := by
  have hall : ∀ b : Fin 8, (0x80 : UInt8).toBitVec.getLsbD b.val = decide (b.val = 7) := by decide
  rw [spread, getLsbD_pack _ hi hb, Vector.getElem_ofFn]
  cases bits.getLsbD i with
  | true => simpa using hall ⟨b, hb⟩
  | false => simp

/-- The mask of zero bytes of a word is exact. -/
theorem zeroMask_marks (word : BitVec 64) : Marks (zeroMask word) (ZeroLane word) 8 := by
  have hlanes : ∃ bits : BitVec 8, ∀ i < 8, bits.getLsbD i = true ↔ ZeroLane word i := by
    classical
    let lanes := (List.range 8).map fun i => decide (ZeroLane word i)
    refine ⟨(Mask.ofBits lanes).setWidth 8, fun i hi => ?_⟩
    rw [BitVec.getLsbD_setWidth, getLsbD_ofBits (by simp [lanes])]
    simp [lanes, hi]
  obtain ⟨bits, hbits⟩ := hlanes
  have hspread : zeroBytes word = spread bits := by
    refine eq_of_lanes fun i hi b hb => ?_
    rw [getLsbD_spread bits hi hb, Bool.eq_iff_iff, getLsbD_zeroBytes word hi hb,
      Bool.and_eq_true, decide_eq_true_eq, hbits i hi]
  intro i
  rw [zeroMask, hspread, gatherHighBits_spread, BitVec.getLsbD_setWidth]
  by_cases hi : i < 8
  · rw [decide_eq_true (by omega : i < 64), Bool.true_and, hbits i hi]
    exact (and_iff_right hi).symm
  · rw [BitVec.getLsbD_of_ge bits i (by omega), Bool.and_false]
    simp [hi]

/-- The mask of the bytes in which two words agree is exact. -/
theorem eqMask_marks (a b : BitVec 64) : Marks (eqMask a b)
    (fun i => ∀ j < 8, a.getLsbD (8 * i + j) = b.getLsbD (8 * i + j)) 8 := by
  refine (zeroMask_marks (a ^^^ b)).congr fun i _ => ?_
  constructor
  · intro hzero j hj
    have := hzero j hj
    rw [BitVec.getLsbD_xor] at this
    simpa using this
  · intro heq j hj
    rw [BitVec.getLsbD_xor, heq j hj, Bool.xor_self]

/-! ### Bytes as lanes -/

theorem eq_of_bits {x y : UInt8}
    (h : ∀ b < 8, x.toBitVec.getLsbD b = y.toBitVec.getLsbD b) : x = y :=
  UInt8.eq_of_toBitVec_eq (BitVec.eq_of_getLsbD_eq h)

theorem zeroLane_pack (bytes : Vector UInt8 8) {i : Nat} (hi : i < 8) :
    ZeroLane (pack bytes) i ↔ bytes[i] = 0 := by
  constructor
  · intro hzero
    refine eq_of_bits fun b hb => ?_
    rw [← getLsbD_pack bytes hi hb, hzero b hb]
    simp
  · intro hbyte b hb
    rw [getLsbD_pack bytes hi hb, hbyte]
    simp

theorem eqLane_pack (v w : Vector UInt8 8) {i : Nat} (hi : i < 8) :
    (∀ j < 8, (pack v).getLsbD (8 * i + j) = (pack w).getLsbD (8 * i + j)) ↔ v[i] = w[i] := by
  constructor
  · intro heq
    refine eq_of_bits fun b hb => ?_
    rw [← getLsbD_pack v hi hb, ← getLsbD_pack w hi hb, heq b hb]
  · intro heq j hj
    rw [getLsbD_pack v hi hj, getLsbD_pack w hi hj, heq]

end ByteRoutines.Swar
