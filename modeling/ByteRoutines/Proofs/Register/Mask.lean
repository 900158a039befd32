import ByteRoutines.Register.Mask
import ByteRoutines.Proofs.First

/-!
# The bits of a mask

`Marks m p n` says that the set bits of a mask are the positions below `n` of
which `p` holds; the lowest set bit is then the first such position
(`Marks.isFirst`). The lemmas before it give the bits of each operation on
masks. That of `clearFirst` is read off the carries of `m - 1`, which run up
to the lowest set bit and end there.
-/

namespace ByteRoutines

theorem getLsbD_low (length i : Nat) :
    (Mask.low length).getLsbD i = (decide (i < 64) && decide (i < length)) := by
  unfold Mask.low
  split
  · rw [BitVec.getLsbD_allOnes]
    by_cases hi : i < 64
    · rw [decide_eq_true hi, decide_eq_true (by omega : i < length), Bool.and_true]
    · rw [decide_eq_false hi, Bool.false_and]
  · rename_i hlt
    have hpow : 2 ^ length < 2 ^ 64 := Nat.pow_lt_pow_right (by decide) (by omega)
    have hpos := Nat.two_pow_pos length
    have hnat : ((1#64 <<< length) - 1#64).toNat = 2 ^ length - 1 := by
      simp only [BitVec.toNat_sub, BitVec.toNat_shiftLeft, BitVec.toNat_ofNat]
      rw [Nat.mod_eq_of_lt (show 1 < 2 ^ 64 by decide), Nat.shiftLeft_eq, Nat.one_mul,
        Nat.mod_eq_of_lt hpow]
      omega
    rw [BitVec.getLsbD, hnat, Nat.testBit_two_pow_sub_one]
    by_cases hi : i < length
    · simp [hi, show i < 64 by omega]
    · simp [hi]

theorem getLsbD_and_low {m : Mask} {length i : Nat} :
    (m &&& Mask.low length).getLsbD i = true ↔ m.getLsbD i = true ∧ i < length := by
  rw [BitVec.getLsbD_and, getLsbD_low, Bool.and_eq_true, Bool.and_eq_true, decide_eq_true_eq,
    decide_eq_true_eq]
  constructor
  · rintro ⟨hbit, _, hi⟩
    exact ⟨hbit, hi⟩
  · rintro ⟨hbit, hi⟩
    exact ⟨hbit, BitVec.lt_of_getLsbD hbit, hi⟩

theorem getLsbD_ofBits {bits : List Bool} (h : bits.length ≤ 64) (i : Nat) :
    (Mask.ofBits bits).getLsbD i = bits[i]?.getD false := by
  induction bits generalizing i with
  | nil => simp [Mask.ofBits]
  | cons bit rest ih =>
    simp only [List.length_cons] at h
    rw [Mask.ofBits, BitVec.getLsbD_or, BitVec.getLsbD_shiftLeft, ih (by omega)]
    cases i with
    | zero => cases bit <;> simp
    | succ i =>
      have hnone : ¬ i + 1 < 64 → rest[i]? = none := fun hi =>
        List.getElem?_eq_none (by omega)
      by_cases hi : i + 1 < 64
      · cases bit <;> simp [hi]
      · cases bit <;> simp [hi, hnone hi]

/-- The carry of `m - 1` into a bit says whether a lower bit of `m` is set. -/
theorem carry_allOnes (m : Mask) {i : Nat} (hi : i ≤ 64) :
    BitVec.carry i m (BitVec.allOnes 64) false = true ↔ ∃ j < i, m.getLsbD j = true := by
  induction i with
  | zero => simp
  | succ i ih =>
    have hlt : i < 64 := by omega
    rw [BitVec.carry_succ, BitVec.getLsbD_allOnes, decide_eq_true hlt, Bool.atLeastTwo_true_mid,
      Bool.or_eq_true, ih (by omega)]
    constructor
    · rintro (hbit | ⟨j, hj, hbit⟩)
      · exact ⟨i, by omega, hbit⟩
      · exact ⟨j, by omega, hbit⟩
    · rintro ⟨j, hj, hbit⟩
      by_cases hji : j = i
      · exact Or.inl (hji ▸ hbit)
      · exact Or.inr ⟨j, by omega, hbit⟩

theorem getLsbD_clearFirst (m : Mask) (i : Nat) :
    m.clearFirst.getLsbD i = true ↔ m.getLsbD i = true ∧ ∃ j < i, m.getLsbD j = true := by
  by_cases hi : i < 64
  · have hsub : m - 1 = m + BitVec.allOnes 64 := by
      rw [BitVec.sub_eq_add_neg]
      rfl
    rw [Mask.clearFirst, BitVec.getLsbD_and, hsub, BitVec.getLsbD_add hi, BitVec.getLsbD_allOnes,
      decide_eq_true hi, ← carry_allOnes m (by omega)]
    cases m.getLsbD i <;> cases BitVec.carry i m (BitVec.allOnes 64) false <;> simp
  · rw [BitVec.getLsbD_of_ge _ _ (by omega), BitVec.getLsbD_of_ge _ _ (by omega)]
    simp

/-! ### The lowest set bit -/

theorem isFirst_firstSet? (m : Mask) : IsFirst (fun i => m.getLsbD i = true) 64 m.firstSet? := by
  unfold Mask.firstSet?
  split
  · rename_i hzero
    intro j _
    rw [hzero]
    simp
  · rename_i hne
    cases hfind : (List.range 64).find? m.getLsbD with
    | none =>
      refine absurd (BitVec.eq_of_getLsbD_eq fun i hi => ?_) hne
      have := List.find?_range_eq_none.mp hfind i hi
      simpa using this
    | some i =>
      obtain ⟨hbit, hmem, hbelow⟩ := List.find?_range_eq_some.mp hfind
      rw [Mask.firstSet, hfind]
      refine ⟨List.mem_range.mp hmem, hbit, fun j hj => ?_⟩
      simpa using hbelow j hj

/-- What is left after the lowest bit is cleared lies above it. -/
theorem lt_of_getLsbD_clearFirst {m : Mask} {i i' : Nat}
    (hfirst : IsFirst (fun i => m.getLsbD i = true) 64 (some i))
    (hbit : m.clearFirst.getLsbD i' = true) : i < i' := by
  obtain ⟨_, j, hj, hbit⟩ := (getLsbD_clearFirst m i').mp hbit
  have hle : i ≤ j := Nat.not_lt.mp fun hlt => hfirst.2.2 j hlt hbit
  omega

theorem firstSet?_eq_none_iff {m : Mask} : m.firstSet? = none ↔ m = 0 := by
  unfold Mask.firstSet?
  split
  · rename_i hzero
    exact iff_of_true rfl hzero
  · rename_i hne
    exact iff_of_false nofun hne

/-- The set bits of the mask are the positions below `n` of which `p` holds. -/
def Marks (m : Mask) (p : Nat → Prop) (n : Nat) : Prop :=
  ∀ i, m.getLsbD i = true ↔ i < n ∧ p i

namespace Marks

variable {m m' : Mask} {p q : Nat → Prop} {n : Nat}

theorem congr (h : Marks m p n) (hpq : ∀ i < n, p i ↔ q i) : Marks m q n := fun i =>
  (h i).trans (and_congr_right fun hi => hpq i hi)

theorem isFirst (h : Marks m p n) : IsFirst p n m.firstSet? := by
  have hset := isFirst_firstSet? m
  cases hfirst : m.firstSet? with
  | none =>
    rw [hfirst] at hset
    intro j hj hp
    have hbit := (h j).mpr ⟨hj, hp⟩
    by_cases hj' : j < 64
    · exact hset j hj' hbit
    · rw [BitVec.getLsbD_of_ge _ _ (by omega)] at hbit
      cases hbit
  | some i =>
    rw [hfirst] at hset
    obtain ⟨_, hbit, hbelow⟩ := hset
    obtain ⟨hi, hp⟩ := (h i).mp hbit
    exact ⟨hi, hp, fun j hj hp => hbelow j hj ((h j).mpr ⟨by omega, hp⟩)⟩

theorem or (h : Marks m p n) (h' : Marks m' q n) : Marks (m ||| m') (fun i => p i ∨ q i) n := by
  intro i
  rw [BitVec.getLsbD_or, Bool.or_eq_true, h i, h' i]
  constructor
  · rintro (⟨hi, hp⟩ | ⟨hi, hq⟩)
    · exact ⟨hi, Or.inl hp⟩
    · exact ⟨hi, Or.inr hq⟩
  · rintro ⟨hi, hp | hq⟩
    · exact Or.inl ⟨hi, hp⟩
    · exact Or.inr ⟨hi, hq⟩

/-- A mask may be cut to fewer positions. -/
theorem low {length : Nat} (h : Marks m p n) (hle : length ≤ n) :
    Marks (m &&& Mask.low length) p length := by
  intro i
  rw [getLsbD_and_low, h i]
  constructor
  · rintro ⟨⟨_, hp⟩, hi⟩
    exact ⟨hi, hp⟩
  · rintro ⟨hi, hp⟩
    exact ⟨⟨by omega, hp⟩, hi⟩

/-- The positions below `n` that a mask does not mark. -/
theorem compl (h : Marks m p n) (hn : n ≤ 64) :
    Marks (~~~m &&& Mask.low n) (fun i => ¬ p i) n := by
  intro i
  rw [BitVec.getLsbD_and, BitVec.getLsbD_not, getLsbD_low]
  by_cases hi : i < n
  · have hbit : m.getLsbD i = true ↔ p i := (h i).trans (and_iff_right hi)
    show _ ↔ i < n ∧ ¬ p i
    rw [← hbit]
    simp [hi, show i < 64 by omega]
  · simp [hi]

/-- A mask for the positions from `off` on, moved up by `off`, where nothing is marked below. -/
theorem shiftLeft {off : Nat} (h : Marks m (fun i => p (off + i)) n)
    (hbelow : ∀ i < off, ¬ p i) (hle : off + n ≤ 64) : Marks (m <<< off) p (off + n) := by
  intro i
  rw [BitVec.getLsbD_shiftLeft]
  by_cases hi : i < off
  · simp [hi, hbelow i hi]
  · obtain ⟨j, rfl⟩ : ∃ j, i = off + j := ⟨i - off, by omega⟩
    have hj : (m.getLsbD j = true) ↔ j < n ∧ p (off + j) := h j
    rw [Nat.add_sub_cancel_left, Nat.add_lt_add_iff_left, ← hj]
    constructor
    · intro hbit
      exact (Bool.and_eq_true_iff.mp hbit).2
    · intro hbit
      have := (hj.mp hbit).1
      simp [hbit, show off + j < 64 by omega]

theorem eq_zero_iff (h : Marks m p n) : m = 0 ↔ ∀ i < n, ¬ p i := by
  constructor
  · rintro rfl i hi hp
    have := (h i).mpr ⟨hi, hp⟩
    simp at this
  · intro hnone
    refine BitVec.eq_of_getLsbD_eq fun i _ => ?_
    have hbit : ¬ m.getLsbD i = true := fun hbit => hnone i ((h i).mp hbit).1 ((h i).mp hbit).2
    simpa using hbit

theorem zero (h : IsFirst p n none) : Marks 0 p n := by
  intro i
  constructor
  · intro hbit
    simp at hbit
  · rintro ⟨hi, hp⟩
    exact absurd hp (h i hi)

end Marks

/-- The first hit in a register and those that follow. -/
theorem isFirst_firstHit?_cons {m : Mask} {rest : List Mask} {p : Nat → Prop} {width n : Nat}
    (hm : Marks m p width)
    (hrest : IsFirst (fun i => p (width + i)) n (Mask.firstHit? width rest)) :
    IsFirst p (width + n) (Mask.firstHit? width (m :: rest)) := by
  have hfirst := hm.isFirst
  rw [Mask.firstHit?]
  split
  · rename_i hzero
    rw [firstSet?_eq_none_iff.mpr hzero] at hfirst
    exact hfirst.append hrest
  · rename_i hne
    rw [Mask.firstSet?, if_neg hne] at hfirst
    exact hfirst.of_some (Nat.lt_of_lt_of_le hfirst.1 (Nat.le_add_right width n))

end ByteRoutines
