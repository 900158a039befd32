import ByteRoutines.Proofs.First

/-!
# Orders of bytes

Two ways to compare byte by byte. Texts end at a zero, and a comparison of two
of them ends there or where they differ (`compareTexts`); what has no zero is
taken to have one behind its end (`endless`). Lists of bytes are compared whole,
and the one that ends first is less if they agree up to there (`compareBytes`).

The sign of `compareBytes` is the lexicographic order of lists
(`compareBytes_neg_iff`, `compareBytes_eq_zero_iff`). To exchange the operands
is to change the sign, for both.
-/

namespace ByteRoutines

/-- The difference of two bytes, as numbers from 0 to 255. -/
def byteOrder (x y : UInt8) : Int := (x.toNat : Int) - y.toNat

theorem byteOrder_swap (x y : UInt8) : byteOrder y x = -byteOrder x y := (Int.neg_sub _ _).symm

theorem byteOrder_eq_zero_iff {x y : UInt8} : byteOrder x y = 0 ↔ x = y := by
  rw [byteOrder, ← UInt8.toNat_inj]
  omega

theorem byteOrder_neg_iff {x y : UInt8} : byteOrder x y < 0 ↔ x < y := by
  rw [byteOrder, UInt8.lt_iff_toNat_lt]
  omega

/-! ### Texts -/

/-- The bytes of a list, and zeros behind them without end. -/
def endless (bytes : List UInt8) (i : Nat) : UInt8 := bytes.getD i 0

/-- The comparison of two texts ends at position `i`, unless it did before. -/
def Decisive (f g : Nat → UInt8) (i : Nat) : Prop := f i = 0 ∨ f i ≠ g i

instance (f g : Nat → UInt8) (i : Nat) : Decidable (Decisive f g i) :=
  inferInstanceAs (Decidable (_ ∨ _))

/-- Compares two texts byte by byte from position `i` on, and at most `n` bytes of them. -/
def compareTexts (f g : Nat → UInt8) (i : Nat) : Nat → Int
  | 0 => 0
  | n + 1 => if Decisive f g i then byteOrder (f i) (g i) else compareTexts f g (i + 1) n

/-- The difference of two texts at a position, if any. -/
def orderAt (f g : Nat → UInt8) : Option Nat → Int
  | some i => byteOrder (f i) (g i)
  | none => 0

variable {f g : Nat → UInt8} {i n : Nat} {found : Option Nat}

/-- Only one of the texts is asked for its end, but where they agree both of them end. -/
theorem decisive_swap_iff : Decisive g f i ↔ Decisive f g i := by
  by_cases hsame : f i = g i
  · rw [Decisive, Decisive, hsame]
  · exact iff_of_true (Or.inr (Ne.symm hsame)) (Or.inr hsame)

/-- **Exchanged texts have the opposite order.** -/
theorem compareTexts_swap (f g : Nat → UInt8) (i n : Nat) :
    compareTexts g f i n = -compareTexts f g i n := by
  induction n generalizing i with
  | zero => rfl
  | succ n ih =>
    rw [compareTexts, compareTexts]
    by_cases hhere : Decisive f g i
    · rw [if_pos hhere, if_pos (decisive_swap_iff.mpr hhere), byteOrder_swap]
    · rw [if_neg hhere, if_neg (mt decisive_swap_iff.mp hhere), ih]

theorem exists_compareTexts (f g : Nat → UInt8) (i n : Nat) :
    ∃ found, IsFirst (fun j => Decisive f g (i + j)) n found ∧
      compareTexts f g i n = orderAt f g (found.map (i + ·)) := by
  induction n generalizing i with
  | zero => exact ⟨none, IsFirst.zero, rfl⟩
  | succ n ih =>
    rw [compareTexts]
    by_cases hhere : Decisive f g i
    · rw [if_pos hhere]
      exact ⟨some 0, ⟨Nat.succ_pos n, hhere, fun j hj => absurd hj (Nat.not_lt_zero j)⟩, rfl⟩
    · rw [if_neg hhere]
      obtain ⟨found, hfirst, hvalue⟩ := ih (i + 1)
      have hhead : IsFirst (fun j => Decisive f g (i + j)) 1 none := by
        intro j hj
        rwa [Nat.lt_one_iff.mp hj]
      have htail : IsFirst (fun j => Decisive f g (i + (1 + j))) n found :=
        hfirst.congr fun j _ => by rw [Nat.add_assoc]
      refine ⟨found.map (1 + ·), ?_, ?_⟩
      · rw [Nat.add_comm n 1]
        exact hhead.append htail
      · rw [hvalue, Option.map_map]
        congr 2
        funext j
        exact Nat.add_assoc i 1 j

/-- **The first decisive position decides a comparison of texts.** -/
theorem compareTexts_eq (h : IsFirst (Decisive f g) n found) :
    compareTexts f g 0 n = orderAt f g found := by
  obtain ⟨found', hfirst, hvalue⟩ := exists_compareTexts f g 0 n
  have hsame : IsFirst (Decisive f g) n found' := hfirst.congr fun j _ => by rw [Nat.zero_add]
  rw [hvalue, h.unique hsame]
  cases found' with
  | none => rfl
  | some j => simp

/-! ### Lists of bytes -/

/-- What decides of lists that agree as far as both go: the shorter one is less. -/
def lengthOrder (l l' : Nat) : Int := if l < l' then -1 else if l = l' then 0 else 1

/-- Compares two lists of bytes: the first bytes that differ decide, or the lengths. -/
def compareBytes : List UInt8 → List UInt8 → Int
  | [], [] => 0
  | [], _ :: _ => -1
  | _ :: _, [] => 1
  | x :: xs, y :: ys => if x = y then compareBytes xs ys else byteOrder x y

variable {xs ys : List UInt8} {x y : UInt8}

theorem compareBytes_append (front xs ys : List UInt8) :
    compareBytes (front ++ xs) (front ++ ys) = compareBytes xs ys := by
  induction front with
  | nil => rfl
  | cons x front ih => rw [List.cons_append, List.cons_append, compareBytes, if_pos rfl, ih]

/-- The first bytes that differ decide. -/
theorem compareBytes_of_differ (hbefore : xs.take i = ys.take i) (hx : xs[i]? = some x)
    (hy : ys[i]? = some y) (hne : x ≠ y) : compareBytes xs ys = byteOrder x y := by
  have hxs : xs = xs.take i ++ x :: xs.drop (i + 1) := by
    obtain ⟨hi, rfl⟩ := List.getElem?_eq_some_iff.mp hx
    rw [← List.drop_eq_getElem_cons, List.take_append_drop]
  have hys : ys = xs.take i ++ y :: ys.drop (i + 1) := by
    obtain ⟨hi, rfl⟩ := List.getElem?_eq_some_iff.mp hy
    rw [hbefore, ← List.drop_eq_getElem_cons, List.take_append_drop]
  rw [hxs, hys, compareBytes_append, compareBytes, if_neg hne]

/-- Of lists that agree as far as both go, the lengths decide. -/
theorem compareBytes_of_agree
    (h : xs.take (min xs.length ys.length) = ys.take (min xs.length ys.length)) :
    compareBytes xs ys = lengthOrder xs.length ys.length := by
  fun_induction compareBytes xs ys with
  | case1 => rfl
  | case2 => simp [lengthOrder]
  | case3 => simp [lengthOrder]
  | case4 x xs ys ih =>
    rw [List.length_cons, List.length_cons, Nat.succ_min_succ, List.take_succ_cons,
      List.take_succ_cons] at h
    rw [ih (List.cons.inj h).2]
    simp [lengthOrder]
  | case5 x xs y ys hne =>
    rw [List.length_cons, List.length_cons, Nat.succ_min_succ, List.take_succ_cons,
      List.take_succ_cons] at h
    exact absurd (List.cons.inj h).1 hne

/-- **Exchanged lists have the opposite order.** -/
theorem compareBytes_swap (xs ys : List UInt8) : compareBytes ys xs = -compareBytes xs ys := by
  fun_induction compareBytes xs ys with
  | case1 => rfl
  | case2 => rfl
  | case3 => rfl
  | case4 x xs ys ih => rw [compareBytes, if_pos rfl, ih]
  | case5 x xs y ys hne => rw [compareBytes, if_neg (Ne.symm hne), byteOrder_swap]

/-- **The sign is the lexicographic order.** -/
theorem compareBytes_neg_iff : compareBytes xs ys < 0 ↔ xs < ys := by
  fun_induction compareBytes xs ys with
  | case1 => simp
  | case2 => simp
  | case3 => simp
  | case4 x xs ys ih => simp [ih]
  | case5 x xs y ys hne => simp [byteOrder_neg_iff, List.cons_lt_cons_iff, hne]

theorem compareBytes_eq_zero_iff : compareBytes xs ys = 0 ↔ xs = ys := by
  fun_induction compareBytes xs ys with
  | case1 => simp
  | case2 => simp
  | case3 => simp
  | case4 x xs ys ih => simp [ih]
  | case5 x xs y ys hne => simp [byteOrder_eq_zero_iff, hne]

theorem compareBytes_pos_iff : 0 < compareBytes xs ys ↔ ys < xs := by
  rw [← compareBytes_neg_iff, compareBytes_swap xs ys, Int.neg_neg_iff_pos]

/-- The value is the difference of the first bytes that differ within the common length, and
otherwise says which of the lists is shorter; its sign is the lexicographic order. -/
structure Orders (xs ys : List UInt8) (value : Int) : Prop where
  differ : ∀ i x y, xs.take i = ys.take i → xs[i]? = some x → ys[i]? = some y → x ≠ y →
    value = byteOrder x y
  agree : xs.take (min xs.length ys.length) = ys.take (min xs.length ys.length) →
    value = lengthOrder xs.length ys.length
  neg_iff : value < 0 ↔ xs < ys
  eq_zero_iff : value = 0 ↔ xs = ys
  pos_iff : 0 < value ↔ ys < xs

theorem orders_compareBytes (xs ys : List UInt8) : Orders xs ys (compareBytes xs ys) where
  differ _ _ _ hbefore hx hy hne := compareBytes_of_differ hbefore hx hy hne
  agree h := compareBytes_of_agree h
  neg_iff := compareBytes_neg_iff
  eq_zero_iff := compareBytes_eq_zero_iff
  pos_iff := compareBytes_pos_iff

theorem Orders.nonpos_iff {value : Int} (h : Orders xs ys value) : value ≤ 0 ↔ xs ≤ ys := by
  rw [← Int.not_lt, h.pos_iff, List.not_lt]

end ByteRoutines
