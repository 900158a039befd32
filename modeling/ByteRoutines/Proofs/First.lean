/-!
# First positions

A search answers the first position below a bound that has a property, or that
there is none. `IsFirst` states such an answer; it determines it
(`IsFirst.unique`). A search that goes on where another one found nothing
answers for both parts together (`IsFirst.append`).

`searched n found` is how many positions a search looks at that goes up from 0
and stops where it finds something. What lies behind them has no influence on
the answer (`IsFirst.congr_searched`).
-/

namespace ByteRoutines

/-- `found` is the first position below `n` of which `p` holds. -/
def IsFirst (p : Nat → Prop) (n : Nat) : Option Nat → Prop
  | some i => i < n ∧ p i ∧ ∀ j < i, ¬ p j
  | none => ∀ j < n, ¬ p j

instance (p : Nat → Prop) [DecidablePred p] (n : Nat) :
    (found : Option Nat) → Decidable (IsFirst p n found)
  | some i => inferInstanceAs (Decidable (i < n ∧ p i ∧ ∀ j < i, ¬ p j))
  | none => inferInstanceAs (Decidable (∀ j < n, ¬ p j))

/-- How many positions a search looks at: up to the one that it finds with it, or all of them. -/
def searched (n : Nat) : Option Nat → Nat
  | some i => i + 1
  | none => n

namespace IsFirst

variable {p q : Nat → Prop} {n n' : Nat} {found found' : Option Nat}

theorem searched_le (h : IsFirst p n found) : searched n found ≤ n := by
  cases found with
  | none => exact Nat.le_refl n
  | some i => exact h.1

theorem getD_le_searched (n : Nat) (found : Option Nat) : found.getD n ≤ searched n found := by
  cases found with
  | none => exact Nat.le_refl n
  | some i => exact Nat.le_succ i

theorem getD_le (h : IsFirst p n found) : found.getD n ≤ n :=
  Nat.le_trans (getD_le_searched n found) h.searched_le

theorem searched_le_succ_getD (n : Nat) (found : Option Nat) :
    searched n found ≤ found.getD n + 1 := by
  cases found with
  | none => exact Nat.le_succ n
  | some i => exact Nat.le_refl (i + 1)

theorem not_of_lt_getD {i : Nat} (h : IsFirst p n found) (hi : i < found.getD n) : ¬ p i := by
  cases found with
  | none => exact h i hi
  | some t => exact h.2.2 i hi

/-- What lies behind the first position does not matter. -/
theorem congr_searched (h : IsFirst p n found) (hpq : ∀ i < searched n found, p i ↔ q i) :
    IsFirst q n found := by
  cases found with
  | none => exact fun j hj hq => h j hj ((hpq j hj).mpr hq)
  | some i =>
    obtain ⟨hi, hp, hbelow⟩ := h
    refine ⟨hi, (hpq i (Nat.lt_succ_self i)).mp hp, fun j hj hq => hbelow j hj ?_⟩
    exact (hpq j (Nat.lt_succ_of_lt hj)).mpr hq

theorem congr (h : IsFirst p n found) (hpq : ∀ i < n, p i ↔ q i) : IsFirst q n found :=
  h.congr_searched fun i hi => hpq i (Nat.lt_of_lt_of_le hi h.searched_le)

/-- A search that has come to a position without a hit goes on beyond it. -/
theorem lt_searched {off : Nat} (h : IsFirst p n found) (hnone : IsFirst p off none)
    (hoff : off < n) : off < searched n found := by
  cases found with
  | none => exact hoff
  | some i => exact Nat.lt_succ_of_le (Nat.not_lt.mp fun hlt => hnone i hlt h.2.1)

theorem unique (h : IsFirst p n found) (h' : IsFirst p n found') : found = found' := by
  cases found with
  | none =>
    cases found' with
    | none => rfl
    | some j => exact absurd h'.2.1 (h j h'.1)
  | some i =>
    cases found' with
    | none => exact absurd h.2.1 (h' i h.1)
    | some j =>
      rcases Nat.lt_trichotomy i j with hlt | heq | hgt
      · exact absurd h.2.1 (h'.2.2 i hlt)
      · rw [heq]
      · exact absurd h'.2.1 (h.2.2 j hgt)

theorem le_searched {off : Nat} (h : IsFirst p n found) (hnone : IsFirst p off none)
    (hoff : off ≤ n) : off ≤ searched n found := by
  rcases Nat.lt_or_eq_of_le hoff with hlt | rfl
  · exact Nat.le_of_lt (h.lt_searched hnone hlt)
  · rw [h.unique hnone]
    exact Nat.le_refl off

/-- Every search has an answer. -/
theorem exists_found (p : Nat → Prop) (n : Nat) : ∃ found, IsFirst p n found := by
  induction n with
  | zero => exact ⟨none, fun j hj => absurd hj (Nat.not_lt_zero j)⟩
  | succ n ih =>
    obtain ⟨found, hfound⟩ := ih
    cases found with
    | some i => exact ⟨some i, Nat.lt_succ_of_lt hfound.1, hfound.2⟩
    | none =>
      by_cases hp : p n
      · exact ⟨some n, Nat.lt_succ_self n, hp, hfound⟩
      · refine ⟨none, fun j hj hpj => ?_⟩
        rcases Nat.lt_or_eq_of_le (Nat.le_of_lt_succ hj) with hlt | rfl
        · exact hfound j hlt hpj
        · exact hp hpj

theorem zero : IsFirst p 0 none := fun j hj => absurd hj (Nat.not_lt_zero j)

theorem take (h : IsFirst p n none) (hle : n' ≤ n) : IsFirst p n' none :=
  fun j hj => h j (Nat.lt_of_lt_of_le hj hle)

/-- Where nothing is found up to `n`, the search goes on from there. -/
theorem append (h : IsFirst p n none) (h' : IsFirst (fun i => p (n + i)) n' found) :
    IsFirst p (n + n') (found.map (n + ·)) := by
  have hbelow : ∀ j < n + n', (∀ i < n', j = n + i → ¬ p (n + i)) → ¬ p j := by
    intro j hj hlater
    by_cases hlt : j < n
    · exact h j hlt
    · obtain ⟨i, rfl⟩ : ∃ i, j = n + i := ⟨j - n, by omega⟩
      exact hlater i (by omega) rfl
  cases found with
  | none => exact fun j hj => hbelow j hj fun i hi _ => h' i hi
  | some i =>
    obtain ⟨hi, hp, hfirst⟩ := h'
    refine ⟨Nat.add_lt_add_left hi n, hp, fun j (hj : j < n + i) => ?_⟩
    exact hbelow j (by omega) fun i' _ heq => hfirst i' (by omega)

theorem append_none (h : IsFirst p n none) (h' : ∀ i < n', ¬ p (n + i)) :
    IsFirst p (n + n') none := by
  have hlater : IsFirst (fun i => p (n + i)) n' none := h'
  exact h.append hlater

theorem of_some {i : Nat} (h : IsFirst p n (some i)) (hle : i < n') : IsFirst p n' (some i) :=
  ⟨hle, h.2⟩

/-- A position that has the property bounds the first one. -/
theorem of_holds {i t : Nat} (h : IsFirst p n (some i)) (ht : p t) : IsFirst p (t + 1) (some i) :=
  h.of_some (Nat.lt_succ_of_le (Nat.not_lt.mp fun hlt => h.2.2 t hlt ht))

end IsFirst

end ByteRoutines
