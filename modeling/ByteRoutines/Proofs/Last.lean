/-!
# Last elements

Where later elements of a list replace earlier ones, the last one that has a
property decides. `IsLast` states which one that is, or that there is none;
every list has an answer (`exists_isLast`).
-/

namespace ByteRoutines

/-- The last element of a list of which `p` holds, if it holds of any. -/
def IsLast {α : Type} (p : α → Prop) (list : List α) : Option α → Prop
  | some last => ∃ front rest, list = front ++ last :: rest ∧ p last ∧ ∀ a ∈ rest, ¬ p a
  | none => ∀ a ∈ list, ¬ p a

theorem exists_isLast {α : Type} (p : α → Prop) (list : List α) :
    ∃ found, IsLast p list found := by
  induction list with
  | nil => exact ⟨none, nofun⟩
  | cons head rest ih =>
    obtain ⟨found, hfound⟩ := ih
    cases found with
    | some last =>
      obtain ⟨front, tail, rfl, hlast, htail⟩ := hfound
      exact ⟨some last, head :: front, tail, rfl, hlast, htail⟩
    | none =>
      by_cases hhead : p head
      · exact ⟨some head, [], rest, rfl, hhead, hfound⟩
      · exact ⟨none, List.forall_mem_cons.mpr ⟨hhead, hfound⟩⟩

end ByteRoutines
