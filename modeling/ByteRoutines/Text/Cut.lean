/-!
# Cutting a text at a character

`cutAt` splits a text at the first occurrence of a separator and keeps
neither copy of it; `strip` removes one opening and one closing character.
-/

namespace ByteRoutines.Text

/-- What stands before and after the first `sep`, if there is one. -/
def cutAt (sep : Char) : List Char → Option (List Char × List Char)
  | [] => none
  | c :: rest =>
    if c = sep then some ([], rest)
    else (cutAt sep rest).map fun parts => (c :: parts.1, parts.2)

/-- What stands between a leading `left` and a final `right`. -/
def strip (left right : Char) : List Char → Option (List Char)
  | [] => none
  | c :: rest =>
    if c = left ∧ rest.getLast? = some right then some rest.dropLast else none

/-- A cut gives back the text when its parts are joined by the separator. -/
theorem eq_append_of_cutAt {sep : Char} {text left right : List Char}
    (h : cutAt sep text = some (left, right)) : text = left ++ sep :: right := by
  induction text generalizing left with
  | nil => simp [cutAt] at h
  | cons c rest ih =>
    simp only [cutAt] at h
    split at h
    · simp_all
    · obtain ⟨⟨a, b⟩, hcut, hparts⟩ := Option.map_eq_some_iff.1 h
      simp only [Prod.mk.injEq] at hparts
      obtain ⟨rfl, rfl⟩ := hparts
      simp [ih hcut]

/-- The first part of a cut does not hold the separator. -/
theorem not_mem_of_cutAt {sep : Char} {text left right : List Char}
    (h : cutAt sep text = some (left, right)) : sep ∉ left := by
  induction text generalizing left with
  | nil => simp [cutAt] at h
  | cons c rest ih =>
    simp only [cutAt] at h
    split at h
    · simp_all
    · obtain ⟨⟨a, b⟩, hcut, hparts⟩ := Option.map_eq_some_iff.1 h
      simp only [Prod.mk.injEq] at hparts
      obtain ⟨rfl, rfl⟩ := hparts
      simp only [List.mem_cons, not_or]
      exact ⟨fun hc => by simp_all, ih hcut⟩

end ByteRoutines.Text
