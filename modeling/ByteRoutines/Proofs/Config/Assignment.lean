import ByteRoutines.Config.Assignment
import ByteRoutines.Proofs.Config.Reading

/-!
# Assignments that ask for something

Every text that can be read as an assignment asks for a variant somewhere
(`isActive_of_parse`). A text that names one variant asks for it everywhere. A
list has a colon, and the entry that it stands in is not blank, so the list
has an entry, and what the last one asks for is not taken back.
-/

namespace ByteRoutines.Config

/-- A list with a colon has an entry. -/
theorem entries_ne_nil {text : List Char} (h : ':' ∈ text) : entries text ≠ [] := by
  have hne : ':' ≠ ',' := by decide
  obtain ⟨piece, hpiece, hcolon⟩ := Text.exists_mem_splitOn h hne
  -- The colon is no blank either, so trimming leaves it where it is.
  have hkept : Text.trim piece ≠ [] := List.ne_nil_of_mem (Text.mem_trim hcolon (by decide))
  refine List.ne_nil_of_mem (List.mem_filter.mpr ⟨List.mem_map_of_mem hpiece, ?_⟩)
  simpa using hkept

namespace Assignment

/-- What the last entry asks for is asked for in the end. -/
theorem isActive_ofEntries {list : List (Operation × Variant)} (h : list ≠ []) :
    (ofEntries list).isActive = true := by
  obtain ⟨front, last, rfl⟩ := (List.eq_nil_or_concat list).resolve_left h
  rw [isActive_iff]
  refine ⟨last.1, ?_⟩
  rw [List.concat_eq_append, ofEntries, List.foldl_append]
  simp

theorem isActive_uniform (variant : Variant) : (uniform variant).isActive = true :=
  isActive_iff.mpr ⟨.memcpy, rfl⟩

/-- **What can be read asks for something.** -/
theorem isActive_of_parse {raw : String} {assignment : Assignment}
    (h : parse raw = .ok assignment) : assignment.isActive = true := by
  rw [parse] at h
  split at h
  · rename_i hcolon
    obtain ⟨list, hlist, hassignment⟩ := exists_of_bind_ok h
    cases hassignment
    exact isActive_ofEntries (ne_nil_of_mapM_ok hlist (entries_ne_nil hcolon))
  · obtain ⟨variant, _, hassignment⟩ := exists_of_bind_ok h
    cases hassignment
    exact isActive_uniform variant

/-- A blank text cannot be read. -/
theorem not_blank_of_parse {raw : String} {assignment : Assignment}
    (h : parse (String.ofList (Text.trim raw.toList)) = .ok assignment) :
    ¬ Text.Blank raw.toList := by
  intro hblank
  rw [Text.trim_eq_nil_iff.mpr hblank] at h
  cases h

end Assignment

end ByteRoutines.Config
