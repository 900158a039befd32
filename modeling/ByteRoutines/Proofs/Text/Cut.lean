import ByteRoutines.Text.Cut
import ByteRoutines.Proofs.Config.Reading

/-!
# Texts that are put together

Cutting, stripping and trimming take apart what was put together: a cut gives
two parts just if the text is made of them with the separator between
(`cutAt_eq_some_iff`), and a strip what stands between two given characters
(`strip_eq_some_iff`). Trimming takes away the blanks that were put around a
text which has none at its ends (`trim_of_padded`).
-/

namespace ByteRoutines.Text

variable {text inner left right piece : List Char} {sep l r c : Char}

theorem cutAt_append (h : sep ∉ left) (right : List Char) :
    cutAt sep (left ++ sep :: right) = some (left, right) := by
  induction left with
  | nil => simp [cutAt]
  | cons c rest ih =>
    rw [List.mem_cons, not_or] at h
    rw [List.cons_append, cutAt, if_neg (Ne.symm h.1), ih h.2]
    rfl

theorem cutAt_eq_some_iff :
    cutAt sep text = some (left, right) ↔ text = left ++ sep :: right ∧ sep ∉ left := by
  constructor
  · exact fun h => ⟨eq_append_of_cutAt h, not_mem_of_cutAt h⟩
  · rintro ⟨rfl, h⟩
    exact cutAt_append h right

theorem cutAt_eq_none_iff : cutAt sep text = none ↔ sep ∉ text := by
  constructor
  · intro h hmem
    obtain ⟨left, right, rfl, hleft⟩ := List.eq_append_cons_of_mem hmem
    rw [cutAt_append hleft] at h
    cases h
  · intro h
    rw [Option.eq_none_iff_forall_ne_some]
    rintro ⟨left, right⟩ hcut
    rw [eq_append_of_cutAt hcut] at h
    exact h (List.mem_append_right left List.mem_cons_self)

theorem strip_eq_some_iff : strip l r text = some inner ↔ text = l :: (inner ++ [r]) := by
  constructor
  · intro h
    cases text with
    | nil => cases h
    | cons c rest =>
      rw [strip] at h
      split at h
      · rename_i hends
        obtain ⟨rfl, hlast⟩ := hends
        cases h
        obtain ⟨middle, rfl⟩ := List.getLast?_eq_some_iff.mp hlast
        rw [List.dropLast_concat]
      · cases h
  · rintro rfl
    rw [strip, if_pos ⟨rfl, List.getLast?_concat⟩, List.dropLast_concat]

/-- What stands in one of the pieces stands in the text that is put together from them. -/
theorem mem_intercalate {pieces : List (List Char)} (hpiece : piece ∈ pieces) (hc : c ∈ piece) :
    c ∈ [sep].intercalate pieces := by
  induction pieces with
  | nil => cases hpiece
  | cons first rest ih =>
    cases rest with
    | nil =>
      rw [List.mem_singleton.mp hpiece] at hc
      simpa using hc
    | cons second others =>
      rw [List.intercalate_cons_cons]
      rcases List.mem_cons.mp hpiece with rfl | hrest
      · simp [hc]
      · exact List.mem_append_right _ (ih hrest)

/-! ### Blanks around a text -/

/-- The text is `inner` with blanks around it, or none. -/
def Padded (inner text : List Char) : Prop :=
  ∃ before after, Blank before ∧ Blank after ∧ text = before ++ inner ++ after

theorem Padded.refl (text : List Char) : Padded text text :=
  ⟨[], [], by simp [Blank], by simp [Blank], by simp⟩

theorem Padded.mem (h : Padded inner text) (hc : c ∈ text) (hblank : isBlank c = false) :
    c ∈ inner := by
  obtain ⟨before, after, hbefore, hafter, rfl⟩ := h
  rcases List.mem_append.mp hc with hc | hc
  · rcases List.mem_append.mp hc with hc | hc
    · rw [hbefore c hc] at hblank
      cases hblank
    · exact hc
  · rw [hafter c hc] at hblank
    cases hblank

/-- The text has no blank at either end. -/
structure Trimmed (text : List Char) : Prop where
  head : ∀ c ∈ text.head?, isBlank c = false
  last : ∀ c ∈ text.getLast?, isBlank c = false

theorem trimmed_of_forall (h : ∀ c ∈ text, isBlank c = false) : Trimmed text where
  head c hc := h c (List.mem_of_mem_head? hc)
  last c hc := h c (List.mem_of_mem_getLast? hc)

theorem Trimmed.append (hleft : Trimmed left) (hright : Trimmed right) (hl : left ≠ [])
    (hr : right ≠ []) (inner : List Char) : Trimmed (left ++ inner ++ right) where
  head c hc := by
    obtain ⟨first, rest, rfl⟩ := List.exists_cons_of_ne_nil hl
    exact hleft.head c hc
  last c hc := by
    obtain ⟨rest, final, rfl⟩ := (List.eq_nil_or_concat right).resolve_left hr
    rw [List.concat_eq_append, ← List.append_assoc, List.getLast?_concat] at hc
    refine hright.last c ?_
    rwa [List.concat_eq_append, List.getLast?_concat]

theorem dropWhile_isBlank_append (hblank : Blank left) (h : ∀ c ∈ text.head?, isBlank c = false)
    (hne : text ≠ []) (rest : List Char) :
    (left ++ (text ++ rest)).dropWhile isBlank = text ++ rest := by
  obtain ⟨c, tail, rfl⟩ := List.exists_cons_of_ne_nil hne
  rw [List.dropWhile_append_of_pos hblank, List.cons_append, List.dropWhile_cons_of_neg]
  rw [h c rfl]
  exact Bool.false_ne_true

/-- **Trimming takes away the blanks around a text.** -/
theorem trim_of_padded (h : Padded inner text) (htrimmed : Trimmed inner) (hne : inner ≠ []) :
    trim text = inner := by
  obtain ⟨before, after, hbefore, hafter, rfl⟩ := h
  have hafter' : Blank after.reverse := fun c hc => hafter c (List.mem_reverse.mp hc)
  have hlast : ∀ c ∈ inner.reverse.head?, isBlank c = false := by
    rw [List.head?_reverse]
    exact htrimmed.last
  have hback := dropWhile_isBlank_append hafter' hlast (mt List.reverse_eq_nil_iff.mp hne) []
  rw [List.append_nil, ← List.reverse_append] at hback
  rw [trim, List.append_assoc, dropWhile_isBlank_append hbefore htrimmed.head hne, hback,
    List.reverse_reverse]

end ByteRoutines.Text
