import ByteRoutines.Text.Blank

/-!
# Reading texts

Trimming drops blanks only (`mem_trim`), so it leaves nothing of a text just if
that is blank, and splitting drops separators only (`exists_mem_splitOn`).

A reading in steps succeeds only if each of its steps does (`exists_of_bind_ok`).
-/

namespace ByteRoutines

namespace Text

variable {text : List Char} {c sep : Char}

theorem mem_dropWhile_isBlank (h : c ∈ text) (hc : isBlank c = false) :
    c ∈ text.dropWhile isBlank := by
  have hsplit : text.takeWhile isBlank ++ text.dropWhile isBlank = text :=
    List.takeWhile_append_dropWhile
  rw [← hsplit] at h
  rcases List.mem_append.mp h with hblank | hrest
  · have hall : (text.takeWhile isBlank).all isBlank = true := List.all_takeWhile
    rw [List.all_eq_true.mp hall c hblank] at hc
    cases hc
  · exact hrest

/-- Trimming drops blanks only. -/
theorem mem_trim (h : c ∈ text) (hc : isBlank c = false) : c ∈ trim text := by
  rw [trim, List.mem_reverse]
  apply mem_dropWhile_isBlank _ hc
  rw [List.mem_reverse]
  exact mem_dropWhile_isBlank h hc

/-- Nothing stands there, or blanks only. -/
def Blank (text : List Char) : Prop := ∀ c ∈ text, isBlank c = true

instance (text : List Char) : Decidable (Blank text) :=
  decidable_of_iff (text.all isBlank = true) List.all_eq_true

theorem trim_eq_nil_iff : trim text = [] ↔ Blank text := by
  constructor
  · intro htrim c hc
    by_cases hblank : isBlank c = true
    · exact hblank
    · have hmem := mem_trim hc (Bool.not_eq_true _ ▸ hblank)
      rw [htrim] at hmem
      cases hmem
  · intro hall
    have hdrop : (text ++ []).dropWhile isBlank = [] := List.dropWhile_append_of_pos hall
    rw [List.append_nil] at hdrop
    rw [trim, hdrop]
    rfl

/-- Whatever is no separator stands in one of the pieces. -/
theorem exists_mem_splitOn (h : c ∈ text) (hne : c ≠ sep) :
    ∃ piece ∈ text.splitOn sep, c ∈ piece := by
  induction text with
  | nil => cases h
  | cons d rest ih =>
    rw [List.splitOn_cons_eq_if_modifyHead]
    by_cases hd : d = sep
    · rw [if_pos (beq_iff_eq.mpr hd)]
      rcases List.mem_cons.mp h with rfl | hrest
      · exact absurd hd hne
      · obtain ⟨piece, hpiece, hc⟩ := ih hrest
        exact ⟨piece, List.mem_cons_of_mem _ hpiece, hc⟩
    · rw [if_neg (mt beq_iff_eq.mp hd)]
      obtain ⟨first, others, hsplit⟩ :=
        List.exists_cons_of_ne_nil (List.splitOn_ne_nil sep rest)
      rw [hsplit, List.modifyHead_cons]
      rcases List.mem_cons.mp h with rfl | hrest
      · exact ⟨_, List.mem_cons_self, List.mem_cons_self⟩
      · obtain ⟨piece, hpiece, hc⟩ := ih hrest
        rw [hsplit] at hpiece
        rcases List.mem_cons.mp hpiece with rfl | hin
        · exact ⟨_, List.mem_cons_self, List.mem_cons_of_mem _ hc⟩
        · exact ⟨piece, List.mem_cons_of_mem _ hin, hc⟩

end Text

namespace Config

theorem exists_of_bind_ok {α β ε : Type} {x : Except ε α} {f : α → Except ε β} {b : β}
    (h : (x >>= f) = .ok b) : ∃ a, x = .ok a ∧ f a = .ok b := by
  cases x with
  | ok a => exact ⟨a, rfl, h⟩
  | error error => cases h

/-- Where there is something to read, something is read. -/
theorem ne_nil_of_mapM_ok {α β ε : Type} {f : α → Except ε β} {xs : List α} {ys : List β}
    (h : xs.mapM f = .ok ys) (hne : xs ≠ []) : ys ≠ [] := by
  obtain ⟨x, rest, rfl⟩ := List.exists_cons_of_ne_nil hne
  rw [List.mapM_cons] at h
  obtain ⟨y, _, h⟩ := exists_of_bind_ok h
  obtain ⟨zs, _, h⟩ := exists_of_bind_ok h
  cases h
  exact List.cons_ne_nil y zs

end Config

end ByteRoutines
