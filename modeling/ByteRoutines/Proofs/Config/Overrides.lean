import ByteRoutines.Config.Overrides
import ByteRoutines.Proofs.Config.Assignment

/-!
# What is read from the settings

A setting is absent, accepted or refused, and `readSetting` does one thing in
each case. As everything that is accepted for the operations asks for
something, the two settings together come to two cases: the operations are
accepted, and the threshold text is not looked at (`ofValues_of_accepted`), or
nothing is asked for them (`ofValues_of_not_read`).
-/

namespace ByteRoutines.Config

/-! ### One setting -/

theorem present?_eq_none {raw : String} (h : Text.Blank raw.toList) :
    present? (some raw) = none := by
  simp [present?, Text.trim_eq_nil_iff.mpr h]

theorem present?_eq_some {raw : String} (h : ¬ Text.Blank raw.toList) :
    present? (some raw) = some (String.ofList (Text.trim raw.toList)) := by
  have hkept : Text.trim raw.toList ≠ [] := mt Text.trim_eq_nil_iff.mp h
  simp [present?, hkept]

section ReadSetting

variable {α : Type} {setting : Log.Setting} {parse : String → Except Error α}
  {raw : Option String} {text : String}

theorem readSetting_of_absent (h : present? raw = none) :
    readSetting setting parse raw = (none, []) := by
  rw [readSetting, h]

@[simp] theorem readSetting_none : readSetting setting parse none = (none, []) := rfl

/-- A blank text counts as absent. -/
theorem readSetting_of_blank {raw : String} (h : Text.Blank raw.toList) :
    readSetting setting parse (some raw) = readSetting setting parse none :=
  readSetting_of_absent (present?_eq_none h)

theorem readSetting_of_accepted {value : α} (h : present? raw = some text)
    (hparse : parse text = .ok value) :
    readSetting setting parse raw = (some value, [.overrideActive setting text]) := by
  simp only [readSetting, h, hparse]

theorem readSetting_of_refused {error : Error} (h : present? raw = some text)
    (hparse : parse text = .error error) :
    readSetting setting parse raw = (none, [.overrideIgnored setting error]) := by
  simp only [readSetting, h, hparse]

theorem accepted_or_not_read (setting : Log.Setting) (parse : String → Except Error α)
    (raw : Option String) :
    (∃ text value, present? raw = some text ∧ parse text = .ok value) ∨
      (readSetting setting parse raw).1 = none := by
  cases hpresent : present? raw with
  | none => exact Or.inr (by rw [readSetting_of_absent hpresent])
  | some text =>
    cases hparse : parse text with
    | ok value => exact Or.inl ⟨text, value, rfl, hparse⟩
    | error error => exact Or.inr (by rw [readSetting_of_refused hpresent hparse])

/-- What is read was accepted. -/
theorem exists_text_of_readSetting {value : α}
    (h : (readSetting setting parse raw).1 = some value) : ∃ text, parse text = .ok value := by
  rcases accepted_or_not_read setting parse raw with ⟨text, v, hpresent, hparse⟩ | hnone
  · rw [readSetting_of_accepted hpresent hparse] at h
    cases h
    exact ⟨text, hparse⟩
  · rw [hnone] at h
    cases h

end ReadSetting

/-! ### Both settings -/

namespace Overrides

variable {operations threshold : Option String} {text : String}

theorem ofValues_of_accepted {assignment : Assignment} (h : present? operations = some text)
    (hparse : Assignment.parse text = .ok assignment) (threshold : Option String) :
    ofValues operations threshold = (⟨assignment, none⟩, [.overrideActive .operations text]) := by
  simp only [ofValues, readSetting_of_accepted h hparse, Option.getD_some,
    Assignment.isActive_of_parse hparse, if_true]

theorem ofValues_of_not_read (h : (readSetting .operations Assignment.parse operations).1 = none)
    (threshold : Option String) : ofValues operations threshold =
      (⟨.empty, (readSetting .threshold BulkRanges.parse threshold).1⟩,
        (readSetting .operations Assignment.parse operations).2 ++
          (readSetting .threshold BulkRanges.parse threshold).2) := by
  have hempty : Assignment.empty.isActive = false := by decide
  simp [ofValues, h, hempty]

/-- A threshold is only asked for where no operation is. -/
theorem threshold_eq_none_of_hasOperations
    (h : (ofValues operations threshold).1.hasOperations = true) :
    (ofValues operations threshold).1.threshold = none := by
  rcases accepted_or_not_read .operations Assignment.parse operations with
    ⟨text, assignment, hpresent, hparse⟩ | hnone
  · rw [ofValues_of_accepted hpresent hparse]
  · rw [ofValues_of_not_read hnone] at h
    cases h

/-- The ranges that are asked for are those of an accepted text. -/
theorem exists_text_of_threshold {ranges : BulkRanges}
    (h : (ofValues operations threshold).1.threshold = some ranges) :
    ∃ text, BulkRanges.parse text = .ok ranges := by
  rcases accepted_or_not_read .operations Assignment.parse operations with
    ⟨text, assignment, hpresent, hparse⟩ | hnone
  · rw [ofValues_of_accepted hpresent hparse] at h
    cases h
  · rw [ofValues_of_not_read hnone] at h
    exact exists_text_of_readSetting h

@[simp] theorem threshold_setAll (overrides : Overrides) (list : List (Operation × Variant)) :
    (overrides.setAll list).threshold = overrides.threshold := by
  induction list generalizing overrides with
  | nil => rfl
  | cons entry rest ih => exact ih (overrides.setOperation entry.1 entry.2)

end Overrides

end ByteRoutines.Config
