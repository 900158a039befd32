import ByteRoutines.Routine.Binding
import ByteRoutines.Proofs.Config.Overrides

/-!
# Settings that cannot be read

Two runs of the configuration that differ in one setting are compared. A
setting that cannot be read has the effect of one that is absent, but for a
warning. If the operations are accepted, the threshold text has no effect at
all; the two never count together.
-/

namespace ByteRoutines

open Cpu (Features)
open Config (Overrides Assignment BulkRanges present? readSetting)

/-- The entry is a warning that a setting is ignored, and says why. -/
structure Log.Entry.Ignores (entry : Log.Entry) (setting : Log.Setting) (error : Config.Error) :
    Prop where
  level : entry.level = .warn
  message : entry.message = "ignoring override"
  fields : entry.fields = [("err", error.message), ("var", setting.variable)]

theorem Log.Entry.ignores_overrideIgnored (setting : Log.Setting) (error : Config.Error) :
    (overrideIgnored setting error).Ignores setting error := ⟨rfl, rfl, rfl⟩

namespace Dispatch

variable {features : Features} {operations operations' threshold threshold' : Option String}
  {text : String}

/-- The settings have an effect through the overrides that they are read as, and are reported
before anything else. -/
theorem configure_eq (features : Features) (operations threshold : Option String) :
    configure features operations threshold =
      ((new features (Overrides.ofValues operations threshold).1).1,
        (Overrides.ofValues operations threshold).2 ++
          (new features (Overrides.ofValues operations threshold).1).2) := rfl

theorem configure_congr
    (h : Overrides.ofValues operations threshold = Overrides.ofValues operations' threshold') :
    configure features operations threshold = configure features operations' threshold' := by
  rw [configure_eq, configure_eq, h]

/-- What is accepted for the operations leaves the threshold text out of consideration. -/
theorem configure_of_accepted {assignment : Assignment} (h : present? operations = some text)
    (hparse : Assignment.parse text = .ok assignment) (threshold threshold' : Option String) :
    configure features operations threshold = configure features operations threshold' := by
  apply configure_congr
  rw [Overrides.ofValues_of_accepted h hparse, Overrides.ofValues_of_accepted h hparse]

/-- The operations are refused. -/
theorem configure_of_refused_operations {error : Config.Error} (h : present? operations = some text)
    (hparse : Assignment.parse text = .error error) :
    configure features operations threshold = ((configure features none threshold).1,
      .overrideIgnored .operations error :: (configure features none threshold).2) := by
  have hread : readSetting .operations Assignment.parse operations =
      (none, [.overrideIgnored .operations error]) := Config.readSetting_of_refused h hparse
  rw [configure_eq, configure_eq, Overrides.ofValues_of_not_read (by rw [hread]),
    Overrides.ofValues_of_not_read rfl, hread]
  rfl

/-- The threshold text is refused, and nothing is asked for the operations. -/
theorem configure_of_refused_threshold {error : Config.Error}
    (hnone : (readSetting .operations Assignment.parse operations).1 = none)
    (h : present? threshold = some text) (hparse : BulkRanges.parse text = .error error) :
    ∃ before after, (configure features operations none).2 = before ++ after ∧
      configure features operations threshold = ((configure features operations none).1,
        before ++ .overrideIgnored .threshold error :: after) := by
  have hread : readSetting .threshold BulkRanges.parse threshold =
      (none, [.overrideIgnored .threshold error]) := Config.readSetting_of_refused h hparse
  refine ⟨(readSetting .operations Assignment.parse operations).2,
    (new features ⟨.empty, none⟩).2, ?_, ?_⟩
  · rw [configure_eq, Overrides.ofValues_of_not_read hnone, Config.readSetting_none,
      List.append_nil]
  · rw [configure_eq, configure_eq, Overrides.ofValues_of_not_read hnone,
      Overrides.ofValues_of_not_read hnone, hread, Config.readSetting_none, List.append_assoc]
    rfl

/-- The operations count only if they were accepted. -/
theorem not_read_of_not_hasOperations
    (h : (Overrides.ofValues operations threshold).1.hasOperations = false) :
    (readSetting .operations Assignment.parse operations).1 = none := by
  rcases Config.accepted_or_not_read .operations Assignment.parse operations with
    ⟨text, assignment, hpresent, hparse⟩ | hnone
  · rw [Overrides.ofValues_of_accepted hpresent hparse] at h
    exact absurd (Assignment.isActive_of_parse hparse) (Bool.eq_false_iff.mp h)
  · exact hnone

theorem configure_of_blank_operations {raw : String} (h : Text.Blank raw.toList) :
    configure features (some raw) threshold = configure features none threshold := by
  apply configure_congr
  rw [Overrides.ofValues, Overrides.ofValues, Config.readSetting_of_blank h]

theorem configure_of_blank_threshold {raw : String} (h : Text.Blank raw.toList) :
    configure features operations (some raw) = configure features operations none := by
  apply configure_congr
  rw [Overrides.ofValues, Overrides.ofValues, Config.readSetting_of_blank h]

/-- How far the effect of the two settings goes. Each of them is read without the blanks around
it. -/
structure ContainsErrors (features : Features) (operations threshold : Option String) : Prop where
  exclusive : ¬ ((configure features operations threshold).1.overrides.hasOperations = true ∧
    (configure features operations threshold).1.overrides.threshold.isSome = true)
  accepted : ∀ raw assignment, operations = some raw →
    Assignment.parse (String.ofList (Text.trim raw.toList)) = .ok assignment → ∀ threshold',
      configure features operations threshold = configure features operations threshold'
  operationsIgnored : ∀ raw error, operations = some raw → ¬ Text.Blank raw.toList →
    Assignment.parse (String.ofList (Text.trim raw.toList)) = .error error →
      ∃ entry : Log.Entry, entry.Ignores .operations error ∧
        configure features operations threshold = ((configure features none threshold).1,
          entry :: (configure features none threshold).2)
  thresholdIgnored : ∀ raw error,
    (configure features operations threshold).1.overrides.hasOperations = false →
      threshold = some raw → ¬ Text.Blank raw.toList →
        BulkRanges.parse (String.ofList (Text.trim raw.toList)) = .error error →
          ∃ (entry : Log.Entry) (before after : List Log.Entry), entry.Ignores .threshold error ∧
            (configure features operations none).2 = before ++ after ∧
            configure features operations threshold =
              ((configure features operations none).1, before ++ entry :: after)
  blankOperations : ∀ raw : String, Text.Blank raw.toList →
    configure features (some raw) threshold = configure features none threshold
  blankThreshold : ∀ raw : String, Text.Blank raw.toList →
    configure features operations (some raw) = configure features operations none

/-- **A setting that cannot be read has no effect but a warning**, and one that is overruled has
none at all: for every processor and any two settings, the decisions and the whole log are those
without it. -/
theorem configure_containsErrors (features : Features) (operations threshold : Option String) :
    ContainsErrors features operations threshold where
  exclusive := by
    rintro ⟨hoperations, hthreshold⟩
    have hnone := Overrides.threshold_eq_none_of_hasOperations hoperations
    rw [configure_eq] at hthreshold
    have hsome : (Overrides.ofValues operations threshold).1.threshold.isSome = true := hthreshold
    rw [hnone] at hsome
    cases hsome
  accepted raw assignment hraw hparse threshold' := by
    subst hraw
    have hpresent := Config.present?_eq_some (Assignment.not_blank_of_parse hparse)
    exact configure_of_accepted hpresent hparse threshold threshold'
  operationsIgnored raw error hraw hpresent hparse := by
    subst hraw
    refine ⟨_, Log.Entry.ignores_overrideIgnored .operations error, ?_⟩
    exact configure_of_refused_operations (Config.present?_eq_some hpresent) hparse
  thresholdIgnored raw error hinactive hraw hpresent hparse := by
    subst hraw
    obtain ⟨before, after, hlog, hconfigure⟩ := configure_of_refused_threshold
      (not_read_of_not_hasOperations hinactive) (Config.present?_eq_some hpresent) hparse
    exact ⟨_, before, after, Log.Entry.ignores_overrideIgnored .threshold error, hlog, hconfigure⟩
  blankOperations _ := configure_of_blank_operations
  blankThreshold _ := configure_of_blank_threshold

/-- A variant that does not exist is reported, as is a range that runs backwards. Where a variant is
asked for, nobody looks at the range. -/
theorem configure_containsErrors_baseline :
    (∃ entry : Log.Entry, entry.Ignores .operations (.unknownVariant "sse3") ∧
      configure .baseline (some " sse3") none =
        ((configure .baseline none none).1, entry :: (configure .baseline none none).2)) ∧
      (∃ entry before after, entry.Ignores .threshold (.unorderedThreshold "[2,1):[2,3):[3,-1)") ∧
        (configure .baseline none none).2 = before ++ after ∧
        configure .baseline none (some "[2,1):[2,3):[3,-1)") =
          ((configure .baseline none none).1, before ++ entry :: after)) ∧
      configure .baseline (some "memcpy:sse2") (some "[2,1):[2,3):[3,-1)") =
        configure .baseline (some "memcpy:sse2") none ∧
      configure .baseline (some " \t") none = configure .baseline none none := by
  refine ⟨?_, ?_, ?_, ?_⟩
  · exact (configure_containsErrors .baseline (some " sse3") none).operationsIgnored " sse3" _ rfl
      (by decide) rfl
  · exact (configure_containsErrors .baseline none (some "[2,1):[2,3):[3,-1)")).thresholdIgnored
      "[2,1):[2,3):[3,-1)" _ (by decide) rfl (by decide) rfl
  · exact (configure_containsErrors .baseline (some "memcpy:sse2")
      (some "[2,1):[2,3):[3,-1)")).accepted "memcpy:sse2" _ rfl rfl none
  · exact (configure_containsErrors .baseline none none).blankOperations " \t" (by decide)

end Dispatch

end ByteRoutines
