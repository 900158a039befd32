import ByteRoutines.Log

/-!
# Overrides

What the two settings ask for. A text that cannot be read is reported and
dropped, and a threshold text is not looked at while an operation is
overridden.
-/

namespace ByteRoutines.Config

structure Overrides where
  operations : Assignment
  threshold : Option BulkRanges

/-- A text without the blanks around it, if anything is left. -/
def present? (raw : Option String) : Option String :=
  match raw with
  | none => none
  | some text =>
    let trimmed := Text.trim text.toList
    if trimmed.isEmpty then none else some (String.ofList trimmed)

/-- Reads a setting with `parse`; what is read, and what is reported about it. -/
def readSetting {α : Type} (setting : Log.Setting) (parse : String → Except Error α)
    (raw : Option String) : Option α × List Log.Entry :=
  match present? raw with
  | none => (none, [])
  | some text =>
    match parse text with
    | .ok value => (some value, [.overrideActive setting text])
    | .error error => (none, [.overrideIgnored setting error])

namespace Overrides

/-- Asks for nothing. -/
def empty : Overrides where
  operations := .empty
  threshold := none

def hasOperations (overrides : Overrides) : Bool := overrides.operations.isActive

def setOperation (overrides : Overrides) (op : Operation) (variant : Variant) : Overrides :=
  { overrides with operations := overrides.operations.set op variant }

/-- Asks for each entry of a list in turn. -/
def setAll (overrides : Overrides) (list : List (Operation × Variant)) : Overrides :=
  list.foldl (fun current entry => current.setOperation entry.1 entry.2) overrides

/-- The overrides that two raw texts ask for, and what is reported on the way. -/
def ofValues (operations threshold : Option String) : Overrides × List Log.Entry :=
  let (assignment?, log) := readSetting .operations Assignment.parse operations
  let assignment := assignment?.getD .empty
  if assignment.isActive then
    (⟨assignment, none⟩, log)
  else
    let (ranges?, more) := readSetting .threshold BulkRanges.parse threshold
    (⟨assignment, ranges?⟩, log ++ more)

end Overrides

end ByteRoutines.Config
