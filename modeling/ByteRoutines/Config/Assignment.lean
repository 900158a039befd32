import ByteRoutines.Variant
import ByteRoutines.Config.Error
import ByteRoutines.Text.Blank
import ByteRoutines.Text.Cut

/-!
# Assignments of variants to operations

An assignment asks for a variant for some of the operations. Its text is the
name of one variant, which is then asked for everywhere, or a list of
`operation:variant` entries separated by commas, in which a later entry wins
over an earlier one for the same operation.
-/

namespace ByteRoutines.Config

/-- The variant asked for, operation by operation. -/
abbrev Assignment := Operation → Option Variant

namespace Assignment

/-- Asks for nothing. -/
def empty : Assignment := fun _ => none

def uniform (variant : Variant) : Assignment := fun _ => some variant

/-- Asks for `variant` at `op`, and elsewhere for what was asked before. -/
def set (assignment : Assignment) (op : Operation) (variant : Variant) : Assignment :=
  fun other => if other = op then some variant else assignment other

/-- Something is asked for. -/
def isActive (assignment : Assignment) : Bool :=
  Operation.all.any fun op => (assignment op).isSome

@[simp] theorem set_self (assignment : Assignment) (op : Operation) (variant : Variant) :
    assignment.set op variant op = some variant := by
  simp [set]

theorem set_of_ne (assignment : Assignment) {op other : Operation} (variant : Variant)
    (h : other ≠ op) : assignment.set op variant other = assignment other := by
  simp [set, h]

theorem isActive_iff {assignment : Assignment} :
    assignment.isActive = true ↔ ∃ op, (assignment op).isSome = true := by
  simp [isActive, Operation.mem_all]

end Assignment

def readOperation (text : String) : Except Error Operation :=
  match Operation.ofName? text with
  | some op => .ok op
  | none => .error (.unknownOperation text)

def readVariant (text : String) : Except Error Variant :=
  match Variant.ofName? text with
  | some variant => .ok variant
  | none => .error (.unknownVariant text)

/-- Reads one `operation:variant` entry, the operation first. -/
def readEntry (entry : List Char) : Except Error (Operation × Variant) :=
  match Text.cutAt ':' entry with
  | none => .error (.malformedPair (String.ofList entry))
  | some (left, right) => do
    let op ← readOperation (String.ofList (Text.trim left))
    let variant ← readVariant (String.ofList (Text.trim right))
    return (op, variant)

/-- The entries of a list, without the blanks around them; blank ones are dropped. -/
def entries (text : List Char) : List (List Char) :=
  ((text.splitOn ',').map Text.trim).filter fun entry => !entry.isEmpty

namespace Assignment

/-- The assignment a list of entries makes, the last entry of an operation winning. -/
def ofEntries (list : List (Operation × Variant)) : Assignment :=
  list.foldl (fun assignment entry => assignment.set entry.1 entry.2) empty

def parse (raw : String) : Except Error Assignment :=
  if ':' ∈ raw.toList then do
    let list ← (entries raw.toList).mapM readEntry
    return ofEntries list
  else do
    let variant ← readVariant (String.ofList (Text.trim raw.toList))
    return uniform variant

end Assignment

end ByteRoutines.Config
