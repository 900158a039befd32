import ByteRoutines.Routine.Entry

/-!
# Slices

A slice is a region that its owner may use as a whole. The wrappers on slices
check that a result fits before they call a routine, and refuse otherwise;
a refused call has changed nothing. Sizes are computed in 64-bit words, and a
computation that leaves their range is a fault.
-/

namespace ByteRoutines

structure Slice where
  start : Pointer
  length : Nat

namespace Slice

def take (s : Slice) (n : Nat) : Slice := { s with length := min n s.length }

end Slice

/-- Why a wrapper refuses a call. -/
inductive Refusal
  /-- The source of a plain copy is longer than the destination. -/
  | sourceTooLong (holds source : Nat)
  /-- The source of a move is no range within the buffer. -/
  | sourceRange
  /-- The moved bytes would not fit in the buffer. -/
  | destinationRange
  /-- The result of an operation on strings does not fit. -/
  | tooShort (op : Operation) (holds need : Nat)
  /-- What should be appended to is no string. -/
  | unterminated (op : Operation)
  deriving DecidableEq

namespace Refusal

def message : Refusal → String
  | sourceTooLong holds source =>
    "memcpy: destination holds " ++ toString holds ++ " bytes, source " ++ toString source
  | sourceRange => "memmove: source range out of bounds"
  | destinationRange => "memmove: destination out of bounds"
  | tooShort op holds need =>
    op.name ++ ": destination holds " ++ toString holds ++ " bytes, need " ++ toString need
  | unterminated op => op.name ++ ": destination is not terminated"

end Refusal

/-- A computation that may be refused. -/
abbrev Checked := ExceptT Refusal Exec

namespace Exec

def addSize (a b : Nat) : Exec Nat :=
  if a + b < addressSpace then pure (a + b) else throw .sizeOverflow

def subSize (a b : Nat) : Exec Nat := if b ≤ a then pure (a - b) else throw .sizeOverflow

end Exec

end ByteRoutines
