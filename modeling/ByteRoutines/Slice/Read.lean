import ByteRoutines.Slice.Basic

/-!
# Reading slices

The wrappers that only read: they take what they are given and refuse
nothing. A string is given by a pointer and ends at its terminator; a slice
may hold a terminator anywhere, or none.
-/

namespace ByteRoutines.Slice

/-- How far a pointer that was found lies from `start`. -/
def indexFrom (start : Pointer) : Option Pointer → Exec (Option Nat)
  | none => pure none
  | some p => do
    let i ← Exec.subSize p.address start.address
    return some i

/-- Compares two slices byte by byte; of two that agree as far as both go, the shorter is less. -/
def memcmp (table : RoutineTable) (s t : Slice) : Exec Int := do
  let difference ← table .memcmp s.start t.start (min s.length t.length)
  if difference ≠ 0 then return difference
  else if s.length < t.length then return -1
  else if s.length = t.length then return 0
  else return 1

def memchr (table : RoutineTable) (s : Slice) (byte : UInt8) : Exec (Option Nat) := do
  let found ← table.findIn s.start byte.toUInt32.toInt32 s.length
  indexFrom s.start found

/-- The number of bytes before the first zero, or in the slice if it holds none. -/
def stringLength (table : RoutineTable) (s : Slice) : Exec Nat := do
  let found ← memchr table s 0
  return found.getD s.length

/-- The byte at an index, 0 past the end. -/
def byteAt (s : Slice) (i : Nat) : Exec UInt8 :=
  if i < s.length then Exec.loadByte (s.start + i) else pure 0

/-- Compares at most `n` bytes of two strings, each of which ends at its terminator or at the end
of its slice. -/
def strncmp (table : RoutineTable) (s t : Slice) (n : Nat) : Exec Int := do
  let common := min (min n s.length) t.length
  let difference ← table .strncmp s.start t.start common
  if difference ≠ 0 ∨ common = n then return difference
  else
    match ← memchr table (s.take common) 0 with
    | some _ => return difference
    | none =>
      let a ← s.byteAt common
      let b ← t.byteAt common
      return (a.toNat : Int) - b.toNat

def strlen (table : RoutineTable) (s : Pointer) : Exec Nat := table .strlen s

def strcmp (table : RoutineTable) (s t : Pointer) : Exec Int := table .strcmp s t

/-- The index of the first occurrence of a byte in a string, whose terminator counts. -/
def strchr (table : RoutineTable) (s : Pointer) (byte : UInt8) : Exec (Option Nat) := do
  let found ← table.findInString s byte.toUInt32.toInt32
  indexFrom s found

def strstr (table : RoutineTable) (haystack needle : Pointer) : Exec (Option Nat) := do
  let found ← table .strstr haystack needle
  indexFrom haystack found

end ByteRoutines.Slice
