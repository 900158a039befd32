import ByteRoutines.Slice.Read

/-!
# Writing to slices

The wrappers that write to a slice. Each one finds out how long the result
will be, and refuses before it writes anything if the slice is too short for
it. A source with a bound is a slice as well, and its end counts as a
terminator.
-/

namespace ByteRoutines.Slice

/-- Copies a slice to the front of another; answers its length. -/
def memcpy (table : RoutineTable) (dest src : Slice) : Checked Nat := do
  if dest.length < src.length then throw (.sourceTooLong dest.length src.length)
  let _ ← table .memcpy dest.start src.start src.length
  return src.length

/-- Copies the bytes from `start` up to `stop` of a buffer to position `dest` of the same buffer;
answers how many they are. -/
def memmove (table : RoutineTable) (buffer : Slice) (start stop dest : Nat) : Checked Nat := do
  if ¬ (start ≤ stop ∧ stop ≤ buffer.length) then throw .sourceRange
  let n ← Exec.subSize stop start
  let room ← Exec.subSize buffer.length n
  if room < dest then throw .destinationRange
  let _ ← table .memmove (buffer.start + dest) (buffer.start + start) n
  return n

/-- Fills a slice; answers its length. -/
def memset (table : RoutineTable) (dest : Slice) (byte : UInt8) : Exec Nat := do
  let _ ← table.fillWith dest.start byte.toUInt32.toInt32 dest.length
  return dest.length

/-- Copies a string with its terminator; answers its length. -/
def strcpy (table : RoutineTable) (dest : Slice) (src : Pointer) : Checked Nat := do
  let length ← strlen table src
  if dest.length ≤ length then
    let need ← Exec.addSize length 1
    throw (.tooShort .strcpy dest.length need)
  let _ ← table .strcpy dest.start src
  return length

/-- Copies at most `n` bytes of a string and fills the destination up to `n` with zeros; answers
how many bytes were copied. -/
def strncpy (table : RoutineTable) (dest src : Slice) (n : Nat) : Checked Nat := do
  if dest.length < n then throw (.tooShort .strncpy dest.length n)
  let bound := min n src.length
  let _ ← table .strncpy dest.start src.start bound
  if bound < n then
    let rest ← Exec.subSize n bound
    let _ ← table.fillWith (dest.start + bound) 0 rest
  stringLength table (src.take bound)

/-- The length of a string of `length` bytes with `added` bytes behind it, refused unless `dest`
also has room for a terminator. -/
def requireRoom (op : Operation) (dest : Slice) (length added : Nat) : Checked Nat := do
  let total ← Exec.addSize length added
  if dest.length ≤ total then
    let need ← Exec.addSize total 1
    throw (.tooShort op dest.length need)
  return total

/-- Appends a string to the one in `dest`; answers the new length. -/
def strcat (table : RoutineTable) (dest : Slice) (src : Pointer) : Checked Nat := do
  match ← memchr table dest 0 with
  | none => throw (.unterminated .strcat)
  | some length =>
    let added ← strlen table src
    let total ← requireRoom .strcat dest length added
    let _ ← table .strcat dest.start src
    return total

/-- Appends at most `n` bytes of a string to the one in `dest`, and a terminator; answers the new
length. -/
def strncat (table : RoutineTable) (dest src : Slice) (n : Nat) : Checked Nat := do
  match ← memchr table dest 0 with
  | none => throw (.unterminated .strncat)
  | some length =>
    let bound := min n src.length
    let added ← stringLength table (src.take bound)
    let total ← requireRoom .strncat dest length added
    let _ ← table .strncat dest.start src.start bound
    return total

end ByteRoutines.Slice
