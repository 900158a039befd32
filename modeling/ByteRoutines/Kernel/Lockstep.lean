import ByteRoutines.Kernel.Bounded

/-!
# Two strings in lockstep

A comparison of strings is decided at the first position where the first
string ends or the two differ. They are walked over together up to there.

After a head that brings the first string to a multiple of the register
width, its loads are aligned. The second one is loaded aligned where it is
equally misaligned, and unaligned elsewhere. A register of it that would run
into another page is split there, and what lies past the boundary is read
only when nothing before it was decisive; so neither string is read beyond
the page in which the comparison is decided.
-/

namespace ByteRoutines.Kernel

/-- The positions below `length` that decide: `va` ends there or differs from `vb`. -/
def decisiveMask (k : RegisterKind) (va vb : Register k) (length : Nat) : Mask :=
  (k.zeroMask va ||| k.neMask va vb) &&& Mask.low length

/-- The decisive positions from `done` on, read in parts that end with a page of either
string. Only the first part that holds any is looked at. -/
def decideInParts (k : RegisterKind) (a b : Pointer) (length done : Nat) : Exec Mask := do
  if done < length then
    let step := min (min (length - done) (roomInPage (a.address + done)))
      (roomInPage (b.address + done))
    let va ← k.loadPartial (a + done) step
    let vb ← k.loadPartial (b + done) step
    let m := decisiveMask k va vb step
    if m ≠ 0 then return m <<< done else decideInParts k a b length (done + step)
  else return 0
termination_by length - done
decreasing_by
  have := roomInPage_pos (a.address + done)
  have := roomInPage_pos (b.address + done)
  omega

/-- The decisive positions among the first `length` bytes, at most a register, at any two
addresses. -/
def decideChunk (k : RegisterKind) (a b : Pointer) (length : Nat) : Exec Mask := do
  if k.width ≤ roomInPage a.address && k.width ≤ roomInPage b.address then
    let va ← k.load a
    let vb ← k.load b
    return decisiveMask k va vb length
  else decideInParts k a b length 0

/-- The decisive positions among the first `length` bytes, where the first string is aligned,
and the second one too if they are `congruent`. -/
def decideAligned (k : RegisterKind) (congruent : Bool) (a b : Pointer) (length : Nat) :
    Exec Mask := do
  if congruent then
    let va ← k.loadAligned a
    let vb ← k.loadAligned b
    return decisiveMask k va vb length
  else if k.width ≤ roomInPage b.address then
    let va ← k.loadAligned a
    let vb ← k.load b
    return decisiveMask k va vb length
  else decideChunk k a b length

/-- The first decisive position below `n` from offset `off` on, where the first string is
aligned. -/
def decideFrom (k : RegisterKind) (congruent : Bool) (a b : Pointer) (n off : Nat) :
    Exec (Option Nat) := do
  if off < n then
    let m ← decideAligned k congruent (a + off) (b + off) (min k.width (n - off))
    match Mask.firstSet? m with
    | some i => return some (off + i)
    | none => decideFrom k congruent a b n (off + k.width)
  else return none
termination_by n - off
decreasing_by
  have := k.width_pos
  omega

/-- The first position below `n` at which the first string ends or differs from the second. -/
def decisivePosition (k : RegisterKind) (a b : Pointer) (n : Nat) : Exec (Option Nat) := do
  if n = 0 then return none
  else
    let head := k.toBoundary a.address
    let congruent := a.address % k.width = b.address % k.width
    if head < k.width then
      let m ← decideChunk k a b (min head n)
      match Mask.firstSet? m with
      | some i => return some i
      | none => decideFrom k congruent a b n head
    else decideFrom k congruent a b n 0

/-- The bound of a comparison or a copy that has none: the largest 64-bit number. -/
def maxLength : Nat := addressSpace - 1

/-- Compares at most `n` bytes of two strings: the difference of the first bytes that differ, up
to the terminator, else 0. -/
def strncmp (k : RegisterKind) (a b : Pointer) (n : Nat) : Exec Int := do
  match ← decisivePosition k a b n with
  | some i => byteDifference a b i
  | none => return 0

def strcmp (k : RegisterKind) (a b : Pointer) : Exec Int := strncmp k a b maxLength

end ByteRoutines.Kernel
