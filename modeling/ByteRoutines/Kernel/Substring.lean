import ByteRoutines.Kernel.Scan
import ByteRoutines.Kernel.Lockstep

/-!
# Finding a string in a string

The haystack is scanned like any string, for the first byte of the needle.
`cutCandidates` drops the positions that leave no room for the needle before
the terminator, `narrow` those at which the second or the last byte of the
needle is not in place, as far as the shifted registers stay in the page, and
`verify` compares what is left, in lockstep with the needle. A comparison
that meets the end of the haystack ends the search: nothing that starts later
can fit.
-/

namespace ByteRoutines.Kernel

/-- A needle of at least two bytes, with three of its bytes. -/
structure Needle where
  start : Pointer
  length : Nat
  first : UInt8
  second : UInt8
  last : UInt8

/-- What a part of the haystack says about the search. -/
inductive Verdict
  | occurs (p : Pointer)
  | absent
  | undecided
  deriving DecidableEq

/-- The candidates in a register that leave room for `length` bytes before the terminator;
`none` if that is nearer to the start of the register. -/
def cutCandidates (zeros candidates : Mask) (length : Nat) : Option Mask :=
  match Mask.firstSet? zeros with
  | none => some candidates
  | some t => if t < length then none else some (candidates &&& Mask.low (t - length + 1))

/-- Keeps the candidates at `p` that also have the second and the last byte of the needle in
place, where the registers that show it end in the page of `p`. -/
def narrow (k : RegisterKind) (needle : Needle) (p : Pointer) (candidates : Mask) :
    Exec Mask := do
  if candidates = 0 then return candidates
  else
    let room := roomInPage p.address
    let bySecond ←
      if k.width < room then
        let v ← k.load (p + 1)
        pure (candidates &&& k.eqMask v (k.splat needle.second))
      else pure candidates
    if needle.length - 1 + k.width ≤ room then
      let v ← k.load (p + (needle.length - 1))
      return bySecond &&& k.eqMask v (k.splat needle.last)
    else return bySecond

/-- Compares the needle with the candidates at `p`, lowest first. A mask has at most 64 of
them, and each takes one of `count` tries. -/
def verify (k : RegisterKind) (needle : Needle) (p : Pointer) (exhausted : Verdict) :
    (count : Nat) → Mask → Exec Verdict
  | 0, _ => pure exhausted
  | count + 1, candidates => do
    match Mask.firstSet? candidates with
    | none => return exhausted
    | some i =>
      match ← decisivePosition k (p + i) needle.start needle.length with
      | none => return .occurs (p + i)
      | some j =>
        let byte ← Exec.loadByte (p + i + j)
        if byte = 0 then return .absent
        else verify k needle p exhausted count (Mask.clearFirst candidates)

/-- Searches the first `valid` bytes of the register `v`, loaded from `p`. -/
def searchRegister (k : RegisterKind) (needle : Needle) (p : Pointer) (v : Register k)
    (valid : Nat) : Exec Verdict := do
  let zeros := k.zeroMask v &&& Mask.low valid
  let candidates := k.eqMask v (k.splat needle.first) &&& Mask.low valid
  match cutCandidates zeros candidates needle.length with
  | none => return .absent
  | some candidates =>
    let candidates ← narrow k needle p candidates
    verify k needle p (if zeros = 0 then .undecided else .absent) 64 candidates

/-- Searches on from offset `off`, where `haystack + off` is a multiple of the register width. -/
def searchFrom (k : RegisterKind) (needle : Needle) (haystack : Pointer) (off : Nat) :
    Exec (Option Pointer) :=
  if haystack.address + off < addressSpace then do
    let v ← k.loadAligned (haystack + off)
    match ← searchRegister k needle (haystack + off) v k.width with
    | .occurs p => return some p
    | .absent => return none
    | .undecided => searchFrom k needle haystack (off + k.width)
  else throw .addressSpaceEnd
termination_by addressSpace - (haystack.address + off)
decreasing_by
  have := k.width_pos
  omega

def searchNeedle (k : RegisterKind) (needle : Needle) (haystack : Pointer) :
    Exec (Option Pointer) := do
  let (v, valid) ← k.loadHead haystack
  match ← searchRegister k needle haystack v valid with
  | .occurs p => return some p
  | .absent => return none
  | .undecided => searchFrom k needle haystack (k.toBoundary haystack.address)

/-- Points at the first occurrence of the string `needle` in the string `haystack`. -/
def strstr (k : RegisterKind) (haystack needle : Pointer) : Exec (Option Pointer) := do
  let first ← Exec.loadByte needle
  if first = 0 then return some haystack
  else
    let start ← Exec.loadByte haystack
    if start = 0 then return none
    else
      let second ← Exec.loadByte (needle + 1)
      if second = 0 then strchr k haystack first
      else
        let length ← strlen k needle
        let last ← Exec.loadByte (needle + (length - 1))
        searchNeedle k ⟨needle, length, first, second, last⟩ haystack

end ByteRoutines.Kernel
