import ByteRoutines.Kernel.Bounded

/-!
# Scanning a string

A string is scanned for its terminator, or for a given byte as well, without
knowing where it ends. After the first register every load is aligned and so
stays in one page: single registers up to a boundary of four, and four at a
time from there on. A scan that finds nothing ends with the address space.
-/

namespace ByteRoutines.Kernel

inductive StopSet
  | terminator
  | terminatorOr (byte : UInt8)
  deriving DecidableEq

def StopSet.mask (k : RegisterKind) : StopSet → Register k → Mask
  | terminator, v => k.zeroMask v
  | terminatorOr byte, v => k.zeroMask v ||| k.eqMask v (k.splat byte)

/-- The bytes that end a scan in the aligned register at offset `off`. -/
def stopsAt (k : RegisterKind) (stop : StopSet) (s : Pointer) (off : Nat) : Exec Mask := do
  let v ← k.loadAligned (s + off)
  return stop.mask k v

/-- How many registers are loaded together at an address: four on a boundary of four. -/
def groupSize (k : RegisterKind) (address : Nat) : Nat :=
  if address % k.blockSize = 0 then 4 else 1

theorem groupSize_pos (k : RegisterKind) (address : Nat) : 0 < groupSize k address := by
  unfold groupSize
  split <;> omega

/-- Scans on from offset `off`, where `s + off` is a multiple of the register width. -/
def scanFrom (k : RegisterKind) (stop : StopSet) (s : Pointer) (off : Nat) : Exec Nat :=
  if s.address + off < addressSpace then do
    let masks ← masksFrom k (stopsAt k stop s) off (groupSize k (s.address + off))
    match Mask.firstHit? k.width masks with
    | some i => return off + i
    | none => scanFrom k stop s (off + groupSize k (s.address + off) * k.width)
  else throw .addressSpaceEnd
termination_by addressSpace - (s.address + off)
decreasing_by
  have := Nat.mul_pos (groupSize_pos k (s.address + off)) k.width_pos
  omega

def stopPosition (k : RegisterKind) (stop : StopSet) (s : Pointer) : Exec Nat := do
  let (v, valid) ← k.loadHead s
  match Mask.firstSet? (stop.mask k v &&& Mask.low valid) with
  | some i => return i
  | none => scanFrom k stop s (k.toBoundary s.address)

def strlen (k : RegisterKind) (s : Pointer) : Exec Nat := stopPosition k .terminator s

/-- Points at the first occurrence of a byte in a string, whose terminator counts as part
of it. -/
def strchr (k : RegisterKind) (s : Pointer) (byte : UInt8) : Exec (Option Pointer) := do
  let i ← stopPosition k (.terminatorOr byte) s
  let found ← Exec.loadByte (s + i)
  return if found = byte then some (s + i) else none

end ByteRoutines.Kernel
