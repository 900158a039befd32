import ByteRoutines.Register.Access
import ByteRoutines.Register.Compare

/-!
# Searching a region

Comparing two regions of `n` bytes and finding a byte in one are the same
search, for the first hit of a mask. `firstHitFrom` takes the mask as a
function of the offset and goes four registers at a time, then one at a time,
and at last looks at the register that ends with the region; what that one
shares with the registers before it held no hit.

A region shorter than a register is loaded in a whole register where the page
allows it. What lies beyond its end is masked out.
-/

namespace ByteRoutines.Kernel

/-- One mask for each of `count` consecutive registers from offset `off` on, all of them loaded
before any is looked at. -/
def masksFrom (k : RegisterKind) (maskAt : Nat → Exec Mask) (off : Nat) : Nat → Exec (List Mask)
  | 0 => pure []
  | count + 1 => do
    let m ← maskAt off
    let rest ← masksFrom k maskAt (off + k.width) count
    return m :: rest

/-- The first hit from offset `off` on in a region of `n` bytes, at least a register; no byte
below `off` is a hit. -/
def firstHitFrom (k : RegisterKind) (maskAt : Nat → Exec Mask) (n off : Nat) :
    Exec (Option Nat) := do
  if off + k.blockSize ≤ n then
    let masks ← masksFrom k maskAt off 4
    match Mask.firstHit? k.width masks with
    | some i => return some (off + i)
    | none => firstHitFrom k maskAt n (off + k.blockSize)
  else if off + k.width ≤ n then
    let m ← maskAt off
    match Mask.firstSet? m with
    | some i => return some (off + i)
    | none => firstHitFrom k maskAt n (off + k.width)
  else if off < n then
    let m ← maskAt (n - k.width)
    return (Mask.firstSet? m).map (n - k.width + ·)
  else return none
termination_by n - off
decreasing_by
  all_goals
    have := k.width_pos
    have := k.blockSize_pos
    omega

def differencesAt (k : RegisterKind) (a b : Pointer) (off : Nat) : Exec Mask := do
  let va ← k.load (a + off)
  let vb ← k.load (b + off)
  return k.neMask va vb

/-- The bytes of the register at offset `off` that agree with `target`. -/
def matchesAt (k : RegisterKind) (s : Pointer) (target : Register k) (off : Nat) : Exec Mask := do
  let v ← k.load (s + off)
  return k.eqMask v target

/-- Where two regions of `n` bytes, fewer than a register holds, first differ. -/
def shortDifference (k : RegisterKind) (a b : Pointer) (n : Nat) : Exec (Option Nat) := do
  if n = 0 then return none
  else if k.width ≤ roomInPage a.address && k.width ≤ roomInPage b.address then
    let m ← differencesAt k a b 0
    return Mask.firstSet? (m &&& Mask.low n)
  else
    let va ← k.loadPartial a n
    let vb ← k.loadPartial b n
    return Mask.firstSet? (k.neMask va vb &&& Mask.low n)

def differencePosition (k : RegisterKind) (a b : Pointer) (n : Nat) : Exec (Option Nat) := do
  if n < k.width then shortDifference k a b n
  else if n ≤ 2 * k.width then
    let m ← differencesAt k a b 0
    match Mask.firstSet? m with
    | some i => return some i
    | none =>
      let m ← differencesAt k a b (n - k.width)
      return (Mask.firstSet? m).map (n - k.width + ·)
  else firstHitFrom k (differencesAt k a b) n 0

/-- The difference of the bytes at position `i`, as numbers from 0 to 255. -/
def byteDifference (a b : Pointer) (i : Nat) : Exec Int := do
  let x ← Exec.loadByte (a + i)
  let y ← Exec.loadByte (b + i)
  return (x.toNat : Int) - y.toNat

/-- Compares two regions of `n` bytes: the difference of the first bytes that differ, else 0. -/
def memcmp (k : RegisterKind) (a b : Pointer) (n : Nat) : Exec Int := do
  match ← differencePosition k a b n with
  | some i => byteDifference a b i
  | none => return 0

/-- Where a region of `n` bytes, fewer than a register holds, first agrees with `target`. -/
def shortMatch (k : RegisterKind) (s : Pointer) (target : Register k) (n : Nat) :
    Exec (Option Nat) := do
  if n = 0 then return none
  else
    let v ← if k.width ≤ roomInPage s.address then k.load s else k.loadPartial s n
    return Mask.firstSet? (k.eqMask v target &&& Mask.low n)

def bytePosition (k : RegisterKind) (s : Pointer) (byte : UInt8) (n : Nat) :
    Exec (Option Nat) :=
  let target := k.splat byte
  if n < k.width then shortMatch k s target n else firstHitFrom k (matchesAt k s target) n 0

/-- Points at the first occurrence of a byte in a region of `n` bytes. -/
def memchr (k : RegisterKind) (s : Pointer) (byte : UInt8) (n : Nat) :
    Exec (Option Pointer) := do
  let found ← bytePosition k s byte n
  return found.map (s + ·)

end ByteRoutines.Kernel
