import ByteRoutines.Kernel.Fill
import ByteRoutines.Kernel.Scan
import ByteRoutines.Kernel.Lockstep

/-!
# Copying strings

A string is copied register by register. Each register of the source is
searched for the terminator before it is stored, and the one that holds it is
stored up to it and no further. After the first register the source is loaded
aligned, so it is not read beyond the page in which it ends.
-/

namespace ByteRoutines.Kernel

/-- Copies on from offset `off`, below `n`, where `src + off` is a multiple of the register
width; answers how many bytes before the terminator were copied in all. -/
def copyStringFrom (k : RegisterKind) (dst src : Pointer) (n off : Nat) : Exec Nat := do
  let v ← k.loadAligned (src + off)
  let left := n - off
  match Mask.firstSet? (k.zeroMask v &&& Mask.low (min k.width left)) with
  | some i =>
    k.storePrefix (dst + off) v (i + 1)
    return off + i
  | none =>
    if left ≤ k.width then
      k.storePrefix (dst + off) v left
      return n
    else
      k.store (dst + off) v
      copyStringFrom k dst src n (off + k.width)
termination_by n - off
decreasing_by
  have := k.width_pos
  omega

/-- Copies at most `n` bytes of a string, its terminator if that is among them; answers how many
bytes before the terminator were copied. -/
def copyString (k : RegisterKind) (dst src : Pointer) (n : Nat) : Exec Nat := do
  if n = 0 then return 0
  else
    let (v, valid) ← k.loadHead src
    let limit := min valid n
    match Mask.firstSet? (k.zeroMask v &&& Mask.low limit) with
    | some i =>
      k.storePrefix dst v (i + 1)
      return i
    | none =>
      k.storePrefix dst v limit
      if n ≤ valid then return n
      else copyStringFrom k dst src n (k.toBoundary src.address)

/-- Copies a string with its terminator; answers the destination. -/
def strcpy (k : RegisterKind) (dst src : Pointer) : Exec Pointer := do
  let _ ← copyString k dst src maxLength
  return dst

/-- Copies at most `n` bytes of a string and fills up to `n` with zeros; answers the
destination. -/
def strncpy (k : RegisterKind) (policy : LoopPolicy) (dst src : Pointer) (n : Nat) :
    Exec Pointer := do
  let copied ← copyString k dst src n
  if copied < n then
    let _ ← memset k policy (dst + copied) 0 (n - copied)
  return dst

/-- Appends a string to the one at `dst`; answers the destination. -/
def strcat (k : RegisterKind) (dst src : Pointer) : Exec Pointer := do
  let length ← strlen k dst
  let _ ← copyString k (dst + length) src maxLength
  return dst

/-- Appends at most `n` bytes of a string to the one at `dst`, and a terminator; answers the
destination. -/
def strncat (k : RegisterKind) (dst src : Pointer) (n : Nat) : Exec Pointer := do
  let length ← strlen k dst
  let copied ← copyString k (dst + length) src n
  Exec.storeByte (dst + length + copied) 0
  return dst

end ByteRoutines.Kernel
