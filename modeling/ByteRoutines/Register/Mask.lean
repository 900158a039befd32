/-!
# Masks

A comparison of registers answers with one bit per byte, byte 0 lowest. A
mask has 64 bits, as many as the widest register has bytes; the first hit is
its lowest set bit.
-/

namespace ByteRoutines

abbrev Mask := BitVec 64

namespace Mask

def low (length : Nat) : Mask :=
  if 64 ≤ length then BitVec.allOnes 64 else (1#64 <<< length) - 1#64

/-- The position of the lowest set bit, 64 if none is set. -/
def firstSet (m : Mask) : Nat := ((List.range 64).find? m.getLsbD).getD 64

/-- The position of the lowest set bit, if any is set. -/
def firstSet? (m : Mask) : Option Nat := if m = 0 then none else some (firstSet m)

def clearFirst (m : Mask) : Mask := m &&& (m - 1)

/-- The mask with the given bits, the first one lowest. -/
def ofBits : List Bool → Mask
  | [] => 0
  | bit :: rest => (ofBits rest <<< 1) ||| (if bit then 1#64 else 0#64)

/-- The first hit in consecutive registers of `width` bytes, each with its mask. -/
def firstHit? (width : Nat) : List Mask → Option Nat
  | [] => none
  | m :: rest => if m = 0 then (firstHit? width rest).map (width + ·) else some (firstSet m)

end Mask

end ByteRoutines
