import ByteRoutines.Register.Kind
import ByteRoutines.Register.Swar

/-!
# Comparing registers

A register of equal bytes, and the masks of the bytes that are zero, that
agree and that differ. A word register compares by arithmetic on the word;
the wider kinds have an instruction that compares byte by byte.
-/

namespace ByteRoutines.RegisterKind

def splat (k : RegisterKind) (byte : UInt8) : Register k := Vector.replicate k.width byte

def zeroMask : (k : RegisterKind) → Register k → Mask
  | .gpr, v => Swar.zeroMask (Swar.pack v)
  | _, v => Mask.ofBits (v.toList.map fun byte => byte == 0)

def eqMask : (k : RegisterKind) → Register k → Register k → Mask
  | .gpr, a, b => Swar.eqMask (Swar.pack a) (Swar.pack b)
  | _, a, b => Mask.ofBits (List.zipWith (fun x y => x == y) a.toList b.toList)

/-- The bytes in which two registers differ. Only the widest kind has an instruction for it. -/
def neMask : (k : RegisterKind) → Register k → Register k → Mask
  | .zmm, a, b => Mask.ofBits (List.zipWith (fun x y => x != y) a.toList b.toList)
  | k, a, b => ~~~k.eqMask a b &&& Mask.low k.width

end ByteRoutines.RegisterKind
