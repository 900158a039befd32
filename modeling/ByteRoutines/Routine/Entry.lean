import ByteRoutines.Routine.Binding

/-!
# Entry points

Callers pass a byte as a C `int`, of which the low byte counts. The three
operations that take one convert it here; the other entry points are the
routines of the table.
-/

namespace ByteRoutines

/-- The low byte of a C `int`. -/
def lowByte (c : Int32) : UInt8 := c.toUInt32.toUInt8

namespace RoutineTable

def fillWith (table : RoutineTable) (dst : Pointer) (c : Int32) (n : Nat) : Exec Pointer :=
  table .memset dst (lowByte c) n

def findIn (table : RoutineTable) (s : Pointer) (c : Int32) (n : Nat) :
    Exec (Option Pointer) :=
  table .memchr s (lowByte c) n

def findInString (table : RoutineTable) (s : Pointer) (c : Int32) : Exec (Option Pointer) :=
  table .strchr s (lowByte c)

end RoutineTable

theorem toNat_lowByte (c : Int32) : ((lowByte c).toNat : Int) = c.toInt % 256 := by
  have h : c.toUInt32.toNat = c.toBitVec.toNat := rfl
  rw [lowByte, UInt32.toNat_toUInt8, h, Int32.toInt, BitVec.toInt_eq_toNat_bmod]
  simp only [Int.bmod]
  split <;> omega

theorem eq_lowByte_iff (byte : UInt8) (c : Int32) :
    byte = lowByte c ↔ (byte.toNat : Int) = c.toInt % 256 := by
  rw [← toNat_lowByte, Int.natCast_inj, UInt8.toNat_inj]

end ByteRoutines
