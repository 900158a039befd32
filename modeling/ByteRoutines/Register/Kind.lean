import ByteRoutines.Memory.Transfer

/-!
# Registers

The kernels are written once for registers of four kinds, which hold 8, 16,
32 or 64 bytes. Byte `i` of a register is the byte that a load took from `i`
bytes past its address.
-/

namespace ByteRoutines

inductive RegisterKind
  /-- A 64-bit word, used as eight lanes. -/
  | gpr
  | xmm
  | ymm
  /-- 64 bytes, with byte masks. -/
  | zmm
  deriving DecidableEq

namespace RegisterKind

/-- Bytes in a register: a power of two that divides the page size. -/
def width : RegisterKind → Nat
  | gpr => 8
  | xmm => 16
  | ymm => 32
  | zmm => 64

def blockSize (k : RegisterKind) : Nat := 4 * k.width

def blockSpans (k : RegisterKind) : List Span :=
  spansAt k.width [0, k.width, 2 * k.width, 3 * k.width]

/-- The bytes from an address to the next multiple of the register width. -/
def toBoundary (k : RegisterKind) (address : Nat) : Nat := k.width - address % k.width

theorem width_pos (k : RegisterKind) : 0 < k.width := by
  cases k <;> decide

theorem blockSize_pos (k : RegisterKind) : 0 < k.blockSize := by
  cases k <;> decide

theorem width_le (k : RegisterKind) : k.width ≤ 64 := by
  cases k <;> decide

end RegisterKind

abbrev Register (k : RegisterKind) := Bytes k.width

end ByteRoutines
