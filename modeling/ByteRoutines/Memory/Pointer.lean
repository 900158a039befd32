import ByteRoutines.Memory.Basic

/-!
# Pointers

A pointer is an address together with the argument of the routine that it was
derived from, so that a trace of accesses tells the operands apart. Memory is
mapped in pages of 4096 bytes: an access that stays within the page of a byte
that may be read cannot fail.
-/

namespace ByteRoutines

inductive Operand
  | first
  | second
  deriving DecidableEq

/-- An address derived from one of a routine's arguments. -/
structure Pointer where
  operand : Operand
  address : Nat
  deriving DecidableEq

namespace Pointer

/-- The pointer `n` bytes further on, derived from the same argument. -/
def advance (p : Pointer) (n : Nat) : Pointer := { p with address := p.address + n }

instance : HAdd Pointer Nat Pointer := ⟨advance⟩

@[simp] theorem address_add (p : Pointer) (n : Nat) : (p + n).address = p.address + n := rfl

@[simp] theorem operand_add (p : Pointer) (n : Nat) : (p + n).operand = p.operand := rfl

theorem add_add (p : Pointer) (m n : Nat) : p + m + n = p + (m + n) := by
  show Pointer.mk _ _ = Pointer.mk _ _
  simp only [operand_add, address_add, Nat.add_assoc]

end Pointer

/-- The smallest page; larger ones are multiples of it. -/
def pageSize : Nat := 4096

def roomInPage (a : Nat) : Nat := pageSize - a % pageSize

theorem roomInPage_pos (a : Nat) : 0 < roomInPage a := by
  simp only [roomInPage, pageSize]
  omega

/-- Bytes within the room of an address share its page. -/
theorem div_pageSize_of_lt_roomInPage {a i : Nat} (h : i < roomInPage a) :
    (a + i) / pageSize = a / pageSize := by
  simp only [roomInPage, pageSize] at *
  omega

end ByteRoutines
