import ByteRoutines.Routine.Entry
import ByteRoutines.Proofs.Kernel.Fill

/-!
# Filling

What callers may rely on: a fill ends with the region holding one byte
throughout and no other byte of memory changed (`Fills`), whatever the width,
the policy, the thresholds and the alignment (`memset_fills`). So the
breakpoints choose between loops that cannot be told apart by what they leave.
-/

namespace ByteRoutines

open Exec Kernel

/-- Run from `s`, `x` answers `dst`; the `n` bytes there then all have this value, and every other
byte is as it was. -/
def Fills (x : Exec Pointer) (s : Machine) (dst : Pointer) (n : Nat) (value : UInt8) : Prop :=
  Writes x s dst dst.address n fun _ => value

/-- A fill that nobody watches may do anything. -/
theorem mayFill_anything (dst : Pointer) (n : Nat) : MayFill (fun _ => True) dst n where
  store _ _ _ _ := trivial
  fence := trivial

/-- **A fill gives every byte of its region the value, and changes no other**, in every width, for
every policy, and with every variant's kernel for all thresholds. Of a C `int` the entry point
takes the residue modulo 256. -/
theorem memset_fills (s : Machine) (dst : Pointer) (n : Nat) :
    (∀ k policy value, Fills (Kernel.memset k policy dst value n) s dst n value) ∧
      (∀ variant t value,
        Fills (RoutineTable.ofVariant variant t .memset dst value n) s dst n value) ∧
      ∀ (dispatch : Dispatch) (c : Int32), ∃ value : UInt8,
        (value.toNat : Int) = c.toInt % 256 ∧
          Fills (dispatch.table.fillWith dst c n) s dst n value := by
  have hkernel : ∀ k policy value, Fills (Kernel.memset k policy dst value n) s dst n value :=
    fun k policy value => (ends_memset (mayFill_anything dst n)).writes
  have htable : ∀ variant t value,
      Fills (RoutineTable.ofVariant variant t .memset dst value n) s dst n value :=
    fun variant t => hkernel variant.registers (variant.fillPolicy t)
  refine ⟨hkernel, htable, fun dispatch c => ⟨lowByte c, toNat_lowByte c, ?_⟩⟩
  exact htable (dispatch.bindings .memset) dispatch.thresholds (lowByte c)

end ByteRoutines
