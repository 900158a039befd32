import ByteRoutines.Memory.Pointer

/-!
# The machine

A machine is a memory and the list of what was done to it. A routine is a
computation in `Exec`: it reaches memory through `load` and `store` only, and
each of them leaves an event. A computation stops with a fault where it uses
an instruction outside its precondition, or runs off the end of the address
space.
-/

namespace ByteRoutines

/-- The kind of instruction an access is made by. -/
inductive Mode
  | plain
  /-- Needs an address that is a multiple of the size of the access. -/
  | aligned
  /-- Aligned, and past the cache. -/
  | streaming
  /-- A byte mask selects the bytes that are accessed. -/
  | masked
  | repeated
  deriving DecidableEq

def Mode.needsAlignment : Mode → Bool
  | .aligned | .streaming => true
  | _ => false

/-- Something done to memory. Neither a prefetch nor a fence accesses a byte. -/
inductive Event
  | load (mode : Mode) (p : Pointer) (length : Nat)
  | store (mode : Mode) (p : Pointer) (length : Nat)
  | prefetch (p : Pointer)
  | fence
  deriving DecidableEq

inductive Fault
  /-- An access that needs an aligned address has another one. -/
  | misaligned (p : Pointer) (length : Nat)
  /-- An instruction for a part of a register is given a length it does not serve. -/
  | lengthOutOfRange (length : Nat)
  /-- An unbounded scan has reached the last address. -/
  | addressSpaceEnd
  /-- A size leaves the range of 64-bit words. -/
  | sizeOverflow
  deriving DecidableEq

/-- A memory and what was done to it, the latest event first. -/
structure Machine where
  memory : Memory
  events : List Event

abbrev Exec := EStateM Fault Machine

namespace Exec

def requireAligned (mode : Mode) (p : Pointer) (length : Nat) : Exec Unit :=
  if mode.needsAlignment && p.address % length != 0 then throw (.misaligned p length) else pure ()

def requireLength (holds : Bool) (length : Nat) : Exec Unit :=
  if holds then pure () else throw (.lengthOutOfRange length)

def load (mode : Mode) (p : Pointer) (n : Nat) : Exec (Bytes n) := do
  requireAligned mode p n
  modifyGet fun s =>
    (s.memory.read p.address n, { s with events := .load mode p n :: s.events })

def store {n : Nat} (mode : Mode) (p : Pointer) (bytes : Bytes n) : Exec Unit := do
  requireAligned mode p n
  modify fun s =>
    { memory := s.memory.write p.address bytes.toList, events := .store mode p n :: s.events }

def loadByte (p : Pointer) : Exec UInt8 := do
  let byte ← load .plain p 1
  return byte[0]

def storeByte (p : Pointer) (byte : UInt8) : Exec Unit := store .plain p #v[byte]

/-- Asks for a line to be brought into the cache; the address need not be mapped. -/
def prefetch (p : Pointer) : Exec Unit :=
  modify fun s => { s with events := .prefetch p :: s.events }

/-- Orders the streaming stores so far before everything that follows. -/
def fence : Exec Unit := modify fun s => { s with events := .fence :: s.events }

end Exec

end ByteRoutines
