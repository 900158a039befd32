import ByteRoutines.Operation
import ByteRoutines.Cpu.Features

/-!
# Variants

A variant is one set of kernels, written for one generation of the
instruction set. `bestVariant` gives the variant an operation is bound to when
nobody asks for another: the first one, widest first, that the processor
supports and that has kernels of its own for the operation.
-/

namespace ByteRoutines

open Cpu (Features)

/-- A set of kernels for one instruction-set generation. -/
inductive Variant
  /-- 64-byte registers with byte masks. -/
  | avx512
  | avx2
  /-- 16-byte registers, and string instructions for bulk copies and fills. -/
  | erms
  | sse2
  /-- 8-byte words, on any processor. -/
  | portable
  deriving DecidableEq

namespace Variant

def all : List Variant := [avx512, avx2, erms, sse2, portable]

def name : Variant → String
  | avx512 => "avx512"
  | avx2 => "avx2"
  | erms => "erms"
  | sse2 => "sse2"
  | portable => "portable"

def width : Variant → Nat
  | avx512 => 64
  | avx2 => 32
  | erms | sse2 => 16
  | portable => 8

def supportedBy (features : Features) : Variant → Bool
  | avx512 => features.hasAvx512
  | avx2 => features.flags.avx2
  | erms => features.hasFastRep && features.flags.sse2
  | sse2 => features.flags.sse2
  | portable => true

/-- The variant has a kernel of its own for the operation. -/
def serves (variant : Variant) (op : Operation) : Bool :=
  variant != erms || op.family == .copySet

/-- The variant with this exact name. -/
def ofName? (text : String) : Option Variant :=
  all.find? fun variant => variant.name == text

/-- The variants of a family that are tried, best first. -/
def ladder : Family → List Variant
  | .copySet => [avx512, avx2, erms, sse2, portable]
  | .scan => [avx512, avx2, sse2, portable]

theorem mem_all (variant : Variant) : variant ∈ all := by
  cases variant <;> decide

theorem ofName?_name (variant : Variant) : ofName? variant.name = some variant := by
  cases variant <;> decide

end Variant

/-- The first variant on the operation's ladder that the processor supports. -/
def bestVariant (features : Features) (op : Operation) : Variant :=
  ((Variant.ladder op.family).find? (Variant.supportedBy features)).getD .portable

end ByteRoutines
