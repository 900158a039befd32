import ByteRoutines.Cpu.Vendor
import ByteRoutines.Cpu.Flags
import ByteRoutines.Cpu.Cache

/-!
# Processor features

What the choice of kernels and of breakpoints needs to know about a processor.
-/

namespace ByteRoutines.Cpu

/-- A processor: its vendor, its extensions and its caches. -/
structure Features where
  vendor : Vendor
  flags : Flags
  cache : CacheSizes
  deriving DecidableEq

namespace Features

def baseline : Features where
  vendor := .unknown
  flags := {}
  cache := .standard

/-- Byte-masked 64-byte registers are there. -/
def hasAvx512 (features : Features) : Bool :=
  features.flags.avx512f && features.flags.avx512bw

/-- String instructions are worth using on bulk sizes. -/
def hasFastRep (features : Features) : Bool :=
  features.flags.erms || features.flags.fsrm

/-- Bytes in the widest register that can be used. -/
def vectorWidth (features : Features) : Nat :=
  if features.hasAvx512 then 64
  else if features.flags.avx2 then 32
  else if features.flags.sse2 then 16
  else 8

end Features

end ByteRoutines.Cpu
