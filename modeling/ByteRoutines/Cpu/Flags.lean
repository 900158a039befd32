/-!
# Instruction-set flags

The extensions that decide which kernels a processor can run. All but SSE2
are decoded from the three registers of CPUID leaf 7, subleaf 0.
-/

namespace ByteRoutines.Cpu

structure Flags where
  sse2 : Bool := false
  avx2 : Bool := false
  avx512f : Bool := false
  avx512bw : Bool := false
  /-- Enhanced string instructions: fast `rep movsb` and `rep stosb`. -/
  erms : Bool := false
  /-- Fast `rep movsb` also for short regions. -/
  fsrm : Bool := false
  movdiri : Bool := false
  vpclmulqdq : Bool := false
  rdpid : Bool := false
  rdseed : Bool := false
  deriving DecidableEq

def bit (register : UInt32) (n : Nat) : Bool := register.toBitVec.getLsbD n

/-- The flags that leaf 7 reports. It says nothing about SSE2. -/
def Flags.ofLeaf7 (ebx ecx edx : UInt32) : Flags where
  avx2 := bit ebx 5
  avx512f := bit ebx 16
  avx512bw := bit ebx 30
  erms := bit ebx 9
  fsrm := bit edx 4
  movdiri := bit ecx 27
  vpclmulqdq := bit ecx 10
  rdpid := bit ecx 22
  rdseed := bit ebx 18

end ByteRoutines.Cpu
