/-!
# Processor vendors

CPUID leaf 0 spells the vendor in twelve characters over three registers, in
the order EBX, EDX, ECX, the lowest byte of each register first.
-/

namespace ByteRoutines.Cpu

/-- The maker of a processor, as far as it matters here. -/
inductive Vendor
  | amd
  | intel
  | unknown
  deriving DecidableEq

/-- The four characters held in a register, lowest byte first. -/
def registerText (register : UInt32) : List Char :=
  [register, register >>> 8, register >>> 16, register >>> 24].map
    fun shifted => Char.ofNat shifted.toUInt8.toNat

/-- The vendor spelled by leaf 0. -/
def Vendor.ofLeaf0 (ebx ecx edx : UInt32) : Vendor :=
  let id := String.ofList (registerText ebx ++ registerText edx ++ registerText ecx)
  if id = "AuthenticAMD" then .amd
  else if id = "GenuineIntel" then .intel
  else .unknown

end ByteRoutines.Cpu
