import ByteRoutines.Dispatch
import ByteRoutines.Kernel.Copy
import ByteRoutines.Kernel.StringCopy
import ByteRoutines.Kernel.Substring

/-!
# Routine tables

A table holds one routine for each operation. Every variant has a table of
its own kernels; the table of a process takes each routine from the table of
the variant that the operation is bound to.
-/

namespace ByteRoutines

/-- The routine of an operation: what it takes, and what it answers. -/
@[reducible]
def Operation.Routine : Operation → Type
  | memcpy | mempcpy | memmove | strncpy | strncat => Pointer → Pointer → Nat → Exec Pointer
  | memset => Pointer → UInt8 → Nat → Exec Pointer
  | memcmp | strncmp => Pointer → Pointer → Nat → Exec Int
  | memchr => Pointer → UInt8 → Nat → Exec (Option Pointer)
  | strcpy | strcat => Pointer → Pointer → Exec Pointer
  | strcmp => Pointer → Pointer → Exec Int
  | strstr => Pointer → Pointer → Exec (Option Pointer)
  | strlen => Pointer → Exec Nat
  | strchr => Pointer → UInt8 → Exec (Option Pointer)

namespace Variant

def registers : Variant → RegisterKind
  | avx512 => .zmm
  | avx2 => .ymm
  | erms | sse2 => .xmm
  | portable => .gpr

def copyPolicy : Variant → Thresholds → LoopPolicy
  | erms, t => .forRepCopies t
  | _, t => .forCopies t

def fillPolicy : Variant → Thresholds → LoopPolicy
  | erms, t => .forRepFills t
  | _, t => .forFills t

def memcpy (variant : Variant) (t : Thresholds) : Operation.memcpy.Routine :=
  Kernel.memcpy variant.registers (variant.copyPolicy t)

def mempcpy (variant : Variant) (t : Thresholds) : Operation.mempcpy.Routine :=
  Kernel.mempcpy variant.registers (variant.copyPolicy t)

def memmove (variant : Variant) (t : Thresholds) : Operation.memmove.Routine :=
  Kernel.memmove variant.registers (variant.copyPolicy t)

def memset (variant : Variant) (t : Thresholds) : Operation.memset.Routine :=
  Kernel.memset variant.registers (variant.fillPolicy t)

end Variant

/-- A routine for each operation. -/
abbrev RoutineTable := (op : Operation) → op.Routine

namespace RoutineTable

/-- The table of a variant. Fills within string copies never use string instructions. -/
def ofVariant (variant : Variant) (t : Thresholds) : RoutineTable
  | .memcpy => variant.memcpy t
  | .mempcpy => variant.mempcpy t
  | .memmove => variant.memmove t
  | .memset => variant.memset t
  | .memcmp => Kernel.memcmp variant.registers
  | .memchr => Kernel.memchr variant.registers
  | .strcpy => Kernel.strcpy variant.registers
  | .strncpy => Kernel.strncpy variant.registers (.forFills t)
  | .strcat => Kernel.strcat variant.registers
  | .strncat => Kernel.strncat variant.registers
  | .strcmp => Kernel.strcmp variant.registers
  | .strncmp => Kernel.strncmp variant.registers
  | .strstr => Kernel.strstr variant.registers
  | .strlen => Kernel.strlen variant.registers
  | .strchr => Kernel.strchr variant.registers

end RoutineTable

def Dispatch.table (dispatch : Dispatch) : RoutineTable :=
  fun op => RoutineTable.ofVariant (dispatch.bindings op) dispatch.thresholds op

end ByteRoutines
