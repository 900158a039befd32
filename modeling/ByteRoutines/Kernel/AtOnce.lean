import ByteRoutines.Register.Access

/-!
# Small regions

Regions of up to eight registers are written without a loop. `copyAtOnce`
loads the whole region before it stores anything, so source and destination
may overlap in any way. From one register on, `coverOffsets` says where the
registers go: from both ends inwards, where they overlap each other in the
middle.
-/

namespace ByteRoutines.Kernel

/-- Where registers cover `n` bytes, at least one register and at most eight. -/
def coverOffsets (width n : Nat) : List Nat :=
  if n ≤ 2 * width then [0, n - width]
  else if n ≤ 4 * width then [0, width, n - 2 * width, n - width]
  else
    [0, width, 2 * width, 3 * width,
     n - 4 * width, n - 3 * width, n - 2 * width, n - width]

def coverSpans (k : RegisterKind) (n : Nat) : List Span :=
  spansAt k.width (coverOffsets k.width n)

def copyAtOnce (k : RegisterKind) (dst src : Pointer) (n : Nat) : Exec Unit :=
  if n < k.width then k.copyShort dst src n
  else Exec.transfer .plain dst src (coverSpans k n)

def fillAtOnce (k : RegisterKind) (dst : Pointer) (value : UInt8) (n : Nat) : Exec Unit :=
  if n < k.width then k.setShort dst value n
  else Exec.fill .plain dst value (coverSpans k n)

end ByteRoutines.Kernel
