import ByteRoutines.Kernel.AtOnce
import ByteRoutines.Kernel.Regime

/-!
# Filling

A fill of up to eight registers is made at once. A larger one is left to a
string instruction, or stores the first block, runs over the middle in
aligned blocks, and stores the last block, which the loop may have reached
into.
-/

namespace ByteRoutines.Kernel

def repFill (dst : Pointer) (value : UInt8) : Nat → Exec Unit
  | 0 => pure ()
  | n + 1 => do
    Exec.fill .repeated dst value [⟨0, 1⟩]
    repFill (dst + 1) value n

/-- Fills blocks from offset `off` upwards, as long as they start below `stop`. -/
def fillBlocks (k : RegisterKind) (mode : Mode) (dst : Pointer) (value : UInt8)
    (off stop : Nat) : Exec Unit :=
  if off < stop then do
    Exec.fill mode (dst + off) value k.blockSpans
    fillBlocks k mode dst value (off + k.blockSize) stop
  else pure ()
termination_by stop - off
decreasing_by
  have := k.blockSize_pos
  omega

/-- Fills the aligned blocks between the first one and offset `stop`. -/
def fillMiddle (k : RegisterKind) (streaming : Bool) (dst : Pointer) (value : UInt8)
    (stop : Nat) : Exec Unit :=
  if streaming then do
    fillBlocks k .streaming dst value (alignedStart k dst.address) stop
    Exec.fence
  else fillBlocks k .aligned dst value (alignedStart k dst.address) stop

def fillBulk (k : RegisterKind) (policy : LoopPolicy) (dst : Pointer) (value : UInt8)
    (n : Nat) : Exec Unit :=
  if policy.repeats n then repFill dst value n
  else do
    let last := n - k.blockSize
    Exec.fill .plain dst value k.blockSpans
    fillMiddle k (policy.streams n) dst value last
    Exec.fill .plain (dst + last) value k.blockSpans

/-- Fills `n` bytes; answers the destination. -/
def memset (k : RegisterKind) (policy : LoopPolicy) (dst : Pointer) (value : UInt8)
    (n : Nat) : Exec Pointer := do
  if n ≤ 8 * k.width then fillAtOnce k dst value n
  else fillBulk k policy dst value n
  return dst

end ByteRoutines.Kernel
