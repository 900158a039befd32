import ByteRoutines.Kernel.AtOnce
import ByteRoutines.Kernel.Regime

/-!
# Copying

A copy of up to eight registers is made at once. A larger one is left to a
string instruction, or runs over blocks of four registers with aligned
stores. The blocks at both ends are loaded before the loop and stored after
it: the loop starts at an aligned address and may run into the last block.

Upwards, each block is loaded before it is stored, so a destination below the
source does no harm; downwards, neither does one above it. The breakpoints of
a policy choose the loop, and never the result.
-/

namespace ByteRoutines.Kernel

/-- Copies byte by byte, lowest address first, as `rep movsb` does. -/
def repCopy (dst src : Pointer) : Nat → Exec Unit
  | 0 => pure ()
  | n + 1 => do
    Exec.transfer .repeated dst src [⟨0, 1⟩]
    repCopy (dst + 1) (src + 1) n

/-- How many blocks ahead of the loop is prefetched. -/
def prefetchBlocks : Nat := 4

/-- Copies blocks from offset `off` upwards, as long as they start below `stop`. -/
def copyBlocksUp (k : RegisterKind) (regime : CopyRegime) (dst src : Pointer)
    (off stop : Nat) : Exec Unit :=
  if off < stop then do
    if regime.prefetches then Exec.prefetch (src + (off + prefetchBlocks * k.blockSize))
    let block ← Exec.gather regime.loadMode (src + off) k.blockSpans
    Exec.scatter regime.storeMode (dst + off) block
    copyBlocksUp k regime dst src (off + k.blockSize) stop
  else pure ()
termination_by stop - off
decreasing_by
  have := k.blockSize_pos
  omega

/-- Copies the blocks below offset `stop`, highest first, down to the last whole one above the
first block. -/
def copyBlocksDown (k : RegisterKind) (dst src : Pointer) (stop : Nat) : Exec Unit :=
  if k.blockSize < stop then do
    let start := stop - k.blockSize
    let block ← Exec.gather .plain (src + start) k.blockSpans
    Exec.scatter .aligned (dst + start) block
    copyBlocksDown k dst src start
  else pure ()
termination_by stop
decreasing_by
  have := k.blockSize_pos
  omega

/-- Copies more than eight registers' worth of bytes, lowest address first. -/
def copyUpward (k : RegisterKind) (regime : CopyRegime) (dst src : Pointer) (n : Nat) :
    Exec Unit :=
  if regime = .repeated then repCopy dst src n
  else do
    let last := n - k.blockSize
    let head ← Exec.gather .plain src k.blockSpans
    let tail ← Exec.gather .plain (src + last) k.blockSpans
    copyBlocksUp k regime dst src (alignedStart k dst.address) last
    if regime = .streaming then Exec.fence
    Exec.scatter .plain dst head
    Exec.scatter .plain (dst + last) tail

def copyDownward (k : RegisterKind) (dst src : Pointer) (n : Nat) : Exec Unit := do
  let last := n - k.blockSize
  let head ← Exec.gather .plain src k.blockSpans
  let tail ← Exec.gather .plain (src + last) k.blockSpans
  copyBlocksDown k dst src (alignedStop k dst.address n)
  Exec.scatter .plain (dst + last) tail
  Exec.scatter .plain dst head

def copyBulk (k : RegisterKind) (policy : LoopPolicy) (direction : Direction)
    (dst src : Pointer) (n : Nat) : Exec Unit :=
  match direction with
  | .upward disjoint =>
    copyUpward k (.choose k policy disjoint dst.address src.address n) dst src n
  | .downward => copyDownward k dst src n

/-- Copies `n` bytes between regions that do not overlap; answers the destination. -/
def memcpy (k : RegisterKind) (policy : LoopPolicy) (dst src : Pointer) (n : Nat) :
    Exec Pointer := do
  if n ≤ 8 * k.width then copyAtOnce k dst src n
  else copyBulk k policy (.upward true) dst src n
  return dst

/-- Copies like `memcpy`; answers the end of the destination. -/
def mempcpy (k : RegisterKind) (policy : LoopPolicy) (dst src : Pointer) (n : Nat) :
    Exec Pointer := do
  let start ← memcpy k policy dst src n
  return start + n

/-- Copies `n` bytes between any two regions; answers the destination. -/
def memmove (k : RegisterKind) (policy : LoopPolicy) (dst src : Pointer) (n : Nat) :
    Exec Pointer := do
  if n = 0 ∨ dst.address = src.address then pure ()
  else if n ≤ 8 * k.width then copyAtOnce k dst src n
  else copyBulk k policy (.choose dst.address src.address n) dst src n
  return dst

end ByteRoutines.Kernel
