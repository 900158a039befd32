import ByteRoutines.LoopPolicy
import ByteRoutines.Register.Kind

/-!
# Regimes

How a copy of more than eight registers runs: in which direction, and with
which instructions. `Direction.choose` decides by distances modulo 2^64
whether the regions overlap, and which of them lies higher. String
instructions and streaming stores are for regions that do not overlap, so
`CopyRegime.choose` is told whether it may use them.
-/

namespace ByteRoutines.Kernel

/-- The distance from `b` up to `a` on the circle of 64-bit words. -/
def distance (a b : Nat) : Nat := (BitVec.ofNat 64 a - BitVec.ofNat 64 b).toNat

inductive Direction
  /-- Lowest address first; `disjoint` says that the regions do not overlap. -/
  | upward (disjoint : Bool)
  | downward
  deriving DecidableEq

/-- The direction for regions of `n` bytes: downward only when the destination starts within
the source. -/
def Direction.choose (dst src n : Nat) : Direction :=
  if n ≤ distance dst src then .upward (n ≤ distance src dst) else .downward

/-- The instructions by which an upward copy runs. -/
inductive CopyRegime
  | repeated
  | streaming
  | prefetching
  /-- Aligned loads and stores: source and destination are equally misaligned. -/
  | congruent
  | unaligned
  deriving DecidableEq

namespace CopyRegime

def prefetches : CopyRegime → Bool
  | streaming | prefetching => true
  | _ => false

def loadMode : CopyRegime → Mode
  | congruent => .aligned
  | _ => .plain

def storeMode : CopyRegime → Mode
  | streaming => .streaming
  | _ => .aligned

/-- The regime for `n` bytes; `disjoint` says that the regions do not overlap. -/
def choose (k : RegisterKind) (policy : LoopPolicy) (disjoint : Bool) (dst src n : Nat) :
    CopyRegime :=
  if disjoint && policy.repeats n then repeated
  else if disjoint && policy.streams n then streaming
  else if policy.prefetches n then prefetching
  else if src % k.width = dst % k.width then congruent
  else unaligned

end CopyRegime

/-- The offset of the first aligned address past the start of a region, at most a block in. -/
def alignedStart (k : RegisterKind) (dst : Nat) : Nat := k.blockSize - dst % k.width

/-- The offset of the last aligned address in a region of `n` bytes, or its end. -/
def alignedStop (k : RegisterKind) (dst n : Nat) : Nat := n - (dst + n) % k.width

end ByteRoutines.Kernel
