import ByteRoutines.Thresholds

/-!
# Loop policies

A policy holds the breakpoints that one family of kernels consults beyond its
small sizes. Four are made from the thresholds: for copies and for fills, each
either with a range of its own for string instructions, or with string
instructions for every size below streaming.
-/

namespace ByteRoutines

/-- The breakpoints that decide which loop a bulk size takes. -/
structure LoopPolicy where
  repStart : UInt64
  repStop : UInt64
  streamStart : UInt64
  prefetchStart : UInt64
  deriving DecidableEq

namespace LoopPolicy

/-- Copies, with string instructions in between the vector loops. -/
def forCopies (t : Thresholds) : LoopPolicy where
  repStart := t.repCopyStart
  repStop := t.repCopyStop
  streamStart := t.copyStreamStart
  prefetchStart := t.prefetchStart

/-- Copies, with `rep movsb` for every bulk size below streaming. -/
def forRepCopies (t : Thresholds) : LoopPolicy :=
  { forCopies t with repStart := 0, repStop := t.copyStreamStart }

/-- Fills, which never prefetch. -/
def forFills (t : Thresholds) : LoopPolicy where
  repStart := t.repFillStart
  repStop := t.repFillStop
  streamStart := t.fillStreamStart
  prefetchStart := Config.unbounded

/-- Fills, with `rep stosb` for every bulk size below streaming. -/
def forRepFills (t : Thresholds) : LoopPolicy :=
  { forFills t with repStart := 0, repStop := t.fillStreamStart }

def repeats (policy : LoopPolicy) (n : Nat) : Bool :=
  policy.repStart.toNat ≤ n && n < policy.repStop.toNat

def streams (policy : LoopPolicy) (n : Nat) : Bool := policy.streamStart.toNat ≤ n

def prefetches (policy : LoopPolicy) (n : Nat) : Bool := policy.prefetchStart.toNat ≤ n

end LoopPolicy

end ByteRoutines
