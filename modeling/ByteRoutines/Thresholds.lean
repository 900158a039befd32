import ByteRoutines.Cpu.Features
import ByteRoutines.Config.BulkRanges

/-!
# Thresholds

The sizes at which the bulk loops change: where string instructions start and
stop, where streaming stores start and where prefetching starts, for copies
and for fills. `ofCache` derives them from the cache sizes and `withRanges`
puts the ranges of a threshold text in their place. A range runs from its
start up to, and not including, its stop.
-/

namespace ByteRoutines

open Cpu (CacheSizes)
open Config (BulkRanges unbounded)

/-- The breakpoints of the process, in bytes. -/
structure Thresholds where
  /-- The smallest copy left to `rep movsb`. -/
  repCopyStart : UInt64
  /-- The smallest copy above the range of `rep movsb`. -/
  repCopyStop : UInt64
  copyStreamStart : UInt64
  prefetchStart : UInt64
  /-- The smallest fill left to `rep stosb`. -/
  repFillStart : UInt64
  /-- The smallest fill above the range of `rep stosb`. -/
  repFillStop : UInt64
  fillStreamStart : UInt64
  deriving DecidableEq

namespace Thresholds

/-- How far beyond half of the second cache level string instructions start to win. -/
def repMargin : UInt64 := 2048

/-- The breakpoints for given caches: three quarters of the last level for streaming, half of
the second level and a margin for string instructions. Where those are slow their range is
empty. -/
def ofCache (cache : CacheSizes) (fastRep : Bool) : Thresholds :=
  let stream := cache.l3 / 4 * 3
  let repStart := if fastRep then cache.l2 / 2 + repMargin else unbounded
  let repStop := if fastRep then stream else unbounded
  { repCopyStart := repStart, repCopyStop := repStop, copyStreamStart := stream,
    prefetchStart := cache.l2,
    repFillStart := repStart, repFillStop := repStop, fillStreamStart := stream }

/-- The breakpoints when nothing is known about the processor. -/
def baseline : Thresholds := ofCache .standard false

/-- Takes the ranges of a threshold text, for copies and for fills alike. -/
def withRanges (thresholds : Thresholds) (ranges : BulkRanges) : Thresholds :=
  { thresholds with
    repCopyStart := ranges.repStart, repCopyStop := ranges.repStop,
    copyStreamStart := ranges.streamStart,
    repFillStart := ranges.repStart, repFillStop := ranges.repStop,
    fillStreamStart := ranges.streamStart }

def repCopies (thresholds : Thresholds) (n : Nat) : Bool :=
  thresholds.repCopyStart.toNat ≤ n && n < thresholds.repCopyStop.toNat

def repFills (thresholds : Thresholds) (n : Nat) : Bool :=
  thresholds.repFillStart.toNat ≤ n && n < thresholds.repFillStop.toNat

end Thresholds

end ByteRoutines
