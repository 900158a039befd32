import ByteRoutines.Memory.Machine

/-!
# Gathering and scattering

A region is moved in pieces: `gather` loads a list of spans, which may
overlap, before anything is stored, and `scatter` stores the pieces in order.
Where the spans together cover the region and the pieces hold its bytes, the
overlaps do no harm, and neither does an overlap of source and destination.
`cascade` covers any region below 64 bytes with scalar accesses.
-/

namespace ByteRoutines

/-- A part of a region, by its distance from the start. -/
structure Span where
  offset : Nat
  length : Nat
  deriving DecidableEq

structure Piece where
  span : Span
  bytes : Bytes span.length

namespace Piece

def filled (value : UInt8) (span : Span) : Piece := ⟨span, Vector.replicate span.length value⟩

end Piece

namespace Memory

def readPieces (m : Memory) (a : Nat) (spans : List Span) : List Piece :=
  spans.map fun span => ⟨span, m.read (a + span.offset) span.length⟩

def writePieces (m : Memory) (a : Nat) : List Piece → Memory
  | [] => m
  | piece :: rest => (m.write (a + piece.span.offset) piece.bytes.toList).writePieces a rest

end Memory

namespace Exec

/-- Loads the spans of the region at `src` in order. -/
def gather (mode : Mode) (src : Pointer) : List Span → Exec (List Piece)
  | [] => pure []
  | span :: rest => do
    let bytes ← load mode (src + span.offset) span.length
    let pieces ← gather mode src rest
    return ⟨span, bytes⟩ :: pieces

/-- Stores pieces of the region at `dst` in order. -/
def scatter (mode : Mode) (dst : Pointer) : List Piece → Exec Unit
  | [] => pure ()
  | piece :: rest => do
    store mode (dst + piece.span.offset) piece.bytes
    scatter mode dst rest

/-- Copies spans, every load before the first store. -/
def transfer (mode : Mode) (dst src : Pointer) (spans : List Span) : Exec Unit := do
  let pieces ← gather mode src spans
  scatter mode dst pieces

def fill (mode : Mode) (dst : Pointer) (value : UInt8) (spans : List Span) : Exec Unit :=
  scatter mode dst (spans.map (Piece.filled value))

end Exec

def spansAt (length : Nat) (offsets : List Nat) : List Span := offsets.map (⟨·, length⟩)

/-- Scalar spans that cover a region of `n` bytes, `n` below 64: some from its start and as many
up to its end. -/
def cascade (n : Nat) : List Span :=
  if 32 ≤ n then spansAt 8 [0, 8, 16, 24, n - 32, n - 24, n - 16, n - 8]
  else if 16 ≤ n then spansAt 8 [0, 8, n - 16, n - 8]
  else if 8 ≤ n then spansAt 8 [0, n - 8]
  else if 4 ≤ n then spansAt 4 [0, n - 4]
  else if 2 ≤ n then spansAt 2 [0, n - 2]
  else if n = 1 then spansAt 1 [0]
  else []

end ByteRoutines
