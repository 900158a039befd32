import ByteRoutines.Register.Kind

/-!
# Loading and storing registers

The instructions through which kernels reach memory: whole registers, plain,
aligned or streaming, and parts of a register. A part is accessed exactly,
by a byte mask where the registers have one and by a cascade of scalar
accesses elsewhere, so it never touches a byte beyond its length.
-/

namespace ByteRoutines.RegisterKind

def load (k : RegisterKind) (p : Pointer) : Exec (Register k) := Exec.load .plain p k.width

/-- Loads a register from a multiple of its width. -/
def loadAligned (k : RegisterKind) (p : Pointer) : Exec (Register k) :=
  Exec.load .aligned p k.width

def store (k : RegisterKind) (p : Pointer) (v : Register k) : Exec Unit := Exec.store .plain p v

/-- Stores a register at a multiple of its width. -/
def storeAligned (k : RegisterKind) (p : Pointer) (v : Register k) : Exec Unit :=
  Exec.store .aligned p v

/-- Stores a register at a multiple of its width, past the cache. -/
def storeStream (k : RegisterKind) (p : Pointer) (v : Register k) : Exec Unit :=
  Exec.store .streaming p v

def partMode : RegisterKind → Mode
  | .zmm => .masked
  | _ => .plain

/-- The accesses that make up the first `n` bytes of a register, `n` below its width. -/
def partSpans : RegisterKind → Nat → List Span
  | .zmm, n => [⟨0, n⟩]
  | _, n => cascade n

/-- The accesses that copy or fill `n` bytes, `n` below the register width. The 32-byte kind
falls back on 16-byte registers. -/
def shortSpans : RegisterKind → Nat → List Span
  | .zmm, n => [⟨0, n⟩]
  | .ymm, n => if 16 ≤ n then spansAt 16 [0, n - 16] else cascade n
  | _, n => cascade n

/-- The register that pieces make up over zeros, in a scratch area of 64 bytes. -/
def assemble (k : RegisterKind) (pieces : List Piece) : Register k :=
  ((Memory.zeroed 0 64).writePieces 0 pieces).read 0 k.width

/-- The pieces of a register that spans name. -/
def disassemble (k : RegisterKind) (v : Register k) (spans : List Span) : List Piece :=
  ((Memory.zeroed 0 64).write 0 v.toList).readPieces 0 spans

/-- Loads exactly `n` bytes, fewer than the register holds; the other bytes are zero. -/
def loadPartial (k : RegisterKind) (p : Pointer) (n : Nat) : Exec (Register k) := do
  Exec.requireLength (n < k.width) n
  let pieces ← Exec.gather k.partMode p (k.partSpans n)
  return k.assemble pieces

/-- Stores exactly the first `n` bytes of a register, fewer than it holds. -/
def storePartial (k : RegisterKind) (p : Pointer) (v : Register k) (n : Nat) : Exec Unit := do
  Exec.requireLength (n < k.width) n
  Exec.scatter k.partMode p (k.disassemble v (k.partSpans n))

/-- Stores the first `n` bytes of a register, at least one and at most all. -/
def storePrefix (k : RegisterKind) (p : Pointer) (v : Register k) (n : Nat) : Exec Unit := do
  Exec.requireLength (1 ≤ n && n ≤ k.width) n
  if n = k.width then k.store p v else k.storePartial p v n

/-- Copies `n` bytes, fewer than a register holds, every load before the first store. -/
def copyShort (k : RegisterKind) (dst src : Pointer) (n : Nat) : Exec Unit := do
  Exec.requireLength (n < k.width) n
  Exec.transfer k.partMode dst src (k.shortSpans n)

/-- Fills `n` bytes, fewer than a register holds. -/
def setShort (k : RegisterKind) (dst : Pointer) (value : UInt8) (n : Nat) : Exec Unit := do
  Exec.requireLength (n < k.width) n
  Exec.fill k.partMode dst value (k.shortSpans n)

/-- Loads the first register of a region: whole if that stays in the page of its first byte,
else up to the next multiple of the register width, which does. Answers how many bytes of the
register are the region's. -/
def loadHead (k : RegisterKind) (p : Pointer) : Exec (Register k × Nat) := do
  if k.width ≤ roomInPage p.address then
    let v ← k.load p
    return (v, k.width)
  else
    let v ← k.loadPartial p (k.toBoundary p.address)
    return (v, k.toBoundary p.address)

end ByteRoutines.RegisterKind
