import ByteRoutines.Config.Error
import ByteRoutines.Text.Blank
import ByteRoutines.Text.Cut

/-!
# Bulk ranges

A threshold text gives three half-open ranges of sizes, for the vector loops,
for the string instructions and for streaming stores, such as
`[0,2048):[2048,1048576):[1048576,-1)`. The end `-1` stands for no bound, and
the last range has none. The first range is fixed elsewhere: it has to be
there and in order, and leaves no trace in the result.
-/

namespace ByteRoutines.Config

/-- The end of a range without a bound. -/
def unbounded : UInt64 := 0xFFFFFFFFFFFFFFFF

structure SizeRange where
  start : UInt64
  stop : UInt64
  deriving DecidableEq

structure BulkRanges where
  repStart : UInt64
  repStop : UInt64
  streamStart : UInt64
  deriving DecidableEq

/-- Reads a number and keeps its text for the error. -/
def readNumber (text : List Char) : Except Error UInt64 :=
  match Text.readSize text with
  | .ok n => .ok n
  | .error fault => .error (.invalidNumber (String.ofList text) fault)

def readStop (text : List Char) : Except Error UInt64 :=
  if text = ['-', '1'] then .ok unbounded else readNumber text

/-- Reads one range `[start,stop)` of the threshold text `raw`. -/
def readRange (raw : String) (piece : List Char) : Except Error SizeRange :=
  match Text.strip '[' ')' (Text.trim piece) with
  | none => .error (.malformedThreshold raw)
  | some inner =>
    match Text.cutAt ',' inner with
    | none => .error (.malformedThreshold raw)
    | some (left, right) => do
      let start ← readNumber (Text.trim left)
      let stop ← readStop (Text.trim right)
      return ⟨start, stop⟩

/-- The ranges follow one another without overlap. -/
def inOrder (vector rep streaming : SizeRange) : Bool :=
  vector.start ≤ vector.stop && vector.stop ≤ rep.start && rep.start ≤ rep.stop &&
    rep.stop ≤ streaming.start

namespace BulkRanges

/-- Reads a threshold text. At most three ranges are looked at; what else stands there,
or is missing, makes the text malformed. -/
def parse (raw : String) : Except Error BulkRanges := do
  let pieces := raw.toList.splitOn ':'
  let ranges ← (pieces.take 3).mapM (readRange raw)
  match ranges, pieces.drop 3 with
  | [vector, rep, streaming], [] =>
    if streaming.stop ≠ unbounded then .error (.malformedThreshold raw)
    else if inOrder vector rep streaming then .ok ⟨rep.start, rep.stop, streaming.start⟩
    else .error (.unorderedThreshold raw)
  | _, _ => .error (.malformedThreshold raw)

end BulkRanges

end ByteRoutines.Config
