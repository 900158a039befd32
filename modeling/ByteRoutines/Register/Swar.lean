import ByteRoutines.Register.Mask

/-!
# Eight bytes in a word

Byte comparisons on a 64-bit word without vector instructions. `zeroBytes`
sets the high bit of every zero byte, by an addition that cannot carry from
one byte to the next; `gatherHighBits` brings the eight high bits together in
the lowest byte by one multiplication.
-/

namespace ByteRoutines.Swar

def lowSeven : BitVec 64 := 0x7F7F7F7F7F7F7F7F#64

/-- The word whose lowest byte is the first of `bytes`. -/
def pack (bytes : Vector UInt8 8) : BitVec 64 :=
  bytes.toList.foldr (fun byte word => (word <<< 8) ||| byte.toBitVec.setWidth 64) 0

/-- The high bit of each zero byte of a word, and nothing else. -/
def zeroBytes (word : BitVec 64) : BitVec 64 :=
  ~~~(((word &&& lowSeven) + lowSeven) ||| word ||| lowSeven)

/-- The high bits of the bytes of a word, in the lowest eight bits. No other bit of the word
may be set. -/
def gatherHighBits (word : BitVec 64) : Mask :=
  ((word >>> 7) * 0x0102040810204080#64) >>> 56

def zeroMask (word : BitVec 64) : Mask := gatherHighBits (zeroBytes word)

def eqMask (a b : BitVec 64) : Mask := zeroMask (a ^^^ b)

def neMask (a b : BitVec 64) : Mask := ~~~eqMask a b &&& Mask.low 8

end ByteRoutines.Swar
