/-!
# Decimal sizes

A size is written as ASCII digits, after an optional `+`, and denotes a
natural number below 2^64. `readSize` reads from the left and reports the
first thing that stops it.
-/

namespace ByteRoutines.Text

/-- Why a text is no decimal size. -/
inductive NumberFault
  | empty
  | invalidDigit
  | tooLarge
  deriving DecidableEq

namespace NumberFault

def message : NumberFault → String
  | empty => "cannot parse integer from empty string"
  | invalidDigit => "invalid digit found in string"
  | tooLarge => "number too large to fit in target type"

end NumberFault

def digit? (c : Char) : Option Nat :=
  if 48 ≤ c.toNat ∧ c.toNat ≤ 57 then some (c.toNat - 48) else none

/-- Reads digits onto the number `acc` read so far, which stays below 2^64. -/
def readDigits (acc : Nat) : List Char → Except NumberFault UInt64
  | [] => .ok (UInt64.ofNat acc)
  | c :: rest =>
    match digit? c with
    | none => .error .invalidDigit
    | some d =>
      if 10 * acc + d < UInt64.size then readDigits (10 * acc + d) rest
      else .error .tooLarge

/-- Reads a decimal size. A sign alone holds no digit. -/
def readSize : List Char → Except NumberFault UInt64
  | [] => .error .empty
  | ['+'] => .error .invalidDigit
  | '+' :: c :: rest => readDigits 0 (c :: rest)
  | c :: rest => readDigits 0 (c :: rest)

end ByteRoutines.Text
