import ByteRoutines.Proofs.Slice.Bytes

/-!
# What a call on a slice is to do

The wrappers that write are described on lists of bytes. From what the buffer
and the source hold, a plan says whether a call is refused, and if not, which
bytes it puts where, and what it answers.

The operations that leave a string all put a text and its terminator at some
position (`placeText`): the copy at the front, the appending ones where the
text of the buffer ends.
-/

namespace ByteRoutines

/-- Bytes that are put at a position, and a number that is answered. -/
structure Edit where
  position : Nat
  bytes : List UInt8
  answer : Nat
  deriving DecidableEq

/-- An edit of a buffer, or why there is none. -/
abbrev Plan := Except Refusal Edit

/-- Puts a text with its terminator at a position; answers where the text ends. -/
def placeText (op : Operation) (buffer text : List UInt8) (position : Nat) : Plan :=
  if buffer.length < position + text.length + 1 then
    .error (.tooShort op buffer.length (position + text.length + 1))
  else .ok ⟨position, text ++ [0], position + text.length⟩

/-- Puts a text where the one in the buffer ends. -/
def appendText (op : Operation) (buffer text : List UInt8) : Plan :=
  if 0 ∈ buffer then placeText op buffer text (textOf buffer).length
  else .error (.unterminated op)

namespace Plan

def memcpy (buffer source : List UInt8) : Plan :=
  if buffer.length < source.length then .error (.sourceTooLong buffer.length source.length)
  else .ok ⟨0, source, source.length⟩

/-- The bytes from `start` up to `stop` go to another position. -/
def memmove (buffer : List UInt8) (start stop position : Nat) : Plan :=
  if stop < start ∨ buffer.length < stop then .error .sourceRange
  else if buffer.length < position + (stop - start) then .error .destinationRange
  else .ok ⟨position, buffer.extract start stop, stop - start⟩

def strcpy (buffer source : List UInt8) : Plan := placeText .strcpy buffer (textOf source) 0

/-- The text among the first `n` bytes, and zeros up to `n`. -/
def strncpy (buffer source : List UInt8) (n : Nat) : Plan :=
  if buffer.length < n then .error (.tooShort .strncpy buffer.length n)
  else
    let text := textOf (source.take n)
    .ok ⟨0, text ++ List.replicate (n - text.length) 0, text.length⟩

def strcat (buffer source : List UInt8) : Plan := appendText .strcat buffer (textOf source)

/-- The text among the first `n` bytes is appended. -/
def strncat (buffer source : List UInt8) (n : Nat) : Plan :=
  appendText .strncat buffer (textOf (source.take n))

/-- There is no edit. -/
def Refused (plan : Plan) : Prop := ∃ refusal, plan = .error refusal

theorem refused_error (refusal : Refusal) : Refused (.error refusal) := ⟨refusal, rfl⟩

theorem not_refused_ok (edit : Edit) : ¬ Refused (.ok edit) := by
  rintro ⟨refusal, h⟩
  cases h

/-- A plan that begins with a check. -/
theorem refused_ite {check : Prop} [Decidable check] {refusal : Refusal} {plan : Plan} :
    Refused (if check then .error refusal else plan) ↔ check ∨ Refused plan := by
  by_cases h : check
  · rw [if_pos h]
    exact ⟨fun _ => Or.inl h, fun _ => refused_error refusal⟩
  · rw [if_neg h]
    exact ⟨Or.inr, fun hor => hor.resolve_left h⟩

/-- A plan that consists of a check. -/
theorem refused_ite_ok {check : Prop} [Decidable check] {refusal : Refusal} {edit : Edit} :
    Refused (if check then .error refusal else .ok edit) ↔ check := by
  rw [refused_ite]
  exact or_iff_left (not_refused_ok edit)

variable {op : Operation} {buffer source text : List UInt8} {start stop position n : Nat}

theorem refused_placeText : Refused (placeText op buffer text position) ↔
    buffer.length < position + text.length + 1 := refused_ite_ok

theorem refused_appendText : Refused (appendText op buffer text) ↔
    0 ∉ buffer ∨ buffer.length < (textOf buffer).length + text.length + 1 := by
  rw [appendText]
  split
  · rename_i hzero
    rw [refused_placeText]
    exact (or_iff_right (not_not_intro hzero)).symm
  · rename_i hzero
    exact ⟨fun _ => Or.inl hzero, fun _ => refused_error _⟩

theorem refused_memcpy : Refused (memcpy buffer source) ↔ buffer.length < source.length :=
  refused_ite_ok

theorem refused_memmove : Refused (memmove buffer start stop position) ↔
    stop < start ∨ buffer.length < stop ∨ buffer.length < position + (stop - start) := by
  rw [memmove, refused_ite, refused_ite_ok, or_assoc]

theorem refused_strncpy : Refused (strncpy buffer source n) ↔ buffer.length < n := refused_ite_ok

end Plan

end ByteRoutines
