import ByteRoutines.Proofs.Slice.Refusal

/-!
# Strings that are built up in a buffer

Three of the wrappers that write leave a string in the buffer: one replaces
the text that stands there, two continue it. Over any sequence of such calls,
refused or not, a buffer that held a string goes on holding one, and its text
is what the calls that were not refused make of the first text
(`appends_keep_text`).

What one call does to a list of bytes is `Edit.Leaves`, for each of the three
by `leaves_of_placeText`; what it does in memory is `ends_appending`, and of a
call that was made `keeps_of_appending`.
-/

namespace ByteRoutines

open Exec

/-- An operation that leaves a string in a buffer. -/
inductive Appending
  | strcpy
  | strcat
  | strncat (n : Nat)
  deriving DecidableEq

namespace Appending

def run (table : RoutineTable) (dest src : Slice) : Appending → Checked Nat
  | strcpy => Slice.strcpy table dest src.start
  | strcat => Slice.strcat table dest src.start
  | strncat n => Slice.strncat table dest src n

def plan (buffer source : List UInt8) : Appending → Plan
  | strcpy => .strcpy buffer source
  | strcat => .strcat buffer source
  | strncat n => .strncat buffer source n

/-- The text after a call that is not refused. -/
def apply (text source : List UInt8) : Appending → List UInt8
  | strcpy => textOf source
  | strcat => text ++ textOf source
  | strncat n => text ++ textOf (source.take n)

/-- The operation is not told where its source ends. -/
def needsString : Appending → Bool
  | strcpy | strcat => true
  | strncat _ => false

/-- A source that an operation may be given: one that shares no byte with the buffer, and that
holds a string if it needs one. -/
structure Permits (request : Appending) (m : Memory) (dest src : Slice) : Prop where
  fits : src.Fits
  apart : Region.Apart dest.region src.region
  holdsString : request.needsString = true →
    ∃ l, StringAt m src.start.address l ∧ l < src.length

end Appending

/-! ### What a call does to the bytes -/

/-- After the edit, this text stands in the buffer, and its length was answered. -/
structure Edit.Leaves (edit : Edit) (buffer text : List UInt8) : Prop where
  terminated : 0 ∈ overwrite buffer edit.position edit.bytes
  text_eq : textOf (overwrite buffer edit.position edit.bytes) = text
  answer_eq : edit.answer = text.length

section Bytes

variable {op : Operation} {buffer source text : List UInt8} {position : Nat} {edit : Edit}

/-- A text that is put within the text of a buffer or at its end. -/
theorem leaves_of_placeText (h : placeText op buffer text position = .ok edit) (htext : 0 ∉ text)
    (hposition : position ≤ (textOf buffer).length) :
    edit.Leaves buffer ((textOf buffer).take position ++ text) := by
  rw [placeText] at h
  split at h
  · cases h
  · cases h
    refine ⟨zero_mem_overwrite buffer text position, textOf_overwrite htext hposition, ?_⟩
    rw [List.length_append, List.length_take_of_le hposition]

theorem leaves_of_appendText (h : appendText op buffer text = .ok edit) (htext : 0 ∉ text) :
    edit.Leaves buffer (textOf buffer ++ text) := by
  rw [appendText] at h
  split at h
  · have hleaves := leaves_of_placeText h htext (Nat.le_refl _)
    rwa [List.take_length] at hleaves
  · cases h

theorem leaves_of_plan {request : Appending} (h : request.plan buffer source = .ok edit) :
    edit.Leaves buffer (request.apply (textOf buffer) source) := by
  cases request with
  | strcpy =>
    have hleaves := leaves_of_placeText h (zero_notMem_textOf source) (Nat.zero_le _)
    rwa [List.take_zero, List.nil_append] at hleaves
  | strcat => exact leaves_of_appendText h (zero_notMem_textOf source)
  | strncat n => exact leaves_of_appendText h (zero_notMem_textOf (source.take n))

end Bytes

/-! ### Calls and sequences of calls -/

/-- A call that was made: what the source held then, and what came of it. -/
structure AppendCall where
  request : Appending
  source : List UInt8
  outcome : Except Refusal Nat

/-- What a call makes of a text; a refused one leaves it as it is. -/
def AppendCall.replay (text : List UInt8) (call : AppendCall) : List UInt8 :=
  match call.outcome with
  | .ok _ => call.request.apply text call.source
  | .error _ => text

/-- What came of a call, and the memory after it: the length of the text that now stands in the
buffer, or a refusal and no change. -/
def AppendCall.Reports (dest : Slice) (m m' : Memory) : Except Refusal Nat → Prop
  | .ok length => length = (textOf (dest.bytes m')).length
  | .error _ => m' = m

variable {table : RoutineTable} {dest src : Slice} {request : Appending} {s s' : Machine}

theorem Appending.Permits.concludes (h : request.Permits s.memory dest src) (hdest : dest.Fits)
    (hserves : table.Serves dest.region src.region) :
    Concludes (request.run table dest src) s.memory
      ((request.plan (dest.bytes s.memory) (src.bytes s.memory)).Follows dest s.memory) := by
  cases request with
  | strcpy =>
    obtain ⟨l, hstring, hl⟩ := h.holdsString rfl
    exact Slice.concludes_strcpy hserves h.fits hstring hl
  | strcat =>
    obtain ⟨l, hstring, hl⟩ := h.holdsString rfl
    exact Slice.concludes_strcat hserves hdest h.fits hstring hl
  | strncat n => exact Slice.concludes_strncat hserves hdest h.fits

/-- **One call on a buffer that holds a string** ends, and the buffer holds a string again. -/
theorem ends_appending (dispatch : Dispatch) (hdest : dest.Fits)
    (h : request.Permits s.memory dest src) (hterminated : 0 ∈ dest.bytes s.memory) :
    ∃ outcome s', (request.run dispatch.table dest src).run s = .ok outcome s' ∧
      0 ∈ dest.bytes s'.memory ∧
      textOf (dest.bytes s'.memory) = AppendCall.replay (textOf (dest.bytes s.memory))
        ⟨request, src.bytes s.memory, outcome⟩ ∧
      AppendCall.Reports dest s.memory s'.memory outcome := by
  have hserves := serves_table dispatch hdest.inSpace h.apart
  obtain ⟨outcome, s', hrun, hfollows⟩ := Ends.exists_run (h.concludes hdest hserves)
  refine ⟨outcome, s', hrun, ?_⟩
  cases hplan : request.plan (dest.bytes s.memory) (src.bytes s.memory) with
  | error refusal =>
    rw [hplan] at hfollows
    obtain ⟨rfl, hmem⟩ := hfollows
    rw [hmem]
    exact ⟨hterminated, rfl, rfl⟩
  | ok edit =>
    rw [hplan] at hfollows
    obtain ⟨rfl, hbytes, _⟩ := hfollows
    have hleaves := leaves_of_plan hplan
    rw [hbytes]
    refine ⟨hleaves.terminated, hleaves.text_eq, ?_⟩
    show edit.answer = _
    rw [hbytes, hleaves.text_eq, hleaves.answer_eq]

/-- The same of a call that was made, as a run has one outcome only. -/
theorem keeps_of_appending (dispatch : Dispatch) (hdest : dest.Fits)
    (h : request.Permits s.memory dest src) (hterminated : 0 ∈ dest.bytes s.memory)
    {outcome : Except Refusal Nat}
    (hrun : (request.run dispatch.table dest src).run s = .ok outcome s') :
    0 ∈ dest.bytes s'.memory ∧
      textOf (dest.bytes s'.memory) = AppendCall.replay (textOf (dest.bytes s.memory))
        ⟨request, src.bytes s.memory, outcome⟩ ∧
      AppendCall.Reports dest s.memory s'.memory outcome := by
  obtain ⟨outcome', s'', hrun', hkept⟩ := ends_appending dispatch hdest h hterminated
  cases hrun.symm.trans hrun'
  exact hkept

/-- The calls that are made on a buffer, the latest at the end. Between two of them anything may
happen that leaves the buffer alone. -/
inductive AppendCalls (table : RoutineTable) (dest : Slice) (s : Machine) :
    List AppendCall → Machine → Prop
  | start : AppendCalls table dest s [] s
  | call {calls : List AppendCall} {s₁ s₂ : Machine} {request : Appending} {src : Slice}
      {outcome : Except Refusal Nat} (before : AppendCalls table dest s calls s₁)
      (permits : request.Permits s₁.memory dest src)
      (run : (request.run table dest src).run s₁ = .ok outcome s₂) :
      AppendCalls table dest s (calls ++ [⟨request, src.bytes s₁.memory, outcome⟩]) s₂
  | elsewhere {calls : List AppendCall} {s₁ s₂ : Machine}
      (before : AppendCalls table dest s calls s₁)
      (kept : ∀ a ∈ dest.region, s₂.memory.get a = s₁.memory.get a) :
      AppendCalls table dest s calls s₂

/-- By induction over the calls: what `keeps_of_appending` says of one holds of all of them. -/
theorem text_of_calls (dispatch : Dispatch) (hdest : dest.Fits) {calls : List AppendCall}
    (hcalls : AppendCalls dispatch.table dest s calls s') (hterminated : 0 ∈ dest.bytes s.memory) :
    0 ∈ dest.bytes s'.memory ∧ textOf (dest.bytes s'.memory) =
      calls.foldl AppendCall.replay (textOf (dest.bytes s.memory)) := by
  induction hcalls with
  | start => exact ⟨hterminated, rfl⟩
  | call _ permits run ih =>
    obtain ⟨hzero, htext⟩ := ih
    obtain ⟨hzero', htext', _⟩ := keeps_of_appending dispatch hdest permits hzero run
    refine ⟨hzero', ?_⟩
    rw [htext', htext, List.foldl_append]
    rfl
  | elsewhere _ kept ih =>
    rw [Slice.bytes_congr kept]
    exact ih

/-- Each call that was not refused answered the length of the text after it. -/
theorem answers_of_calls (dispatch : Dispatch) (hdest : dest.Fits) {calls : List AppendCall}
    (hcalls : AppendCalls dispatch.table dest s calls s') (hterminated : 0 ∈ dest.bytes s.memory)
    {before : List AppendCall} {call : AppendCall} {length : Nat}
    (hbefore : before ++ [call] <+: calls) (hlength : call.outcome = .ok length) : length =
      ((before ++ [call]).foldl AppendCall.replay (textOf (dest.bytes s.memory))).length := by
  induction hcalls with
  | start => simp at hbefore
  | @call calls s₁ s₂ request src outcome hcalls permits run ih =>
    -- Either the call is the newest one, or it was made before.
    rcases List.prefix_concat_iff.mp hbefore with heq | hprefix
    · obtain ⟨hzero, htext⟩ := text_of_calls dispatch hdest hcalls hterminated
      obtain ⟨_, htext', hreports⟩ := keeps_of_appending dispatch hdest permits hzero run
      obtain ⟨rfl, hcall⟩ := List.append_inj' heq rfl
      cases hcall
      cases hlength
      rw [List.foldl_append, ← htext]
      rw [AppendCall.Reports, htext'] at hreports
      exact hreports
    · exact ih hprefix
  | elsewhere _ _ ih => exact ih hbefore

/-- **A buffer that holds a string goes on holding one** over any calls that copy to it or append
to it, whichever of them are refused. Its text is what the other calls make of the first one. A
call ends whatever was called before, and answers the length of the text that it leaves, or is
refused and changes nothing. -/
theorem appends_keep_text (dispatch : Dispatch) {dest : Slice} (hdest : dest.Fits) {s s' : Machine}
    (hterminated : 0 ∈ dest.bytes s.memory) {calls : List AppendCall}
    (hcalls : AppendCalls dispatch.table dest s calls s') :
    0 ∈ dest.bytes s'.memory ∧
      textOf (dest.bytes s'.memory) =
        calls.foldl AppendCall.replay (textOf (dest.bytes s.memory)) ∧
      (∀ before call length, before ++ [call] <+: calls → call.outcome = .ok length → length =
        ((before ++ [call]).foldl AppendCall.replay (textOf (dest.bytes s.memory))).length) ∧
      ∀ request src, Appending.Permits request s'.memory dest src →
        ∃ outcome s'', (request.run dispatch.table dest src).run s' = .ok outcome s'' ∧
          AppendCall.Reports dest s'.memory s''.memory outcome := by
  obtain ⟨hzero, htext⟩ := text_of_calls dispatch hdest hcalls hterminated
  refine ⟨hzero, htext, fun _ _ _ => answers_of_calls dispatch hdest hcalls hterminated,
    fun request src hpermits => ?_⟩
  obtain ⟨outcome, s'', hrun, _, _, hreports⟩ := ends_appending dispatch hdest hpermits hzero
  exact ⟨outcome, s'', hrun, hreports⟩

/-- The longer string of `stringsApart` is appended to the shorter one and fills the room. The call
after that ends as well. -/
theorem appends_keep_text_stringsApart :
    ∃ s', AppendCalls (Dispatch.new Cpu.Features.baseline Config.Overrides.empty).1.table roomApart
        ⟨stringsApart, []⟩ [⟨.strcat, [99, 100, 101, 0], .ok 5⟩] s' ∧
      textOf (roomApart.bytes s'.memory) = [97, 98, 99, 100, 101] ∧
      ∃ outcome s'', ((Appending.strncat 2).run
          (Dispatch.new Cpu.Features.baseline Config.Overrides.empty).1.table roomApart
          textApart).run s' = .ok outcome s'' ∧
        AppendCall.Reports roomApart s'.memory s''.memory outcome := by
  have hdest : roomApart.Fits := ⟨by decide, by decide⟩
  have hsrc : textApart.Fits := ⟨by decide, by decide⟩
  have hapart : Region.Apart roomApart.region textApart.region := Region.apart_of_le (by decide)
  have hpermits : Appending.Permits .strcat stringsApart roomApart textApart :=
    ⟨hsrc, hapart, fun _ => ⟨3, ⟨by decide, by decide, by decide⟩, by decide⟩⟩
  have hserves := serves_table (Dispatch.new Cpu.Features.baseline Config.Overrides.empty).1
    hdest.inSpace hapart
  obtain ⟨outcome, s', hrun, hfollows⟩ :=
    Ends.exists_run (s := ⟨stringsApart, []⟩) (hpermits.concludes hdest hserves)
  have houtcome : outcome = .ok 5 := hfollows.1
  subst houtcome
  have hcalls := AppendCalls.start.call hpermits hrun
  obtain ⟨_, htext, _, hnext⟩ := appends_keep_text _ hdest (s := ⟨stringsApart, []⟩) (by decide)
    hcalls
  exact ⟨s', hcalls, htext, hnext (.strncat 2) textApart ⟨hsrc, hapart, fun h => nomatch h⟩⟩

end ByteRoutines
