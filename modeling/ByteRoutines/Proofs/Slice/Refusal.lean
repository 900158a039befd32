import ByteRoutines.Proofs.Slice.Confined
import ByteRoutines.Proofs.Slice.Write

/-!
# When a call on a slice is refused

The wrappers that write, over the table of a process. Each of them carries out
its plan, which is to be refused exactly where the result does not fit, and
ends in the same way over the confined table: so it has made no call outside
the buffer and the source (`writers_carry_out_plans`).
-/

namespace ByteRoutines

open Exec Kernel

variable {table : RoutineTable} {dest src : Slice} {m m' : Memory}

theorem Plan.Follows.refused_iff {plan : Plan} {outcome : Except Refusal Nat}
    (h : plan.Follows dest m outcome m') :
    (∃ refusal, outcome = .error refusal) ↔ plan.Refused := by
  cases plan with
  | error refusal =>
    obtain ⟨rfl, _⟩ := h
    exact ⟨fun _ => refused_error refusal, fun _ => ⟨refusal, rfl⟩⟩
  | ok edit =>
    obtain ⟨rfl, _⟩ := h
    refine ⟨fun hrefused => ?_, fun hrefused => absurd hrefused (not_refused_ok edit)⟩
    obtain ⟨refusal, hrefusal⟩ := hrefused
    cases hrefusal

/-- Run from `s`, the wrapper carries out its plan for the buffer `dest`, makes no call that goes
outside `dest` and `src`, and is refused in the given case only. -/
structure CarriesOut (write : RoutineTable → Checked Nat) (table : RoutineTable) (s : Machine)
    (dest src : Slice) (plan : Plan) (refused : Prop) : Prop where
  ends : ∃ outcome s', (write table).run s = .ok outcome s' ∧
    (write (table.confined dest.region src.region)).run s = .ok outcome s' ∧
    plan.Follows dest s.memory outcome s'.memory
  refused_iff : (∃ refusal s', (write table).run s = .ok (.error refusal) s') ↔ refused

theorem carriesOut {write : RoutineTable → Checked Nat} {s : Machine} {plan : Plan}
    {refused : Prop} (hrefused : plan.Refused ↔ refused)
    (hconcludes : Concludes (write (table.confined dest.region src.region)) s.memory
      (plan.Follows dest s.memory))
    (hrestricts : Restricts (write (table.confined dest.region src.region)).run
      (write table).run) : CarriesOut write table s dest src plan refused := by
  obtain ⟨outcome, s', hrun, hfollows⟩ := Ends.exists_run hconcludes
  have hrun' := hrestricts s outcome s' hrun
  refine ⟨⟨outcome, s', hrun', hrun, hfollows⟩, ?_⟩
  rw [← hrefused, ← hfollows.refused_iff, hrun']
  constructor
  · rintro ⟨refusal, _, ⟨⟩⟩
    exact ⟨refusal, rfl⟩
  · rintro ⟨refusal, rfl⟩
    exact ⟨refusal, s', rfl⟩

/-- What the wrappers that write do, from `s`, with a buffer and a source. A string is given by a
pointer to the start of the source. -/
structure CarryOutPlans (table : RoutineTable) (s : Machine) (dest src : Slice) : Prop where
  memcpy : CarriesOut (Slice.memcpy · dest src) table s dest src
    (.memcpy (dest.bytes s.memory) (src.bytes s.memory)) (dest.length < src.length)
  memmove : ∀ start stop position,
    CarriesOut (Slice.memmove · dest start stop position) table s dest src
      (.memmove (dest.bytes s.memory) start stop position)
      (stop < start ∨ dest.length < stop ∨ dest.length < position + (stop - start))
  strcpy : ∀ l, StringAt s.memory src.start.address l → l < src.length →
    CarriesOut (Slice.strcpy · dest src.start) table s dest src
      (.strcpy (dest.bytes s.memory) (src.bytes s.memory)) (dest.length < l + 1)
  strncpy : ∀ n, CarriesOut (Slice.strncpy · dest src n) table s dest src
    (.strncpy (dest.bytes s.memory) (src.bytes s.memory) n) (dest.length < n)
  strcat : ∀ l, StringAt s.memory src.start.address l → l < src.length →
    CarriesOut (Slice.strcat · dest src.start) table s dest src
      (.strcat (dest.bytes s.memory) (src.bytes s.memory))
      (0 ∉ dest.bytes s.memory ∨
        dest.length < (textOf (dest.bytes s.memory)).length + l + 1)
  strncat : ∀ n, CarriesOut (Slice.strncat · dest src n) table s dest src
    (.strncat (dest.bytes s.memory) (src.bytes s.memory) n)
    (0 ∉ dest.bytes s.memory ∨ dest.length < (textOf (dest.bytes s.memory)).length +
      (textOf ((src.bytes s.memory).take n)).length + 1)

/-- **A wrapper that writes is refused exactly where its result does not fit**, and then has
changed nothing. Otherwise it ends, each call that it makes lies within the buffer and the source,
and it leaves and answers what its plan says. No size that it computes leaves the range of words. -/
theorem writers_carry_out_plans (dispatch : Dispatch) (s : Machine) (hdest : dest.Fits)
    (hsrc : src.Fits) (hapart : Region.Apart dest.region src.region) :
    CarryOutPlans dispatch.table s dest src := by
  -- All six are run over the confined table; only then is the table itself put in its place.
  have hserves : (dispatch.table.confined dest.region src.region).Serves dest.region src.region :=
    serves_confined (serves_table dispatch hdest.inSpace hapart)
  have hrestricts := confined_restricts dispatch.table dest.region src.region
  constructor
  case memcpy =>
    refine carriesOut ?_ (Slice.concludes_memcpy hserves) (Slice.restricts_memcpy hrestricts)
    rw [Plan.refused_memcpy, Slice.length_bytes, Slice.length_bytes]
  case memmove =>
    intro start stop position
    refine carriesOut ?_ (Slice.concludes_memmove hserves)
      (Slice.restricts_memmove hrestricts start stop position)
    rw [Plan.refused_memmove, Slice.length_bytes]
  case strcpy =>
    intro l hstring hl
    refine carriesOut ?_ (Slice.concludes_strcpy hserves hsrc hstring hl)
      (Slice.restricts_strcpy hrestricts src.start)
    rw [Plan.strcpy, Plan.refused_placeText, Slice.length_bytes,
      Slice.textOf_bytes_of_string hstring hl, Memory.length_read, Nat.zero_add]
  case strncpy =>
    intro n
    refine carriesOut ?_ (Slice.concludes_strncpy hserves hapart)
      (Slice.restricts_strncpy hrestricts n)
    rw [Plan.refused_strncpy, Slice.length_bytes]
  case strcat =>
    intro l hstring hl
    refine carriesOut ?_ (Slice.concludes_strcat hserves hdest hsrc hstring hl)
      (Slice.restricts_strcat hrestricts src.start)
    rw [Plan.strcat, Plan.refused_appendText, Slice.length_bytes,
      Slice.textOf_bytes_of_string hstring hl, Memory.length_read]
  case strncat =>
    intro n
    refine carriesOut ?_ (Slice.concludes_strncat hserves hdest hsrc)
      (Slice.restricts_strncat hrestricts n)
    rw [Plan.strncat, Plan.refused_appendText, Slice.length_bytes]

/-- The room before the longer string of `stringsApart`, and that string with its terminator. -/
def roomApart : Slice := ⟨⟨.first, 4088⟩, 6⟩

def textApart : Slice := ⟨⟨.second, 4094⟩, 4⟩

/-- The longer string is appended to the shorter one: the room is just enough. -/
theorem writers_carry_out_plans_stringsApart :
    (roomApart.Fits ∧ textApart.Fits ∧ Region.Apart roomApart.region textApart.region ∧
        StringAt stringsApart 4094 3) ∧
      CarriesOut (Slice.strcat · roomApart textApart.start)
        (Dispatch.new Cpu.Features.baseline Config.Overrides.empty).1.table ⟨stringsApart, []⟩
        roomApart textApart (.ok ⟨2, [99, 100, 101, 0], 5⟩) False := by
  have hdest : roomApart.Fits := ⟨by decide, by decide⟩
  have hsrc : textApart.Fits := ⟨by decide, by decide⟩
  have hapart : Region.Apart roomApart.region textApart.region := Region.apart_of_le (by decide)
  have hstring : StringAt stringsApart 4094 3 := ⟨by decide, by decide, by decide⟩
  have hcarries := (writers_carry_out_plans
    (Dispatch.new Cpu.Features.baseline Config.Overrides.empty).1 ⟨stringsApart, []⟩ hdest hsrc
    hapart).strcat 3 hstring (by decide)
  have hplan : Plan.strcat (roomApart.bytes stringsApart) (textApart.bytes stringsApart) =
      .ok ⟨2, [99, 100, 101, 0], 5⟩ := by rfl
  have hrefused : (0 ∉ roomApart.bytes stringsApart ∨ roomApart.length <
      (textOf (roomApart.bytes stringsApart)).length + 3 + 1) ↔ False := by decide
  refine ⟨⟨hdest, hsrc, hapart, hstring⟩, ?_⟩
  rw [← hplan, ← hrefused]
  exact hcarries

end ByteRoutines
