import Mathlib.Data.List.Forall2

/-!
# Exact readings

A reading of a text answers a value or an error. `Reads x accepts refuses` says
of which values and of which errors: those that `accepts` and `refuses` allow,
and no others. So a grammar is stated as two relations, one for what is
accepted and one for what is wrong with all else.

It is enough that each relation determines the answer and that one of the two
holds (`Reads.of_total`). Steps that are exact make an exact reading
(`Reads.bind`); a list of texts is read from its front, and the first one that
is refused counts (`reads_mapM`).
-/

namespace ByteRoutines.Text

variable {α β ε : Type} {x : Except ε α} {accepts : α → Prop} {refuses : ε → Prop}

/-- The answer is a value just where `accepts` says so, and an error just where `refuses` does. -/
structure Reads (x : Except ε α) (accepts : α → Prop) (refuses : ε → Prop) : Prop where
  ok_iff : ∀ v, x = .ok v ↔ accepts v
  error_iff : ∀ e, x = .error e ↔ refuses e

namespace Reads

theorem of_total (hok : ∀ v, accepts v → x = .ok v) (herror : ∀ e, refuses e → x = .error e)
    (htotal : (∃ v, accepts v) ∨ ∃ e, refuses e) : Reads x accepts refuses := by
  constructor
  · intro v
    refine ⟨fun hx => ?_, hok v⟩
    rcases htotal with ⟨w, hw⟩ | ⟨e, he⟩
    · cases hx.symm.trans (hok w hw)
      exact hw
    · cases hx.symm.trans (herror e he)
  · intro e
    refine ⟨fun hx => ?_, herror e⟩
    rcases htotal with ⟨w, hw⟩ | ⟨e', he'⟩
    · cases hx.symm.trans (hok w hw)
    · cases hx.symm.trans (herror e' he')
      exact he'

theorem total (h : Reads x accepts refuses) : (∃ v, accepts v) ∨ ∃ e, refuses e := by
  cases hx : x with
  | ok v => exact Or.inl ⟨v, (h.ok_iff v).mp hx⟩
  | error e => exact Or.inr ⟨e, (h.error_iff e).mp hx⟩

theorem congr {accepts' : α → Prop} {refuses' : ε → Prop} (h : Reads x accepts refuses)
    (hok : ∀ v, accepts v ↔ accepts' v) (herror : ∀ e, refuses e ↔ refuses' e) :
    Reads x accepts' refuses' where
  ok_iff v := (h.ok_iff v).trans (hok v)
  error_iff e := (h.error_iff e).trans (herror e)

/-- What follows an exact reading is told the value that was read. -/
theorem bind {f : α → Except ε β} {accepts' : α → β → Prop} {refuses' : α → ε → Prop}
    (hx : Reads x accepts refuses)
    (hf : ∀ v, accepts v → Reads (f v) (accepts' v) (refuses' v)) :
    Reads (x >>= f) (fun w => ∃ v, accepts v ∧ accepts' v w)
      (fun e => refuses e ∨ ∃ v, accepts v ∧ refuses' v e) := by
  refine of_total ?_ ?_ ?_
  · rintro w ⟨v, hv, hw⟩
    rw [(hx.ok_iff v).mpr hv]
    exact ((hf v hv).ok_iff w).mpr hw
  · rintro e (he | ⟨v, hv, he⟩)
    · rw [(hx.error_iff e).mpr he]
      rfl
    · rw [(hx.ok_iff v).mpr hv]
      exact ((hf v hv).error_iff e).mpr he
  · rcases hx.total with ⟨v, hv⟩ | ⟨e, he⟩
    · rcases (hf v hv).total with ⟨w, hw⟩ | ⟨e, he⟩
      · exact Or.inl ⟨w, v, hv, hw⟩
      · exact Or.inr ⟨e, Or.inr ⟨v, hv, he⟩⟩
    · exact Or.inr ⟨e, Or.inl he⟩

/-- A value that is computed from what was read. -/
theorem map {f : α → β} (h : Reads x accepts refuses) :
    Reads (x >>= fun v => pure (f v)) (fun w => ∃ v, accepts v ∧ w = f v) refuses := by
  have hpure : ∀ v, accepts v → Reads (pure (f v) : Except ε β) (· = f v) (fun _ => False) :=
    fun v _ => of_total (fun w hw => by rw [hw]; rfl) (fun _ he => he.elim) (Or.inl ⟨f v, rfl⟩)
  exact (h.bind hpure).congr (fun _ => Iff.rfl) fun e => by simp

end Reads

/-- Something in the list is refused, for this reason, and all before it is accepted. -/
def FirstRefused (accepts : α → β → Prop) (refuses : α → ε → Prop) (xs : List α) (e : ε) : Prop :=
  ∃ front a rest, xs = front ++ a :: rest ∧ (∀ b ∈ front, ∃ v, accepts b v) ∧ refuses a e

/-- Each of a list is accepted, as one list of values. -/
theorem exists_forall₂_iff {accepts : α → β → Prop} {xs : List α} :
    (∃ ys, List.Forall₂ accepts xs ys) ↔ ∀ a ∈ xs, ∃ v, accepts a v := by
  induction xs with
  | nil => exact ⟨fun _ _ ha => absurd ha List.not_mem_nil, fun _ => ⟨[], .nil⟩⟩
  | cons a rest ih =>
    rw [List.forall_mem_cons, ← ih]
    constructor
    · rintro ⟨_, hall⟩
      cases hall with
      | cons hhead htail => exact ⟨⟨_, hhead⟩, ⟨_, htail⟩⟩
    · rintro ⟨⟨v, hhead⟩, ys, htail⟩
      exact ⟨v :: ys, .cons hhead htail⟩

/-- A list is read from its front. -/
theorem reads_mapM {f : α → Except ε β} {accepts : α → β → Prop} {refuses : α → ε → Prop}
    (h : ∀ a, Reads (f a) (accepts a) (refuses a)) (xs : List α) :
    Reads (xs.mapM f) (List.Forall₂ accepts xs) (FirstRefused accepts refuses xs) := by
  refine Reads.of_total ?_ ?_ ?_
  · intro ys hys
    induction hys with
    | nil => rfl
    | cons hhead _ ih =>
      rw [List.mapM_cons, ((h _).ok_iff _).mpr hhead, ih]
      rfl
  · rintro e ⟨front, a, rest, rfl, hfront, ha⟩
    induction front with
    | nil =>
      rw [List.nil_append, List.mapM_cons, ((h a).error_iff e).mpr ha]
      rfl
    | cons b front ih =>
      obtain ⟨v, hv⟩ := hfront b List.mem_cons_self
      rw [List.cons_append, List.mapM_cons, ((h b).ok_iff v).mpr hv,
        ih fun c hc => hfront c (List.mem_cons_of_mem b hc)]
      rfl
  · induction xs with
    | nil => exact Or.inl ⟨[], .nil⟩
    | cons a rest ih =>
      rcases (h a).total with ⟨v, hv⟩ | ⟨e, he⟩
      · rcases ih with ⟨ys, hys⟩ | ⟨e, front, b, rest, rfl, hfront, hb⟩
        · exact Or.inl ⟨v :: ys, .cons hv hys⟩
        · refine Or.inr ⟨e, a :: front, b, rest, rfl, ?_, hb⟩
          rintro c hc
          rcases List.mem_cons.mp hc with rfl | hc
          · exact ⟨v, hv⟩
          · exact hfront c hc
      · exact Or.inr ⟨e, [], a, rest, rfl, by simp, he⟩

end ByteRoutines.Text
