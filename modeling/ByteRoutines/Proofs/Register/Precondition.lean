import ByteRoutines.Proofs.Register.Access

/-!
# Preconditions of instructions

An instruction that needs an aligned address, or that serves only some
lengths, checks so before it does anything else. `ChecksPreconditions` says
that these checks are exact: of the instructions of a register, each stops with
a misuse if and only if its precondition does not hold. A misuse anywhere in a
routine is a misuse of the routine (`misuses_bind_iff`), so a routine that has
none has used every instruction that it came to as it may be used.

`EndsOr faults x post` says of all machines at once that `x` ends, or stops with
a fault out of `faults`. Where a computation ends in any memory, whatever it may
do there, it has no fault at all (`endsOr_of_ends`).
-/

namespace ByteRoutines

/-- An instruction is used outside its precondition. -/
def Fault.IsMisuse : Fault → Prop
  | misaligned _ _ | lengthOutOfRange _ => True
  | addressSpaceEnd | sizeOverflow => False

namespace Exec

variable {α β : Type} {x : Exec α} {f : α → Exec β} {s : Machine} {faults : Fault → Prop}

/-- Run from `s`, `x` stops because it uses an instruction outside its precondition. -/
def Misuses (x : Exec α) (s : Machine) : Prop :=
  ∃ fault s', x s = .error fault s' ∧ fault.IsMisuse

/-- **A misuse in a part is a misuse of the whole**, and there is no other. -/
theorem misuses_bind_iff : Misuses (x >>= f) s ↔
    Misuses x s ∨ ∃ value s', x s = .ok value s' ∧ Misuses (f value) s' := by
  rw [Misuses, bind_apply]
  cases hx : x s with
  | ok value s' =>
    constructor
    · intro hlater
      exact Or.inr ⟨value, s', rfl, hlater⟩
    · rintro (⟨fault, s'', hfault, _⟩ | ⟨value', s'', heq, hlater⟩)
      · rw [hx] at hfault
        cases hfault
      · cases heq
        exact hlater
  | error fault s' =>
    constructor
    · rintro ⟨fault', s'', heq, hmisuse⟩
      cases heq
      exact Or.inl ⟨fault, s', hx, hmisuse⟩
    · rintro (⟨fault', s'', hfault, hmisuse⟩ | ⟨value, s'', heq, _⟩)
      · rw [hx] at hfault
        cases hfault
        exact ⟨fault, s', rfl, hmisuse⟩
      · cases heq

theorem Ends.not_misuses {post : α → Memory → Prop}
    (h : Ends (fun _ => True) x s.memory post) : ¬ Misuses x s := by
  rintro ⟨fault, s', hfault, _⟩
  obtain ⟨value, s'', hrun, _⟩ := h.exists_run
  rw [hrun] at hfault
  cases hfault

/-! ### Ending without a misuse -/

/-- From any machine, `x` ends in a value of which `post` holds, or stops with a fault out of
`faults`. -/
def EndsOr (faults : Fault → Prop) (x : Exec α) (post : α → Prop) : Prop :=
  ∀ s, match x s with
    | .ok value _ => post value
    | .error fault _ => faults fault

theorem EndsOr.bind {post : α → Prop} {post' : β → Prop} (hx : EndsOr faults x post)
    (hf : ∀ value, post value → EndsOr faults (f value) post') :
    EndsOr faults (x >>= f) post' := by
  intro s
  have hs := hx s
  rw [bind_apply]
  cases hrun : x s with
  | ok value s' =>
    rw [hrun] at hs
    exact hf value hs s'
  | error fault s' =>
    rw [hrun] at hs
    exact hs

theorem endsOr_pure {value : α} {post : α → Prop} (h : post value) :
    EndsOr faults (pure value : Exec α) post :=
  fun _ => h

/-- What a computation ends with may be turned into an answer in any way. -/
theorem EndsOr.bind_pure {post : α → Prop} {answer : α → β} (hx : EndsOr faults x post) :
    EndsOr faults (x >>= fun value => pure (answer value)) fun _ => True :=
  hx.bind fun _ _ => endsOr_pure trivial

theorem endsOr_throw {fault : Fault} {post : α → Prop} (h : faults fault) :
    EndsOr faults (throw fault : Exec α) post :=
  fun _ => h

/-- What ends in any memory, if it may do anything there, stops with no fault. -/
theorem endsOr_post_of_ends {post : Memory → α → Memory → Prop} {post' : α → Prop}
    (h : ∀ m, Ends (fun _ => True) x m (post m))
    (himp : ∀ m value m', post m value m' → post' value) : EndsOr faults x post' := by
  intro s
  obtain ⟨value, s', hrun, hpost⟩ := (h s.memory).exists_run
  rw [hrun]
  exact himp s.memory value s'.memory hpost

theorem endsOr_of_ends {post : Memory → α → Memory → Prop}
    (h : ∀ m, Ends (fun _ => True) x m (post m)) : EndsOr faults x fun _ => True :=
  endsOr_post_of_ends h fun _ _ _ _ => trivial

theorem EndsOr.error {post : α → Prop} (h : EndsOr faults x post) {fault : Fault} {s' : Machine}
    (hrun : x s = .error fault s') : faults fault := by
  have hs := h s
  rw [hrun] at hs
  exact hs

/-! ### The checks -/

theorem misuses_requireAligned_bind {mode : Mode} {p : Pointer} {n : Nat} {f : Unit → Exec β}
    (hends : Aligned mode p n → ¬ Misuses (requireAligned mode p n >>= f) s) :
    Misuses (requireAligned mode p n >>= f) s ↔ ¬ Aligned mode p n := by
  constructor
  · intro hmisuse halign
    exact hends halign hmisuse
  · intro halign
    have hbad : (mode.needsAlignment && p.address % n != 0) = true := by
      rw [Bool.and_eq_true, bne_iff_ne]
      exact Decidable.not_imp_iff_and_not.mp halign
    refine misuses_bind_iff.mpr (Or.inl ⟨.misaligned p n, s, ?_, trivial⟩)
    rw [requireAligned, if_pos hbad]
    rfl

theorem misuses_requireLength_bind {serves : Prop} [Decidable serves] {n : Nat} {f : Unit → Exec β}
    (hends : serves → ¬ Misuses (requireLength serves n >>= f) s) :
    Misuses (requireLength serves n >>= f) s ↔ ¬ serves := by
  constructor
  · intro hmisuse hserves
    exact hends hserves hmisuse
  · intro hserves
    refine misuses_bind_iff.mpr (Or.inl ⟨.lengthOutOfRange n, s, ?_, trivial⟩)
    rw [requireLength, if_neg (by rwa [decide_eq_true_eq])]
    rfl

end Exec

open Exec

/-- Each instruction of a register stops with a misuse if, and only if, its precondition does not
hold: the address of an aligned or streaming access is a multiple of the width (`loadAligned`,
`storeAligned` and `storeStream` are loads and stores in these modes), and a part has a length that
the instruction serves. -/
structure ChecksPreconditions (k : RegisterKind) : Prop where
  load : ∀ mode p s, Misuses (Exec.load mode p k.width) s ↔ ¬ Aligned mode p k.width
  store : ∀ mode p (v : Register k) s, Misuses (Exec.store mode p v) s ↔ ¬ Aligned mode p k.width
  loadPartial : ∀ p n s, Misuses (k.loadPartial p n) s ↔ ¬ n < k.width
  storePartial : ∀ p v n s, Misuses (k.storePartial p v n) s ↔ ¬ n < k.width
  storePrefix : ∀ p v n s, Misuses (k.storePrefix p v n) s ↔ ¬ (1 ≤ n ∧ n ≤ k.width)
  copyShort : ∀ dst src n s, Misuses (k.copyShort dst src n) s ↔ ¬ n < k.width
  setShort : ∀ dst value n s, Misuses (k.setShort dst value n) s ↔ ¬ n < k.width

theorem checksPreconditions (k : RegisterKind) : ChecksPreconditions k where
  load mode p s := by
    apply misuses_requireAligned_bind
    intro halign
    exact (runs_load halign trivial).not_misuses
  store mode p v s := by
    apply misuses_requireAligned_bind
    intro halign
    exact (runs_store halign trivial).not_misuses
  loadPartial p n s := by
    apply misuses_requireLength_bind
    intro hn
    exact (RegisterKind.answers_loadPartial hn fun _ _ _ => trivial).not_misuses
  storePartial p v n s := by
    apply misuses_requireLength_bind
    intro hn
    exact (RegisterKind.ends_storePartial hn (fun _ _ => rfl) fun _ _ _ => trivial).not_misuses
  storePrefix p v n s := by
    have hends : 1 ≤ n ∧ n ≤ k.width → ¬ Misuses (k.storePrefix p v n) s := by
      rintro ⟨hpos, hn⟩
      exact (RegisterKind.ends_storePrefix hpos hn (fun _ _ => rfl)
        fun _ _ _ _ => trivial).not_misuses
    rw [RegisterKind.storePrefix, ← Bool.decide_and] at hends ⊢
    exact misuses_requireLength_bind hends
  copyShort dst src n s := by
    apply misuses_requireLength_bind
    intro hn
    exact (RegisterKind.ends_copyShort hn (fun _ _ _ => trivial)
      fun _ _ _ => trivial).not_misuses
  setShort dst value n s := by
    apply misuses_requireLength_bind
    intro hn
    exact (RegisterKind.ends_setShort hn fun _ _ _ => trivial).not_misuses

end ByteRoutines
