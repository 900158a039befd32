import ByteRoutines.Memory.Machine

/-!
# Runs

`Ends ok x m post` says that `x`, run from memory `m`, ends without a fault in
a value and a memory of which `post` holds, and that everything it does on the
way is `ok`. One statement thus speaks about the answer of a routine, about
the memory it leaves and about every access in between; a caller who only asks
for the answer takes an `ok` that holds of every event.

`Runs` is the case in which value and memory are known. `Ends.bind` and
`Runs.bind` take a computation apart at its first step, and the lemmas that
follow give the single steps: `runs_load`, `runs_store` and what is made of
one of them.
-/

namespace ByteRoutines.Exec

variable {α β : Type} {ok : Event → Prop} {x : Exec α} {f : α → Exec β} {m m' : Memory}

/-- From memory `m`, and whatever was done before, `x` ends in a value and a memory of which
`post` holds, and everything it does is `ok`. -/
def Ends (ok : Event → Prop) (x : Exec α) (m : Memory) (post : α → Memory → Prop) : Prop :=
  ∀ events, ∃ value m' done, x ⟨m, events⟩ = .ok value ⟨m', done ++ events⟩ ∧
    (∀ e ∈ done, ok e) ∧ post value m'

/-- `x` ends in this value and this memory. -/
def Runs (ok : Event → Prop) (x : Exec α) (m : Memory) (value : α) (m' : Memory) : Prop :=
  Ends ok x m fun v m'' => v = value ∧ m'' = m'

/-- `x` changes nothing and answers a value of which `post` holds. -/
def Answers (ok : Event → Prop) (x : Exec α) (m : Memory) (post : α → Prop) : Prop :=
  Ends ok x m fun v m' => m' = m ∧ post v

/-- What a first step makes of a machine, and what follows does from there. -/
theorem bind_apply (x : Exec α) (f : α → Exec β) (s : Machine) :
    (x >>= f) s = match x s with
      | .ok value s' => f value s'
      | .error fault s' => .error fault s' := by
  show EStateM.bind x f s = _
  rw [EStateM.bind]
  cases x s with
  | ok value s' => rfl
  | error fault s' => rfl

theorem Ends.mono {post post' : α → Memory → Prop} (h : Ends ok x m post)
    (himp : ∀ v m', post v m' → post' v m') : Ends ok x m post' := by
  intro events
  obtain ⟨v, m', done, hx, hok, hpost⟩ := h events
  exact ⟨v, m', done, hx, hok, himp v m' hpost⟩

theorem Ends.bind {post : α → Memory → Prop} {post' : β → Memory → Prop} (hx : Ends ok x m post)
    (hf : ∀ v m', post v m' → Ends ok (f v) m' post') : Ends ok (x >>= f) m post' := by
  intro events
  obtain ⟨v, m', done, hrun, hok, hpost⟩ := hx events
  obtain ⟨w, m'', done', hrun', hok', hpost'⟩ := hf v m' hpost (done ++ events)
  refine ⟨w, m'', done' ++ done, ?_, ?_, hpost'⟩
  · rw [bind_apply, hrun]
    simpa only [List.append_assoc] using hrun'
  · intro e he
    rcases List.mem_append.mp he with h | h
    · exact hok' e h
    · exact hok e h

theorem ends_pure {v : α} {post : α → Memory → Prop} (h : post v m) :
    Ends ok (pure v : Exec α) m post :=
  fun _ => ⟨v, m, [], rfl, by simp, h⟩

/-- A run that ends is an actual run of the machine. -/
theorem Ends.exists_run {s : Machine} {post : α → Memory → Prop} (h : Ends ok x s.memory post) :
    ∃ v s', x s = .ok v s' ∧ post v s'.memory := by
  obtain ⟨v, m', done, hx, _, hpost⟩ := h s.events
  exact ⟨v, ⟨m', done ++ s.events⟩, hx, hpost⟩

theorem runs_pure (v : α) : Runs ok (pure v : Exec α) m v m := ends_pure ⟨rfl, rfl⟩

theorem Runs.ends {v : α} {post : α → Memory → Prop} (h : Runs ok x m v m') (hpost : post v m') :
    Ends ok x m post :=
  h.mono fun _ _ ⟨hv, hm⟩ => by rw [hv, hm]; exact hpost

theorem Runs.bind {v : α} {post : β → Memory → Prop} (hx : Runs ok x m v m')
    (hf : Ends ok (f v) m' post) : Ends ok (x >>= f) m post :=
  Ends.bind hx fun _ _ ⟨hv, hm⟩ => by rw [hv, hm]; exact hf

theorem answers_pure {v : α} {post : α → Prop} (h : post v) : Answers ok (pure v : Exec α) m post :=
  ends_pure ⟨rfl, h⟩

theorem Answers.mono {post post' : α → Prop} (h : Answers ok x m post)
    (himp : ∀ v, post v → post' v) : Answers ok x m post' :=
  Ends.mono h fun v _ ⟨hm, hpost⟩ => ⟨hm, himp v hpost⟩

theorem Answers.bind {post : α → Prop} {post' : β → Memory → Prop} (hx : Answers ok x m post)
    (hf : ∀ v, post v → Ends ok (f v) m post') : Ends ok (x >>= f) m post' :=
  Ends.bind hx fun v _ ⟨hm, hpost⟩ => by rw [hm]; exact hf v hpost

/-- Run from `s`, `x` answers this value and leaves memory as it is. -/
def Returns (x : Exec α) (s : Machine) (value : α) : Prop :=
  ∃ s', x s = .ok value s' ∧ s'.memory = s.memory

theorem Answers.returns {s : Machine} {post : α → Prop} (h : Answers ok x s.memory post) :
    ∃ v, Returns x s v ∧ post v := by
  obtain ⟨v, s', hrun, hmem, hpost⟩ := h.exists_run
  exact ⟨v, ⟨s', hrun, hmem⟩, hpost⟩

theorem Returns.unique {s : Machine} {v w : α} (h : Returns x s v) (h' : Returns x s w) :
    v = w := by
  obtain ⟨_, hrun, _⟩ := h
  obtain ⟨_, hrun', _⟩ := h'
  cases hrun.symm.trans hrun'
  rfl

/-! ### Single steps -/

/-- An access in this mode may be made at this address. -/
def Aligned (mode : Mode) (p : Pointer) (length : Nat) : Prop :=
  mode.needsAlignment = true → p.address % length = 0

theorem aligned_of_not_needsAlignment {mode : Mode} {p : Pointer} {n : Nat}
    (h : mode.needsAlignment = false) : Aligned mode p n := by
  intro hneeds
  rw [h] at hneeds
  cases hneeds

theorem requireAligned_of_aligned {mode : Mode} {p : Pointer} {n : Nat} (h : Aligned mode p n) :
    requireAligned mode p n = pure () := by
  rw [requireAligned, if_neg]
  intro hbad
  obtain ⟨hneeds, hmod⟩ := Bool.and_eq_true_iff.mp hbad
  rw [h hneeds] at hmod
  cases hmod

theorem requireLength_of {holds : Bool} (h : holds = true) (n : Nat) :
    requireLength holds n = pure () := by
  rw [requireLength, if_pos h]

theorem runs_load {mode : Mode} {p : Pointer} {n : Nat} (halign : Aligned mode p n)
    (hok : ok (.load mode p n)) : Runs ok (load mode p n) m (m.read p.address n) m := by
  intro events
  refine ⟨_, _, [.load mode p n], ?_, by simpa using hok, rfl, rfl⟩
  rw [load, requireAligned_of_aligned halign]
  rfl

theorem runs_store {mode : Mode} {p : Pointer} {n : Nat} {bytes : Bytes n}
    (halign : Aligned mode p n) (hok : ok (.store mode p n)) :
    Runs ok (store mode p bytes) m () (m.write p.address bytes.toList) := by
  intro events
  refine ⟨_, _, [.store mode p n], ?_, by simpa using hok, rfl, rfl⟩
  rw [store, requireAligned_of_aligned halign]
  rfl

theorem runs_loadByte {p : Pointer} (hok : ok (.load .plain p 1)) :
    Runs ok (loadByte p) m (m.get p.address) m := by
  refine (runs_load (aligned_of_not_needsAlignment rfl) hok).bind ?_
  refine (runs_pure _).ends ⟨?_, rfl⟩
  simp

theorem runs_prefetch {p : Pointer} (hok : ok (.prefetch p)) : Runs ok (prefetch p) m () m :=
  fun _ => ⟨(), m, [.prefetch p], rfl, by simpa using hok, rfl, rfl⟩

theorem runs_fence (hok : ok .fence) : Runs ok fence m () m :=
  fun _ => ⟨(), m, [.fence], rfl, by simpa using hok, rfl, rfl⟩

end ByteRoutines.Exec
