import ByteRoutines.Slice.Write
import ByteRoutines.Proofs.Slice.Contract

/-!
# Wrappers that stay within their slices

The confined table stops at each call that does not lie within the buffer and
the source. It serves them as the table does that it is made from
(`serves_confined`), and where one of its routines ends, that of the other
table ends in the same way (`confined_restricts`).

The wrappers pass this on: a wrapper that ends over the confined table ends in
the same way over the table itself, and has made no call outside the two
slices.
-/

namespace ByteRoutines

open Exec Kernel

variable {α β : Type}

/-! ### Runs that may stop earlier -/

/-- Wherever `x` ends, `y` ends in the same way. -/
def Exec.Restricts (x y : Exec α) : Prop :=
  ∀ s value s', x s = .ok value s' → y s = .ok value s'

namespace Exec

theorem Restricts.refl (x : Exec α) : Restricts x x := fun _ _ _ hrun => hrun

theorem Restricts.bind {x y : Exec α} {f g : α → Exec β} (h : Restricts x y)
    (hfg : ∀ v, Restricts (f v) (g v)) : Restricts (x >>= f) (y >>= g) := by
  intro s value s' hrun
  rw [bind_apply] at hrun ⊢
  cases hx : x s with
  | ok v s₁ =>
    rw [hx] at hrun
    rw [h s v s₁ hx]
    exact hfg v s₁ value s' hrun
  | error fault s₁ =>
    rw [hx] at hrun
    cases hrun

/-- A guard stops here. The fault is only a way not to end, and no scan has reached the last
address: what is said of guarded runs is said of those that end, so it does not depend on the fault
(`restricts_halt`). -/
def halt : Exec α := throw .addressSpaceEnd

theorem restricts_halt (y : Exec α) : Restricts halt y := by
  intro s value s' hrun
  cases hrun

open Classical in
/-- Runs `x` if the memory is as the condition says, and halts otherwise. -/
noncomputable def provided (condition : Memory → Prop) (x : Exec α) : Exec α :=
  fun s => if condition s.memory then x s else halt s

theorem Ends.provided {ok : Event → Prop} {condition : Memory → Prop} {x : Exec α}
    {m : Memory} {post : α → Memory → Prop} (h : Ends ok x m post) (hcondition : condition m) :
    Ends ok (provided condition x) m post := by
  intro events
  obtain ⟨v, m', done, hrun, hok, hpost⟩ := h events
  exact ⟨v, m', done, (if_pos hcondition).trans hrun, hok, hpost⟩

theorem restricts_provided (condition : Memory → Prop) (x : Exec α) :
    Restricts (provided condition x) x := by
  intro s value s' hrun
  rw [provided] at hrun
  split at hrun
  · exact hrun
  · cases hrun

end Exec

/-- The same for computations that may be refused. -/
theorem restricts_bind {y z : Checked α} {f g : α → Checked β} (h : Restricts y.run z.run)
    (hfg : ∀ v, Restricts (f v).run (g v).run) : Restricts (y >>= f).run (z >>= g).run := by
  rw [ExceptT.run_bind, ExceptT.run_bind]
  refine h.bind fun outcome => ?_
  cases outcome with
  | ok v => exact hfg v
  | error refusal => exact Restricts.refl _

theorem restricts_lift {x y : Exec α} (h : Restricts x y) :
    Restricts (liftM x : Checked α).run (liftM y : Checked α).run :=
  h.bind fun _ => Restricts.refl _

/-! ### Tables -/

/-- `q` holds of any run of the one routine and the run of the other with the same arguments. -/
def Operation.EachRun (q : (α : Type) → Exec α → Exec α → Prop) :
    (op : Operation) → op.Routine → op.Routine → Prop
  | memcpy, run, run' | mempcpy, run, run' | memmove, run, run' | strncpy, run, run'
  | strncat, run, run' => ∀ dst src n, q Pointer (run dst src n) (run' dst src n)
  | memset, run, run' => ∀ dst value n, q Pointer (run dst value n) (run' dst value n)
  | memcmp, run, run' | strncmp, run, run' => ∀ a b n, q Int (run a b n) (run' a b n)
  | memchr, run, run' => ∀ p byte n, q (Option Pointer) (run p byte n) (run' p byte n)
  | strcpy, run, run' | strcat, run, run' => ∀ dst src, q Pointer (run dst src) (run' dst src)
  | strcmp, run, run' => ∀ a b, q Int (run a b) (run' a b)
  | strstr, run, run' =>
    ∀ haystack needle, q (Option Pointer) (run haystack needle) (run' haystack needle)
  | strlen, run, run' => ∀ p, q Nat (run p) (run' p)
  | strchr, run, run' => ∀ p byte, q (Option Pointer) (run p byte) (run' p byte)

/-- Wherever a routine of the one table ends, that of the other ends in the same way. -/
def RoutineTable.Restricts (table table' : RoutineTable) : Prop :=
  ∀ op : Operation, op.EachRun (fun _ => Exec.Restricts) (table op) (table' op)

/-- The table that halts at each call that does not write within `dest` and read within `dest` or
`src`; a string is read up to its terminator. The last operations always halt: no wrapper that
writes calls them. -/
noncomputable def RoutineTable.confined (table : RoutineTable) (dest src : Region) : RoutineTable
  | .memcpy => fun d p n => provided
      (fun _ => Region.Inside ⟨d.address, n⟩ dest ∧ Region.Inside ⟨p.address, n⟩ src)
      (table .memcpy d p n)
  | .memmove => fun d p n => provided
      (fun _ => Region.Inside ⟨d.address, n⟩ dest ∧ Region.Inside ⟨p.address, n⟩ dest)
      (table .memmove d p n)
  | .memset => fun d byte n => provided (fun _ => Region.Inside ⟨d.address, n⟩ dest)
      (table .memset d byte n)
  | .memchr => fun p byte n => provided
      (fun _ => Region.Inside ⟨p.address, n⟩ dest ∨ Region.Inside ⟨p.address, n⟩ src)
      (table .memchr p byte n)
  | .strlen => fun p => provided
      (fun m => ∃ l, StringAt m p.address l ∧ Region.Inside ⟨p.address, l + 1⟩ src)
      (table .strlen p)
  | .strcpy => fun d p => provided
      (fun m => ∃ l, StringAt m p.address l ∧ Region.Inside ⟨d.address, l + 1⟩ dest ∧
        Region.Inside ⟨p.address, l + 1⟩ src)
      (table .strcpy d p)
  | .strncpy => fun d p n => provided
      (fun _ => Region.Inside ⟨d.address, n⟩ dest ∧ Region.Inside ⟨p.address, n⟩ src)
      (table .strncpy d p n)
  | .strcat => fun d p => provided
      (fun m => ∃ l l', StringAt m d.address l ∧ StringAt m p.address l' ∧
        Region.Inside ⟨d.address, l + l' + 1⟩ dest ∧ Region.Inside ⟨p.address, l' + 1⟩ src)
      (table .strcat d p)
  | .strncat => fun d p n => provided
      (fun m => ∃ l found, StringAt m d.address l ∧ IsFirst (ZeroAt m p) n found ∧
        Region.Inside ⟨d.address, l + found.getD n + 1⟩ dest ∧ Region.Inside ⟨p.address, n⟩ src)
      (table .strncat d p n)
  | .mempcpy => fun _ _ _ => halt
  | .memcmp | .strncmp => fun _ _ _ => halt
  | .strcmp => fun _ _ => halt
  | .strstr => fun _ _ => halt
  | .strchr => fun _ _ => halt

theorem confined_restricts (table : RoutineTable) (dest src : Region) :
    (table.confined dest src).Restricts table := by
  intro op
  cases op with
  | mempcpy | memcmp | strncmp => exact fun _ _ _ => restricts_halt _
  | strcmp | strstr | strchr => exact fun _ _ => restricts_halt _
  | _ =>
    simp only [Operation.EachRun, RoutineTable.confined]
    intros
    exact restricts_provided _ _

theorem serves_confined {table : RoutineTable} {dest src : Region} (h : table.Serves dest src) :
    (table.confined dest src).Serves dest src where
  memcpy m d p n hd hp := by
    rw [RoutineTable.confined]
    exact (h.memcpy m d p n hd hp).provided ⟨hd, hp⟩
  memmove m d p n hd hp := by
    rw [RoutineTable.confined]
    exact (h.memmove m d p n hd hp).provided ⟨hd, hp⟩
  memset m d byte n hd := by
    rw [RoutineTable.confined]
    exact (h.memset m d byte n hd).provided hd
  memchr m p byte n hp := by
    rw [RoutineTable.confined]
    exact (h.memchr m p byte n hp).provided hp
  strlen m p l hstring hp := by
    rw [RoutineTable.confined]
    exact (h.strlen m p l hstring hp).provided ⟨l, hstring, hp⟩
  strcpy m d p l hstring hd hp := by
    rw [RoutineTable.confined]
    exact (h.strcpy m d p l hstring hd hp).provided ⟨l, hstring, hd, hp⟩
  strncpy m d p n found hfirst hd hp := by
    rw [RoutineTable.confined]
    exact (h.strncpy m d p n found hfirst hd hp).provided ⟨hd, hp⟩
  strcat m d p l l' hold hstring hd hp := by
    rw [RoutineTable.confined]
    exact (h.strcat m d p l l' hold hstring hd hp).provided ⟨l, l', hold, hstring, hd, hp⟩
  strncat m d p n l found hold hfirst hd hp := by
    rw [RoutineTable.confined]
    exact (h.strncat m d p n l found hold hfirst hd hp).provided ⟨l, found, hold, hfirst, hd, hp⟩

/-! ### Wrappers -/

namespace Slice

variable {table table' : RoutineTable} {dest src s : Slice}

theorem restricts_memchr (h : table.Restricts table') (byte : UInt8) :
    Restricts (memchr table s byte) (memchr table' s byte) :=
  (h .memchr _ _ _).bind fun _ => Restricts.refl _

theorem restricts_stringLength (h : table.Restricts table') :
    Restricts (stringLength table s) (stringLength table' s) :=
  (restricts_memchr h 0).bind fun _ => Restricts.refl _

theorem restricts_memcpy (h : table.Restricts table') :
    Restricts (memcpy table dest src).run (memcpy table' dest src).run := by
  unfold memcpy
  split
  · exact Restricts.refl _
  · exact restricts_bind (restricts_lift (h .memcpy _ _ _)) fun _ => Restricts.refl _

theorem restricts_memmove (h : table.Restricts table') (start stop position : Nat) :
    Restricts (memmove table dest start stop position).run
      (memmove table' dest start stop position).run := by
  unfold memmove
  split
  · exact Restricts.refl _
  · refine restricts_bind (Restricts.refl _) fun n => ?_
    refine restricts_bind (Restricts.refl _) fun room => ?_
    split
    · exact Restricts.refl _
    · exact restricts_bind (restricts_lift (h .memmove _ _ _)) fun _ => Restricts.refl _

theorem restricts_strcpy (h : table.Restricts table') (p : Pointer) :
    Restricts (strcpy table dest p).run (strcpy table' dest p).run := by
  refine restricts_bind (restricts_lift (h .strlen p)) fun length => ?_
  split
  · exact Restricts.refl _
  · exact restricts_bind (restricts_lift (h .strcpy _ _)) fun _ => Restricts.refl _

theorem restricts_strncpy (h : table.Restricts table') (n : Nat) :
    Restricts (strncpy table dest src n).run (strncpy table' dest src n).run := by
  unfold strncpy
  split
  · exact Restricts.refl _
  · refine restricts_bind (restricts_lift (h .strncpy _ _ _)) fun _ => ?_
    split
    · refine restricts_bind (Restricts.refl _) fun rest => ?_
      refine restricts_bind (restricts_lift (h .memset _ _ _)) fun _ => ?_
      exact restricts_lift (restricts_stringLength h)
    · exact restricts_lift (restricts_stringLength h)

theorem restricts_strcat (h : table.Restricts table') (p : Pointer) :
    Restricts (strcat table dest p).run (strcat table' dest p).run := by
  refine restricts_bind (restricts_lift (restricts_memchr h 0)) fun found => ?_
  cases found with
  | none => exact Restricts.refl _
  | some length =>
    refine restricts_bind (restricts_lift (h .strlen p)) fun added => ?_
    refine restricts_bind (Restricts.refl _) fun total => ?_
    exact restricts_bind (restricts_lift (h .strcat _ _)) fun _ => Restricts.refl _

theorem restricts_strncat (h : table.Restricts table') (n : Nat) :
    Restricts (strncat table dest src n).run (strncat table' dest src n).run := by
  refine restricts_bind (restricts_lift (restricts_memchr h 0)) fun found => ?_
  cases found with
  | none => exact Restricts.refl _
  | some length =>
    refine restricts_bind (restricts_lift (restricts_stringLength h)) fun added => ?_
    refine restricts_bind (Restricts.refl _) fun total => ?_
    exact restricts_bind (restricts_lift (h .strncat _ _ _)) fun _ => Restricts.refl _

end Slice

end ByteRoutines
