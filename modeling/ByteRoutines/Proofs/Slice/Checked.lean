import ByteRoutines.Slice.Basic
import ByteRoutines.Proofs.Run

/-!
# Runs that may be refused

`Concludes y m post` says that `y`, run from memory `m`, ends without a fault,
refused or not, in an outcome and a memory of which `post` holds. A computation
is taken apart at its first step: at one that may itself be refused by
`Concludes.bind`, at one that may not by `concludes_bind`, and a refusal ends it
(`concludes_throw_bind`).
-/

namespace ByteRoutines

open Exec

variable {α β : Type} {x : Exec α} {y : Checked α} {f : α → Checked β} {m : Memory}

/-- Run from memory `m`, the computation ends, refused or not, in an outcome and a memory of which
`post` holds. -/
def Concludes (y : Checked α) (m : Memory) (post : Except Refusal α → Memory → Prop) : Prop :=
  Ends (fun _ => True) y.run m post

theorem concludes_pure {v : α} {post : Except Refusal α → Memory → Prop} (h : post (.ok v) m) :
    Concludes (pure v) m post := ends_pure h

theorem concludes_throw {refusal : Refusal} {post : Except Refusal α → Memory → Prop}
    (h : post (.error refusal) m) : Concludes (throw refusal) m post := ends_pure h

/-- What follows a computation that is not refused; a refusal is passed on. -/
theorem Concludes.bind {post : Except Refusal α → Memory → Prop}
    {post' : Except Refusal β → Memory → Prop} (hy : Concludes y m post)
    (hok : ∀ v m', post (.ok v) m' → Concludes (f v) m' post')
    (herror : ∀ refusal m', post (.error refusal) m' → post' (.error refusal) m') :
    Concludes (y >>= f) m post' := by
  rw [Concludes, ExceptT.run_bind]
  refine Ends.bind hy fun outcome m' hpost => ?_
  cases outcome with
  | ok v => exact hok v m' hpost
  | error refusal => exact ends_pure (herror refusal m' hpost)

theorem concludes_lift {post : Except Refusal α → Memory → Prop}
    (hx : Ends (fun _ => True) x m fun v m' => post (.ok v) m') :
    Concludes (liftM x : Checked α) m post :=
  Ends.bind hx fun _ _ hpost => ends_pure hpost

/-- A computation that cannot be refused, and what follows it. -/
theorem concludes_bind {post : α → Memory → Prop} {post' : Except Refusal β → Memory → Prop}
    (hx : Ends (fun _ => True) x m post)
    (hf : ∀ v m', post v m' → Concludes (f v) m' post') :
    Concludes ((liftM x : Checked α) >>= f) m post' := by
  have hlift : Concludes (liftM x) m fun outcome m' => ∃ v, outcome = .ok v ∧ post v m' :=
    concludes_lift (hx.mono fun v m' hpost => ⟨v, rfl, hpost⟩)
  refine hlift.bind ?_ ?_
  · rintro v m' ⟨_, ⟨⟩, hpost⟩
    exact hf v m' hpost
  · rintro refusal m' ⟨_, ⟨⟩, _⟩

/-- A refusal ends a computation. -/
theorem concludes_throw_bind {refusal : Refusal} {post : Except Refusal β → Memory → Prop}
    (h : post (.error refusal) m) : Concludes ((throw refusal : Checked α) >>= f) m post :=
  ends_pure h

/-! ### Sizes -/

variable {ok : Event → Prop} {a b : Nat}

theorem runs_addSize (h : a + b < addressSpace) : Runs ok (addSize a b) m (a + b) m := by
  rw [addSize, if_pos h]
  exact runs_pure _

theorem runs_subSize (h : b ≤ a) : Runs ok (subSize a b) m (a - b) m := by
  rw [subSize, if_pos h]
  exact runs_pure _

end ByteRoutines
