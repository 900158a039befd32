import ByteRoutines.Proofs.First
import ByteRoutines.Proofs.Memory.Transfer

/-!
# Strings in memory

`StringAt m a n` says that a string of `n` bytes stands at `a`: none of them
is zero, and the byte after them, its terminator, is and has an address. What
is left of a string is a string again (`StringAt.add`), and a zero byte lies
at the end or beyond it (`StringAt.le_of_zero`). Any zero byte ends a string
that starts before it, if not a shorter one (`exists_stringAt`).
-/

namespace ByteRoutines

/-- A string of `n` bytes stands at `a`, with its terminator at `a + n`. -/
structure StringAt (m : Memory) (a n : Nat) : Prop where
  fits : a + n < addressSpace
  ends : m.get (a + n) = 0
  inside : ∀ i < n, m.get (a + i) ≠ 0

namespace StringAt

variable {m m' : Memory} {a n n' i off : Nat}

theorem add (h : StringAt m a n) (hoff : off ≤ n) : StringAt m (a + off) (n - off) where
  fits := by
    have := h.fits
    omega
  ends := by
    rw [show a + off + (n - off) = a + n by omega]
    exact h.ends
  inside i hi := by
    rw [Nat.add_assoc]
    exact h.inside (off + i) (by omega)

theorem le_of_zero (h : StringAt m a n) (hzero : m.get (a + i) = 0) : n ≤ i :=
  Nat.not_lt.mp fun hlt => h.inside i hlt hzero

theorem eq_of_zero (h : StringAt m a n) (hi : i ≤ n) (hzero : m.get (a + i) = 0) : i = n :=
  Nat.le_antisymm hi (h.le_of_zero hzero)

theorem unique (h : StringAt m a n) (h' : StringAt m a n') : n = n' :=
  Nat.le_antisymm (h.le_of_zero h'.ends) (h'.le_of_zero h.ends)

/-- The bytes after the terminator do not matter. -/
theorem congr (h : StringAt m a n) (hagree : ∀ i ≤ n, m'.get (a + i) = m.get (a + i)) :
    StringAt m' a n where
  fits := h.fits
  ends := by
    rw [hagree n (Nat.le_refl n)]
    exact h.ends
  inside i hi := by
    rw [hagree i (by omega)]
    exact h.inside i hi

/-- A string that comes to stand at the terminator of another one continues it. -/
theorem append (h : StringAt m a n) (hkept : ∀ i < n, m'.get (a + i) = m.get (a + i))
    (hadded : StringAt m' (a + n) n') : StringAt m' a (n + n') where
  fits := by
    have := hadded.fits
    omega
  ends := by
    rw [← Nat.add_assoc]
    exact hadded.ends
  inside i hi := by
    by_cases hlt : i < n
    · rw [hkept i hlt]
      exact h.inside i hlt
    · obtain ⟨j, rfl⟩ : ∃ j, i = n + j := ⟨i - n, by omega⟩
      rw [← Nat.add_assoc]
      exact hadded.inside j (by omega)

end StringAt

/-- A string ends at the first zero byte. -/
theorem exists_stringAt {m : Memory} {a t : Nat} (hfits : a + t < addressSpace)
    (hzero : m.get (a + t) = 0) : ∃ n ≤ t, StringAt m a n := by
  obtain ⟨found, hfirst⟩ := IsFirst.exists_found (fun i => m.get (a + i) = 0) (t + 1)
  cases found with
  | none => exact absurd hzero (hfirst t (Nat.lt_succ_self t))
  | some n =>
    obtain ⟨hn, hends, hinside⟩ := hfirst
    exact ⟨n, Nat.le_of_lt_succ hn, by omega, hends, hinside⟩

/-- The pages of a string of `n` bytes and of its terminator may be read. -/
def MayLoadString (ok : Event → Prop) (p : Pointer) (n : Nat) : Prop :=
  ∀ i ≤ n, Exec.MayLoadPage ok (p + i)

theorem MayLoadString.page {ok : Event → Prop} {p : Pointer} {n : Nat}
    (h : MayLoadString ok p n) : Exec.MayLoadPage ok p := h 0 (Nat.zero_le n)

theorem MayLoadString.add {ok : Event → Prop} {p : Pointer} {n off : Nat}
    (h : MayLoadString ok p n) (hoff : off ≤ n) : MayLoadString ok (p + off) (n - off) := by
  intro i hi
  rw [Pointer.add_add]
  exact h (off + i) (by omega)

end ByteRoutines
