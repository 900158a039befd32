import ByteRoutines.Kernel.Lockstep
import ByteRoutines.Proofs.Kernel.Bounded
import ByteRoutines.Proofs.Kernel.Regime
import ByteRoutines.Proofs.Memory.Strings

/-!
# Where a comparison of strings is decided

`Decides m a b i` says that position `i` decides the comparison of the strings
at `a` and `b`: the first one ends there, or the two differ. Each kernel
answers the first such position among those it is given. A mask that was read
in parts may lack positions behind the first one, so all that is said of a
mask is that it `Settles` the matter.

Both strings are read with nothing but the page of a position known that the
comparison has reached (`MayCompare`): nothing before it was decisive. The
loops carry that as `IsFirst (Decides m a b) off none`.
-/

namespace ByteRoutines

/-- The comparison of two strings is decided at position `i`, unless it was before. -/
def Decides (m : Memory) (a b : Pointer) (i : Nat) : Prop :=
  m.get (a.address + i) = 0 ∨ m.get (a.address + i) ≠ m.get (b.address + i)

instance (m : Memory) (a b : Pointer) (i : Nat) : Decidable (Decides m a b i) :=
  inferInstanceAs (Decidable (_ ∨ _))

/-- In both strings the pages may be read of the positions below `n` that a comparison reaches. -/
def MayCompare (ok : Event → Prop) (m : Memory) (a b : Pointer) (n : Nat) : Prop :=
  ∀ i < n, IsFirst (Decides m a b) i none →
    Exec.MayLoadPage ok (a + i) ∧ Exec.MayLoadPage ok (b + i)

/-- Pages that nobody protects may all be read. -/
theorem mayCompare_anything (m : Memory) (a b : Pointer) (n : Nat) :
    MayCompare (fun _ => True) m a b n :=
  fun _ _ _ => ⟨fun _ _ _ _ => trivial, fun _ _ _ _ => trivial⟩

/-- The lowest set bit of the mask is the first position below `n` of which `p` holds. -/
structure Settles (mask : Mask) (p : Nat → Prop) (n : Nat) : Prop where
  below : ∀ i, mask.getLsbD i = true → i < n
  isFirst : IsFirst p n mask.firstSet?

theorem settles_of_marks {mask : Mask} {p : Nat → Prop} {n n' : Nat} (h : Marks mask p n')
    (hle : n' ≤ n) (hall : mask = 0 → n' = n) : Settles mask p n where
  below i hbit := by
    have hi := ((h i).mp hbit).1
    omega
  isFirst := by
    have hfirst := h.isFirst
    cases hset : mask.firstSet? with
    | none =>
      rw [hset, hall (firstSet?_eq_none_iff.mp hset)] at hfirst
      exact hfirst
    | some i =>
      rw [hset] at hfirst
      exact hfirst.of_some (Nat.lt_of_lt_of_le hfirst.1 hle)

/-- A mask for the positions from `off` on settles the matter if nothing before them is decisive
and something in it is. -/
theorem settles_shiftLeft {mask : Mask} {p : Nat → Prop} {off n n' : Nat}
    (h : Marks mask (fun i => p (off + i)) n') (hnone : IsFirst p off none) (hle : off + n' ≤ n)
    (hbits : off + n' ≤ 64) (hfound : mask ≠ 0) : Settles (mask <<< off) p n := by
  have hshift := h.shiftLeft hnone hbits
  refine settles_of_marks hshift hle fun hzero => absurd (h.eq_zero_iff.mpr fun i hi => ?_) hfound
  exact hshift.eq_zero_iff.mp hzero (off + i) (by omega)

/-- The comparison of two strings is decided where the shorter one ends, if not before. -/
theorem decides_of_strings {m : Memory} {a b : Pointer} {l l' : Nat}
    (ha : StringAt m a.address l) (hb : StringAt m b.address l') : Decides m a b (min l l') := by
  by_cases hle : l ≤ l'
  · rw [Nat.min_eq_left hle]
    exact Or.inl ha.ends
  · rw [Nat.min_eq_right (by omega)]
    refine Or.inr ?_
    rw [hb.ends]
    exact ha.inside l' (by omega)

theorem decides_add {m : Memory} {a b : Pointer} {off i : Nat} :
    Decides m (a + off) (b + off) i ↔ Decides m a b (off + i) := by
  simp only [Decides, Pointer.address_add, Nat.add_assoc]

/-- What is left of two strings may be compared where nothing before it was decisive. -/
theorem MayCompare.add {ok : Event → Prop} {m : Memory} {a b : Pointer} {n off n' : Nat}
    (may : MayCompare ok m a b n) (hnone : IsFirst (Decides m a b) off none)
    (hle : off + n' ≤ n) : MayCompare ok m (a + off) (b + off) n' := by
  intro i hi hbelow
  rw [Pointer.add_add, Pointer.add_add]
  exact may (off + i) (by omega) (hnone.append (hbelow.congr fun _ _ => decides_add))

namespace Kernel

open Exec RegisterKind

variable {ok : Event → Prop} {m : Memory} {k : RegisterKind} {a b : Pointer}
  {n length off done : Nat} {congruent : Bool}

theorem marks_decisiveMask {va vb : Register k}
    (hva : Shows (fun i => m.get (a.address + i)) length va)
    (hvb : Shows (fun i => m.get (b.address + i)) length vb) (hlength : length ≤ k.width) :
    Marks (decisiveMask k va vb length) (Decides m a b) length := by
  refine (((k.marks_zeroMask va).or (k.marks_neMask va vb)).low hlength).congr fun i hi => ?_
  rw [hva i hi, hvb i hi]
  exact Iff.rfl

/-- The masks of a whole register of each string. -/
theorem settles_decisiveMask {va vb : Register k}
    (hva : Shows (fun i => m.get (a.address + i)) k.width va)
    (hvb : Shows (fun i => m.get (b.address + i)) k.width vb) (hlength : length ≤ k.width) :
    Settles (decisiveMask k va vb length) (Decides m a b) length :=
  settles_of_marks (marks_decisiveMask (hva.take hlength) (hvb.take hlength) hlength)
    (Nat.le_refl _) fun _ => rfl

/-- A register that is read in parts, each of them within one page of each string. No part is a
whole register, since one of the strings leaves its page before the first register ends. -/
theorem answers_decideInParts (hlength : length ≤ k.width) (hdone : done ≤ length)
    (hsplit : done = 0 → roomInPage a.address < k.width ∨ roomInPage b.address < k.width)
    (hnone : IsFirst (Decides m a b) done none) (may : MayCompare ok m a b length) :
    Answers ok (decideInParts k a b length done) m fun mask =>
      Settles mask (Decides m a b) length := by
  induction hleft : length - done using Nat.strongRecOn generalizing done with
  | ind left ih =>
    rw [decideInParts]
    split
    · rename_i hlt
      dsimp only
      obtain ⟨hpageA, hpageB⟩ := may done hlt hnone
      have hroomA := roomInPage_pos (a.address + done)
      have hroomB := roomInPage_pos (b.address + done)
      obtain ⟨step, hstep⟩ : ∃ step, min (min (length - done) (roomInPage (a.address + done)))
        (roomInPage (b.address + done)) = step := ⟨_, rfl⟩
      have hwidth : step < k.width := by
        rcases Nat.eq_zero_or_pos done with rfl | hpos
        · have hroom := hsplit rfl
          simp only [Nat.add_zero] at hstep
          omega
        · omega
      have hinA : step ≤ roomInPage (a + done).address := by
        rw [Pointer.address_add]
        omega
      have hinB : step ≤ roomInPage (b + done).address := by
        rw [Pointer.address_add]
        omega
      rw [hstep]
      refine (answers_loadPartial hwidth ((hpageA _).take hinA)).bind fun va hva => ?_
      refine (answers_loadPartial hwidth ((hpageB _).take hinB)).bind fun vb hvb => ?_
      have hmarks : Marks (decisiveMask k va vb step) (fun i => Decides m a b (done + i)) step :=
        (marks_decisiveMask hva hvb (by omega)).congr fun _ _ => decides_add
      split
      · rename_i hfound
        have hbits := k.width_le
        exact answers_pure (settles_shiftLeft hmarks hnone (by omega) (by omega) hfound)
      · rename_i hzero
        have hpart := hmarks.eq_zero_iff.mp (Decidable.not_not.mp hzero)
        exact ih (length - (done + step)) (by omega) (by omega) (by omega)
          (hnone.append_none hpart) rfl
    · obtain rfl : done = length := by omega
      exact answers_pure (settles_of_marks (Marks.zero hnone) (Nat.le_refl _) fun _ => rfl)

/-- A chunk of at most a register, at any two addresses. -/
theorem answers_decideChunk (hpos : 0 < length) (hlength : length ≤ k.width)
    (may : MayCompare ok m a b length) :
    Answers ok (decideChunk k a b length) m fun mask => Settles mask (Decides m a b) length := by
  obtain ⟨hpageA, hpageB⟩ := may 0 hpos IsFirst.zero
  unfold decideChunk
  split
  · rename_i hroom
    rw [Bool.and_eq_true, decide_eq_true_eq, decide_eq_true_eq] at hroom
    refine (answers_load hroom.1 hpageA).bind fun va hva => ?_
    refine (answers_load hroom.2 hpageB).bind fun vb hvb => ?_
    exact answers_pure (settles_decisiveMask hva hvb hlength)
  · rename_i hroom
    rw [Bool.and_eq_true, decide_eq_true_eq, decide_eq_true_eq] at hroom
    exact answers_decideInParts hlength (Nat.zero_le _) (fun _ => by omega) IsFirst.zero may

/-- The same where the first string is aligned, and the second one if it is `congruent`. -/
theorem answers_decideAligned (hpos : 0 < length) (hlength : length ≤ k.width)
    (halign : a.address % k.width = 0) (hcongruent : congruent = true → b.address % k.width = 0)
    (may : MayCompare ok m a b length) :
    Answers ok (decideAligned k congruent a b length) m fun mask =>
      Settles mask (Decides m a b) length := by
  obtain ⟨hpageA, hpageB⟩ := may 0 hpos IsFirst.zero
  unfold decideAligned
  split
  · rename_i hboth
    refine (answers_loadAligned halign hpageA).bind fun va hva => ?_
    refine (answers_loadAligned (hcongruent hboth) hpageB).bind fun vb hvb => ?_
    exact answers_pure (settles_decisiveMask hva hvb hlength)
  · split
    · rename_i hroom
      refine (answers_loadAligned halign hpageA).bind fun va hva => ?_
      refine (answers_load hroom hpageB).bind fun vb hvb => ?_
      exact answers_pure (settles_decisiveMask hva hvb hlength)
    · exact answers_decideChunk hpos hlength may

/-- The loop over aligned registers of the first string, after nothing was found below `off`. -/
theorem answers_decideFrom (halign : (a.address + off) % k.width = 0)
    (hcongruent : congruent = true → (b.address + off) % k.width = 0)
    (hnone : IsFirst (Decides m a b) (min off n) none) (may : MayCompare ok m a b n) :
    Answers ok (decideFrom k congruent a b n off) m (IsFirst (Decides m a b) n) := by
  induction hleft : n - off using Nat.strongRecOn generalizing off with
  | ind left ih =>
    have hwidth := k.width_pos
    rw [decideFrom]
    split
    · rename_i hlt
      rw [Nat.min_eq_left (by omega)] at hnone
      refine (answers_decideAligned (by omega) (Nat.min_le_left _ _) halign hcongruent
        (may.add hnone (by omega))).bind fun mask hmask => ?_
      have hfirst := hnone.append (hmask.isFirst.congr fun _ _ => decides_add)
      cases hset : mask.firstSet? with
      | some i =>
        rw [hset] at hfirst
        exact answers_pure (hfirst.of_some (Nat.lt_of_lt_of_le hfirst.1 (by omega)))
      | none =>
        rw [hset, show off + min k.width (n - off) = min (off + k.width) n by omega] at hfirst
        refine ih (n - (off + k.width)) (by omega) ?_ (fun hboth => ?_) hfirst rfl
        · rw [← Nat.add_assoc]
          exact k.add_width_mod halign
        · rw [← Nat.add_assoc]
          exact k.add_width_mod (hcongruent hboth)
    · rw [Nat.min_eq_right (by omega)] at hnone
      exact answers_pure hnone

/-- **The search finds the position that decides**, whatever the alignment of the two strings. -/
theorem answers_decisivePosition (may : MayCompare ok m a b n) :
    Answers ok (decisivePosition k a b n) m (IsFirst (Decides m a b) n) := by
  unfold decisivePosition
  split
  · rename_i hzero
    rw [hzero]
    exact answers_pure IsFirst.zero
  · rename_i hn
    dsimp only
    have hcongruent : ∀ off, (a.address + off) % k.width = 0 →
        decide (a.address % k.width = b.address % k.width) = true →
        (b.address + off) % k.width = 0 := fun off hmod hboth =>
      add_mod_eq_zero_of_congruent (of_decide_eq_true hboth).symm hmod
    split
    · rename_i hhead
      have hpos := k.toBoundary_pos a.address
      refine (answers_decideChunk (by omega) (by omega) fun i hi hnone =>
        may i (by omega) hnone).bind fun mask hmask => ?_
      have hfirst := hmask.isFirst
      cases hset : mask.firstSet? with
      | some i =>
        rw [hset] at hfirst
        exact answers_pure (hfirst.of_some (Nat.lt_of_lt_of_le hfirst.1 (Nat.min_le_right _ _)))
      | none =>
        rw [hset] at hfirst
        have hmod := k.add_toBoundary_mod a.address
        exact answers_decideFrom hmod (hcongruent _ hmod) hfirst may
    · rename_i hhead
      have hmod : (a.address + 0) % k.width = 0 :=
        k.mod_eq_of_width_le_toBoundary (Nat.not_lt.mp hhead)
      have hnone : IsFirst (Decides m a b) (min 0 n) none := by
        rw [Nat.zero_min]
        exact IsFirst.zero
      exact answers_decideFrom hmod (hcongruent _ hmod) hnone may

theorem answers_strncmp (may : MayCompare ok m a b n) :
    Answers ok (strncmp k a b n) m fun value => ∃ found, IsFirst (Decides m a b) n found ∧
      value = differenceAt m a.address b.address found := by
  unfold strncmp
  refine (answers_decisivePosition may).bind fun found hfound => ?_
  cases found with
  | none => exact answers_pure ⟨none, hfound, rfl⟩
  | some i =>
    obtain ⟨hpageA, hpageB⟩ := may i hfound.1 hfound.2.2
    exact (answers_byteDifference hpageA.loadByte hpageB.loadByte).mono
      fun value hvalue => ⟨some i, hfound, hvalue⟩

/-- A comparison without a bound is decided where the two strings have addresses. -/
theorem answers_strcmp {i : Nat} (hdecides : Decides m a b i)
    (ha : a.address + i < addressSpace) (hb : b.address + i < addressSpace)
    (may : MayCompare ok m a b (i + 1)) :
    Answers ok (strcmp k a b) m fun value => ∃ found,
      IsFirst (Decides m a b) (i + 1) (some found) ∧
        value = differenceAt m a.address b.address (some found) := by
  have mayAll : MayCompare ok m a b maxLength := fun j _ hnone =>
    may j (Nat.lt_succ_of_le (Nat.not_lt.mp fun hlt => hnone i hlt hdecides)) hnone
  refine (answers_strncmp mayAll).mono ?_
  rintro value ⟨found, hfirst, hvalue⟩
  cases found with
  | some j => exact ⟨j, hfirst.of_holds hdecides, hvalue⟩
  | none =>
    -- The largest bound leaves out one position, which only strings at address 0 have.
    have hle : maxLength ≤ i := Nat.not_lt.mp fun hlt => hfirst i hlt hdecides
    simp only [maxLength, addressSpace] at hle ha hb
    have hsame : a.address = b.address := by omega
    refine ⟨i, ⟨Nat.lt_succ_self i, hdecides, fun j hj => hfirst j ?_⟩, ?_⟩
    · simp only [maxLength, addressSpace]
      omega
    · rw [hvalue, hsame, differenceAt, differenceAt, Int.sub_self]

end Kernel

end ByteRoutines
