import ByteRoutines.Kernel.Scan
import ByteRoutines.Proofs.Kernel.Bounded
import ByteRoutines.Proofs.Memory.Strings

/-!
# Scans find the first byte that ends them

`stop.EndsAt m s i` says that the byte at position `i` ends a scan from `s`.
Where such a position has an address, a scan answers the first one
(`answers_stopPosition`): it can neither pass by it nor run into the end of
the address space before it. All it reads are the pages of positions that it
has come to (`MayScan`).
-/

namespace ByteRoutines.Kernel

open Exec RegisterKind

/-- The byte ends a scan. -/
def StopSet.Stops : StopSet → UInt8 → Prop
  | terminator, byte => byte = 0
  | terminatorOr target, byte => byte = 0 ∨ byte = target

instance (stop : StopSet) (byte : UInt8) : Decidable (stop.Stops byte) :=
  match stop with
  | .terminator => inferInstanceAs (Decidable (byte = 0))
  | .terminatorOr target => inferInstanceAs (Decidable (byte = 0 ∨ byte = target))

/-- The byte at position `i` ends a scan from `s`. -/
def StopSet.EndsAt (stop : StopSet) (m : Memory) (s : Pointer) (i : Nat) : Prop :=
  stop.Stops (m.get (s.address + i))

instance (stop : StopSet) (m : Memory) (s : Pointer) : DecidablePred (stop.EndsAt m s) :=
  fun i => inferInstanceAs (Decidable (stop.Stops (m.get (s.address + i))))

/-- The pages may be read of all positions that a scan comes to. -/
def MayScan (ok : Event → Prop) (m : Memory) (stop : StopSet) (s : Pointer) : Prop :=
  ∀ i, IsFirst (stop.EndsAt m s) i none → MayLoadPage ok (s + i)

theorem StopSet.endsAt_of_zero (stop : StopSet) {m : Memory} {s : Pointer} {i : Nat}
    (hzero : m.get (s.address + i) = 0) : stop.EndsAt m s i := by
  cases stop with
  | terminator => exact hzero
  | terminatorOr target => exact Or.inl hzero

/-- A scan stays before the first position that ends it. -/
theorem mayScan_of_endsAt {ok : Event → Prop} {m : Memory} {stop : StopSet} {s : Pointer} {t : Nat}
    (hstop : stop.EndsAt m s t) (may : MayLoadString ok s t) : MayScan ok m stop s :=
  fun i hnone => may i (Nat.not_lt.mp fun hlt => hnone t hlt hstop)

/-- A scan of a string stays within it. -/
theorem mayScan_of_mayLoadString {ok : Event → Prop} {m : Memory} {s : Pointer} {n : Nat}
    (stop : StopSet) (h : StringAt m s.address n) (may : MayLoadString ok s n) :
    MayScan ok m stop s :=
  mayScan_of_endsAt (stop.endsAt_of_zero h.ends) may

/-- Pages that nobody protects may all be read. -/
theorem mayScan_anything (m : Memory) (stop : StopSet) (s : Pointer) :
    MayScan (fun _ => True) m stop s :=
  fun _ _ _ _ _ _ => trivial

variable {ok : Event → Prop} {m : Memory} {k : RegisterKind} {stop : StopSet} {s : Pointer}
  {off t n : Nat}

theorem marks_stopMask (k : RegisterKind) (stop : StopSet) (v : Register k) :
    Marks (stop.mask k v) (fun i => stop.Stops (lane v i)) k.width := by
  cases stop with
  | terminator => exact k.marks_zeroMask v
  | terminatorOr target => exact (k.marks_zeroMask v).or (k.marks_eqMask_splat v target)

theorem answers_stopsAt (halign : (s.address + off) % k.width = 0)
    (hpage : MayLoadPage ok (s + off)) :
    Answers ok (stopsAt k stop s off) m fun mask =>
      Marks mask (fun i => stop.EndsAt m s (off + i)) k.width := by
  refine (answers_loadAligned halign hpage).bind fun v hv => answers_pure ?_
  refine (marks_stopMask k stop v).congr fun i hi => ?_
  rw [hv i hi]
  show stop.Stops (m.get (s.address + off + i)) ↔ stop.Stops (m.get (s.address + (off + i)))
  rw [Nat.add_assoc]

/-- The registers that are loaded together start in one page. -/
theorem mul_width_lt_roomInPage {a j : Nat} (halign : a % k.width = 0) (hj : j < groupSize k a) :
    j * k.width < roomInPage a := by
  unfold groupSize at hj
  split at hj
  · rename_i hblock
    cases k <;> simp only [blockSize, width, roomInPage, pageSize] at * <;> omega
  · have := roomInPage_pos a
    obtain rfl : j = 0 := by omega
    omega

/-- The loop over aligned registers, after nothing was found below `off`. -/
theorem answers_scanFrom (halign : (s.address + off) % k.width = 0)
    (hnone : IsFirst (stop.EndsAt m s) off none) (hstop : stop.EndsAt m s t)
    (hfits : s.address + t < addressSpace) (may : MayScan ok m stop s) :
    Answers ok (scanFrom k stop s off) m fun i => IsFirst (stop.EndsAt m s) (t + 1) (some i) := by
  induction hleft : addressSpace - (s.address + off) using Nat.strongRecOn generalizing off with
  | ind left ih =>
    have hoff : off ≤ t := Nat.not_lt.mp fun hlt => hnone t hlt hstop
    have hpage := may off hnone
    rw [scanFrom, if_pos (by omega)]
    refine (answers_masksFrom fun j hj => answers_stopsAt ?_ ?_).bind fun masks hmasks => ?_
    · rw [← Nat.add_assoc, Nat.add_mul_mod_self_right]
      exact halign
    · rw [← Pointer.add_add]
      exact hpage.add (mul_width_lt_roomInPage halign hj)
    have hfirst := hnone.append hmasks
    cases hhit : Mask.firstHit? k.width masks with
    | some i =>
      rw [hhit] at hfirst
      exact answers_pure (hfirst.of_holds hstop)
    | none =>
      rw [hhit] at hfirst
      have hpos := Nat.mul_pos (groupSize_pos k (s.address + off)) k.width_pos
      refine ih _ (by omega) ?_ hfirst rfl
      rw [← Nat.add_assoc, Nat.add_mul_mod_self_right]
      exact halign

/-- **A scan answers the first position that ends it.** -/
theorem answers_stopPosition (hstop : stop.EndsAt m s t) (hfits : s.address + t < addressSpace)
    (may : MayScan ok m stop s) :
    Answers ok (stopPosition k stop s) m fun i =>
      IsFirst (stop.EndsAt m s) (t + 1) (some i) := by
  have hpage := may 0 IsFirst.zero
  refine (answers_loadHead hpage).bind ?_
  rintro ⟨v, valid⟩ ⟨hlow, hhigh, hv⟩
  dsimp only at hlow hhigh hv
  have hmarks : Marks (stop.mask k v &&& Mask.low valid) (stop.EndsAt m s) valid :=
    ((marks_stopMask k stop v).low hhigh).congr fun i hi => by
      rw [hv i hi]
      exact Iff.rfl
  have hfirst := hmarks.isFirst
  dsimp only
  cases hset : Mask.firstSet? (stop.mask k v &&& Mask.low valid) with
  | some i =>
    rw [hset] at hfirst
    exact answers_pure (hfirst.of_holds hstop)
  | none =>
    rw [hset] at hfirst
    refine answers_scanFrom (k.add_toBoundary_mod s.address) ?_ hstop hfits may
    exact fun j hj => hfirst j (Nat.lt_of_lt_of_le hj hlow)

theorem answers_strlen (h : StringAt m s.address n) (may : MayScan ok m .terminator s) :
    Answers ok (strlen k s) m fun length => length = n := by
  have hend := StopSet.terminator.endsAt_of_zero h.ends
  refine (answers_stopPosition hend h.fits may).mono fun i hi => ?_
  exact h.eq_of_zero (Nat.le_of_lt_succ hi.1) hi.2.1

/-- The byte is looked for up to the first position where it or a terminator stands. -/
theorem answers_strchr_of_endsAt {byte : UInt8} (hstop : (StopSet.terminatorOr byte).EndsAt m s t)
    (hfits : s.address + t < addressSpace) (may : MayScan ok m (.terminatorOr byte) s) :
    Answers ok (strchr k s byte) m fun result => ∃ i,
      IsFirst ((StopSet.terminatorOr byte).EndsAt m s) (t + 1) (some i) ∧
        result = if m.get (s.address + i) = byte then some (s + i) else none := by
  refine (answers_stopPosition hstop hfits may).bind fun i hi => ?_
  refine (runs_loadByte (may i hi.2.2).loadByte).bind ?_
  exact answers_pure ⟨i, hi, by rw [Pointer.address_add]⟩

/-- A byte is found in a string where it first stands, and the terminator is found too. -/
theorem answers_strchr {byte : UInt8} (h : StringAt m s.address n)
    (may : MayScan ok m (.terminatorOr byte) s) :
    Answers ok (strchr k s byte) m fun result => ∃ found,
      IsFirst (fun i => m.get (s.address + i) = byte) (n + 1) found ∧
        result = found.map (s + ·) := by
  have hend := (StopSet.terminatorOr byte).endsAt_of_zero h.ends
  refine (answers_strchr_of_endsAt hend h.fits may).mono ?_
  rintro result ⟨i, ⟨hlt, hstop, hbelow⟩, rfl⟩
  have hearlier : ∀ j < i, m.get (s.address + j) ≠ byte := fun j hj heq => hbelow j hj (Or.inr heq)
  split
  · rename_i hfound
    exact ⟨some i, ⟨hlt, hfound, hearlier⟩, rfl⟩
  · rename_i hother
    have hin : i = n := h.eq_of_zero (Nat.le_of_lt_succ hlt) (hstop.resolve_right hother)
    refine ⟨none, fun j hj => ?_, rfl⟩
    rcases Nat.lt_or_eq_of_le (Nat.le_of_lt_succ hj) with hlt | heq
    · exact hearlier j (hin ▸ hlt)
    · rw [heq, ← hin]
      exact hother

end ByteRoutines.Kernel
