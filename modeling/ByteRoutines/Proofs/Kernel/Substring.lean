import ByteRoutines.Kernel.Substring
import ByteRoutines.Proofs.Kernel.Lockstep
import ByteRoutines.Proofs.Kernel.Scan

/-!
# The first occurrence of a string in a string

`Occurs m a l x n i` says that the `n` bytes at `x` stand at position `i` of
the string of `l` bytes at `a`. The search answers the first such position
(`answers_strstr`).

No filter drops an occurrence: `Candidates` says that a mask still holds every
occurrence among the bytes of a register, and each filter keeps that
(`Candidates.filter`, `candidates_of_cut`). `Verdict.Holds` is what a verdict
on a part of the haystack says about all of it.
-/

namespace ByteRoutines

/-- The `n` bytes at `x` stand at position `i` of the string of `l` bytes at `a`. -/
def Occurs (m : Memory) (a l x n i : Nat) : Prop :=
  i + n ≤ l ∧ ∀ j < n, m.get (a + i + j) = m.get (x + j)

theorem occurs_add {m : Memory} {a l x n off i : Nat} (hoff : off ≤ l) :
    Occurs m (a + off) (l - off) x n i ↔ Occurs m a l x n (off + i) := by
  have hlen : i + n ≤ l - off ↔ off + i + n ≤ l := by omega
  simp only [Occurs, hlen, Nat.add_assoc]

theorem isFirst_occurs_empty (m : Memory) (a l x : Nat) :
    IsFirst (Occurs m a l x 0) (l + 1) (some 0) := by
  refine ⟨Nat.succ_pos l, ⟨Nat.zero_le l, ?_⟩, IsFirst.zero⟩
  exact fun j hj => absurd hj (Nat.not_lt_zero j)

/-- A byte that is not zero occurs in a string where it stands there. -/
theorem occurs_one {m : Memory} {a l x i : Nat} (hstring : StringAt m a l) (hbyte : m.get x ≠ 0)
    (hi : i ≤ l) : Occurs m a l x 1 i ↔ m.get (a + i) = m.get x := by
  constructor
  · rintro ⟨_, hocc⟩
    exact hocc 0 Nat.one_pos
  · intro heq
    have hne : i ≠ l := by
      rintro rfl
      exact hbyte (heq ▸ hstring.ends)
    refine ⟨by omega, fun j hj => ?_⟩
    obtain rfl : j = 0 := by omega
    exact heq

namespace Kernel

open Exec RegisterKind

variable {ok : Event → Prop} {m : Memory} {k : RegisterKind} {needle : Needle} {p x : Pointer}
  {l n i j off valid count : Nat} {occ : Nat → Prop} {candidates : Mask}

/-! ### Comparing at one position -/

/-- As long as the comparison is undecided, the haystack has not ended. -/
theorem le_of_undecided (hstring : StringAt m p.address l) (hi : i ≤ l)
    (hnone : IsFirst (Decides m (p + i) x) j none) : i + j ≤ l := by
  refine Nat.not_lt.mp fun hlt => hnone (l - i) (by omega) (Or.inl ?_)
  rw [Pointer.address_add, show p.address + i + (l - i) = p.address + l by omega]
  exact hstring.ends

theorem occurs_of_undecided (hstring : StringAt m p.address l) (hi : i ≤ l)
    (hnone : IsFirst (Decides m (p + i) x) n none) : Occurs m p.address l x.address n i := by
  refine ⟨le_of_undecided hstring hi hnone, fun j hj => ?_⟩
  exact Decidable.not_not.mp fun hne => hnone j hj (Or.inr hne)

theorem not_occurs_of_decides (hneedle : StringAt m x.address n) (hj : j < n)
    (hdecides : Decides m (p + i) x j) : ¬ Occurs m p.address l x.address n i := by
  rintro ⟨_, hocc⟩
  have hbyte := hocc j hj
  rcases hdecides with hzero | hne
  · rw [Pointer.address_add, hbyte] at hzero
    exact hneedle.inside j hj hzero
  · exact hne hbyte

/-- Where the haystack ends within the needle, nothing that starts there or later fits. -/
theorem isFirst_none_of_end (hstring : StringAt m p.address l) (hj : j < n)
    (hzero : m.get (p.address + (i + j)) = 0)
    (hnone : IsFirst (Occurs m p.address l x.address n) i none) :
    IsFirst (Occurs m p.address l x.address n) (l + 1) none := by
  intro i' _ hocc
  by_cases hlt : i' < i
  · exact hnone i' hlt hocc
  · have hend := hstring.le_of_zero hzero
    have hfits := hocc.1
    omega

theorem mayCompare_of_strings (hstring : StringAt m p.address l) (hi : i ≤ l)
    (may : MayLoadString ok p l) (mayNeedle : MayLoadString ok x n) :
    MayCompare ok m (p + i) x n := by
  intro j hj hnone
  refine ⟨?_, mayNeedle j (by omega)⟩
  rw [Pointer.add_add]
  exact may (i + j) (le_of_undecided hstring hi hnone)

/-! ### Candidates -/

/-- The mask holds every position below `valid` of which `occ` holds, and none at or behind the
end of a string of `l` bytes. -/
structure Candidates (candidates : Mask) (occ : Nat → Prop) (valid l : Nat) : Prop where
  within : ∀ i, candidates.getLsbD i = true → i < valid ∧ i < l
  complete : ∀ i < valid, occ i → candidates.getLsbD i = true

/-- A filter for something that every occurrence has drops none of them. -/
theorem Candidates.filter {filter : Mask} {q : Nat → Prop} (h : Candidates candidates occ valid l)
    (hfilter : Marks filter q n) (hvalid : valid ≤ n) (hocc : ∀ i < valid, occ i → q i) :
    Candidates (candidates &&& filter) occ valid l where
  within i hbit := by
    rw [BitVec.getLsbD_and, Bool.and_eq_true] at hbit
    exact h.within i hbit.1
  complete i hi hi' := by
    rw [BitVec.getLsbD_and, Bool.and_eq_true]
    exact ⟨h.complete i hi hi', (hfilter i).mpr ⟨by omega, hocc i hi hi'⟩⟩

/-- A position at which nothing occurs may be dropped. -/
theorem Candidates.clearFirst (h : Candidates candidates occ valid l)
    (hfirst : IsFirst (fun i => candidates.getLsbD i = true) 64 (some i)) (hnot : ¬ occ i) :
    Candidates candidates.clearFirst occ valid l where
  within i' hbit := h.within i' ((getLsbD_clearFirst candidates i').mp hbit).1
  complete i' hi' hocc := by
    have hbit := h.complete i' hi' hocc
    refine (getLsbD_clearFirst candidates i').mpr ⟨hbit, i, ?_, hfirst.2.1⟩
    rcases Nat.lt_trichotomy i i' with hlt | heq | hgt
    · exact hlt
    · exact absurd hocc (heq ▸ hnot)
    · exact absurd hbit (hfirst.2.2 i' hgt)

/-- What is known of a needle: its string, and the three bytes kept of it. -/
structure NeedleAt (m : Memory) (needle : Needle) : Prop where
  string : StringAt m needle.start.address needle.length
  two_le : 2 ≤ needle.length
  first : needle.first = m.get needle.start.address
  second : needle.second = m.get (needle.start.address + 1)
  last : needle.last = m.get (needle.start.address + (needle.length - 1))

/-- The string of `l` bytes at `p` may be searched for the needle. -/
structure MaySearch (ok : Event → Prop) (m : Memory) (needle : Needle) (p : Pointer) (l : Nat) :
    Prop where
  needleAt : NeedleAt m needle
  string : StringAt m p.address l
  load : MayLoadString ok p l
  loadNeedle : MayLoadString ok needle.start needle.length

theorem MaySearch.add (may : MaySearch ok m needle p l) (hoff : off ≤ l) :
    MaySearch ok m needle (p + off) (l - off) where
  needleAt := may.needleAt
  string := may.string.add hoff
  load := may.load.add hoff
  loadNeedle := may.loadNeedle

/-- The needle stands at position `i` of the string of `l` bytes at `p`. -/
abbrev Needle.OccursAt (needle : Needle) (m : Memory) (p : Pointer) (l i : Nat) : Prop :=
  Occurs m p.address l needle.start.address needle.length i

/-- Cutting the candidates off where the needle no longer fits drops no occurrence; if nothing is
left, the string is shorter than the needle. -/
theorem candidates_of_cut {zeros : Mask} (hneedle : NeedleAt m needle)
    (hstring : StringAt m p.address l)
    (hzeros : Marks zeros (fun i => m.get (p.address + i) = 0) valid)
    (hcandidates : Marks candidates (fun i => m.get (p.address + i) = needle.first) valid) :
    match cutCandidates zeros candidates needle.length with
    | none => l < needle.length
    | some left => Candidates left (needle.OccursAt m p l) valid l := by
  have htwo := hneedle.two_le
  have hfirst : ∀ i < valid, needle.OccursAt m p l i → candidates.getLsbD i = true := by
    intro i hi hocc
    refine (hcandidates i).mpr ⟨hi, ?_⟩
    rw [hneedle.first]
    exact hocc.2 0 (by omega)
  have hzero := hzeros.isFirst
  unfold cutCandidates
  cases hset : zeros.firstSet? with
  | none =>
    rw [hset] at hzero
    have hend : valid ≤ l := Nat.not_lt.mp fun hlt => hzero l hlt hstring.ends
    refine ⟨fun i hbit => ?_, hfirst⟩
    have hi := ((hcandidates i).mp hbit).1
    omega
  | some t =>
    rw [hset] at hzero
    have hend : t = l := hstring.eq_of_zero
      (Nat.not_lt.mp fun hlt => hzero.2.2 l hlt hstring.ends) hzero.2.1
    subst hend
    dsimp only
    by_cases hshort : t < needle.length
    · rw [if_pos hshort]
      exact hshort
    · rw [if_neg hshort]
      constructor
      · intro i hbit
        obtain ⟨hbit, hi⟩ := getLsbD_and_low.mp hbit
        have hi' := ((hcandidates i).mp hbit).1
        omega
      · intro i hi hocc
        have hfits := hocc.1
        exact getLsbD_and_low.mpr ⟨hfirst i hi hocc, by omega⟩

/-- The filter by one byte of the needle, seen in a register that is shifted by its place. -/
theorem Candidates.byte {v : Register k} {byte : UInt8}
    (h : Candidates candidates (needle.OccursAt m p l) valid l) (hvalid : valid ≤ k.width)
    (hj : j < needle.length) (hbyte : byte = m.get (needle.start.address + j))
    (hv : Shows (fun i => m.get ((p + j).address + i)) k.width v) :
    Candidates (candidates &&& k.eqMask v (k.splat byte)) (needle.OccursAt m p l) valid l := by
  refine h.filter (k.marks_eqMask_splat v byte) hvalid fun i hi hocc => ?_
  rw [hv i (by omega), hbyte, ← hocc.2 j hj]
  show m.get (p.address + j + i) = m.get (p.address + i + j)
  rw [Nat.add_right_comm]

/-- The filters by the second and the last byte drop no occurrence. -/
theorem answers_narrow (hneedle : NeedleAt m needle) (hpage : MayLoadPage ok p)
    (hvalid : valid ≤ k.width)
    (hcandidates : Candidates candidates (needle.OccursAt m p l) valid l) :
    Answers ok (narrow k needle p candidates) m fun left =>
      Candidates left (needle.OccursAt m p l) valid l := by
  have htwo := hneedle.two_le
  unfold narrow
  split
  · exact answers_pure hcandidates
  · dsimp only
    have hlast : ∀ bySecond, Candidates bySecond (needle.OccursAt m p l) valid l →
        Answers ok (do
          if needle.length - 1 + k.width ≤ roomInPage p.address then
            let v ← k.load (p + (needle.length - 1))
            return bySecond &&& k.eqMask v (k.splat needle.last)
          else return bySecond) m fun left => Candidates left (needle.OccursAt m p l) valid l := by
      intro bySecond hsecond
      split
      · rename_i hroom
        refine (answers_load_add hroom hpage).bind fun v hv => answers_pure ?_
        exact hsecond.byte hvalid (by omega) hneedle.last hv
      · exact answers_pure hsecond
    split
    · rename_i hroom
      refine (answers_load_add (by omega) hpage).bind fun v hv => ?_
      exact hlast _ (hcandidates.byte hvalid (by omega) hneedle.second hv)
    · exact hlast _ hcandidates

/-! ### Verdicts -/

/-- What a verdict on the first `valid` positions says about a string of `l` bytes at `p`. -/
def Verdict.Holds (occ : Nat → Prop) (p : Pointer) (l valid : Nat) : Verdict → Prop
  | occurs q => ∃ i, q = p + i ∧ IsFirst occ (l + 1) (some i)
  | absent => IsFirst occ (l + 1) none
  | undecided => valid ≤ l ∧ IsFirst occ valid none

/-- A verdict on what is left of the haystack, where nothing was found before. -/
theorem Verdict.Holds.of_add {verdict : Verdict} (hoff : off ≤ l)
    (hnone : IsFirst (needle.OccursAt m p l) off none)
    (h : verdict.Holds (needle.OccursAt m (p + off) (l - off)) (p + off) (l - off) valid) :
    verdict.Holds (needle.OccursAt m p l) p l (off + valid) := by
  have hlen : off + (l - off + 1) = l + 1 := by omega
  cases verdict with
  | occurs q =>
    obtain ⟨i, hq, hfirst⟩ := h
    have hall := hnone.append (hfirst.congr fun _ _ => occurs_add hoff)
    rw [hlen] at hall
    exact ⟨off + i, by rw [hq, Pointer.add_add], hall⟩
  | absent =>
    have habsent : IsFirst (needle.OccursAt m (p + off) (l - off)) (l - off + 1) none := h
    have hall := hnone.append (habsent.congr fun _ _ => occurs_add hoff)
    rw [hlen] at hall
    exact hall
  | undecided =>
    obtain ⟨hvalid, hleft⟩ := h
    exact ⟨by omega, hnone.append (hleft.congr fun _ _ => occurs_add hoff)⟩

/-- The candidates are compared from the lowest on; `count` tries are enough for what is left of
them. -/
theorem answers_verify {exhausted : Verdict} (may : MaySearch ok m needle p l)
    (hcandidates : Candidates candidates (needle.OccursAt m p l) valid l)
    (hcount : ∀ i, candidates.getLsbD i = true → 64 ≤ i + count)
    (hexhausted : IsFirst (needle.OccursAt m p l) valid none →
      exhausted.Holds (needle.OccursAt m p l) p l valid) :
    Answers ok (verify k needle p exhausted count candidates) m fun verdict =>
      verdict.Holds (needle.OccursAt m p l) p l valid := by
  induction count generalizing candidates with
  | zero =>
    refine answers_pure (hexhausted fun i hi hocc => ?_)
    have hbit := hcandidates.complete i hi hocc
    have hlt := BitVec.lt_of_getLsbD hbit
    have hle := hcount i hbit
    omega
  | succ count ih =>
    have hset := isFirst_firstSet? candidates
    rw [verify]
    cases hfirst : candidates.firstSet? with
    | none =>
      rw [hfirst] at hset
      refine answers_pure (hexhausted fun i hi hocc => ?_)
      have hbit := hcandidates.complete i hi hocc
      exact hset i (BitVec.lt_of_getLsbD hbit) hbit
    | some i =>
      rw [hfirst] at hset
      obtain ⟨hvalid, hin⟩ := hcandidates.within i hset.2.1
      have hearlier : IsFirst (needle.OccursAt m p l) i none := fun i' hi' hocc =>
        hset.2.2 i' hi' (hcandidates.complete i' (by omega) hocc)
      have hle : i ≤ l := Nat.le_of_lt hin
      refine (answers_decisivePosition
        (mayCompare_of_strings may.string hle may.load may.loadNeedle)).bind fun found hfound => ?_
      cases found with
      | none =>
        have hocc := occurs_of_undecided may.string hle hfound
        exact answers_pure ⟨i, rfl, by omega, hocc, hearlier⟩
      | some j =>
        obtain ⟨hj, hdecides, hbefore⟩ := hfound
        have hreach := le_of_undecided may.string hle hbefore
        have hpage : MayLoadPage ok (p + i + j) := by
          rw [Pointer.add_add]
          exact may.load (i + j) hreach
        refine (runs_loadByte hpage.loadByte).bind ?_
        rw [Pointer.add_add, Pointer.address_add]
        dsimp only
        split
        · rename_i hzero
          exact answers_pure (isFirst_none_of_end may.string hj hzero hearlier)
        · have hnot : ¬ needle.OccursAt m p l i :=
            not_occurs_of_decides may.needleAt.string hj hdecides
          refine ih (hcandidates.clearFirst hset hnot) fun i' hbit => ?_
          -- Every bit that is left lies above the one that was cleared.
          have habove := lt_of_getLsbD_clearFirst hset hbit
          have henough := hcount i hset.2.1
          omega

/-! ### The search -/

/-- A register whose first `valid` bytes are those at `p`. -/
theorem answers_searchRegister {v : Register k} (may : MaySearch ok m needle p l)
    (hvalid : valid ≤ k.width) (hv : Shows (fun i => m.get (p.address + i)) valid v) :
    Answers ok (searchRegister k needle p v valid) m fun verdict =>
      verdict.Holds (needle.OccursAt m p l) p l valid := by
  have hzeros : Marks (k.zeroMask v &&& Mask.low valid) (fun i => m.get (p.address + i) = 0)
      valid := by
    refine ((k.marks_zeroMask v).low hvalid).congr fun i hi => ?_
    rw [hv i hi]
  have hstarts : Marks (k.eqMask v (k.splat needle.first) &&& Mask.low valid)
      (fun i => m.get (p.address + i) = needle.first) valid := by
    refine ((k.marks_eqMask_splat v needle.first).low hvalid).congr fun i hi => ?_
    rw [hv i hi]
  have hcut := candidates_of_cut may.needleAt may.string hzeros hstarts
  unfold searchRegister
  dsimp only
  split
  · rename_i hnone
    rw [hnone] at hcut
    have hshort : l < needle.length := hcut
    refine answers_pure fun i _ hocc => ?_
    have hfits := hocc.1
    omega
  · rename_i left hsome
    rw [hsome] at hcut
    refine (answers_narrow may.needleAt may.load.page hvalid hcut).bind fun found hfound => ?_
    refine answers_verify may hfound (fun i _ => Nat.le_add_left 64 i) ?_
    intro hnone
    split
    · rename_i hzero
      have hinside := hzeros.eq_zero_iff.mp hzero
      exact ⟨Nat.not_lt.mp fun hlt => hinside l hlt may.string.ends, hnone⟩
    · rename_i hzero
      have hend : l < valid := Nat.not_le.mp fun hle => hzero
        (hzeros.eq_zero_iff.mpr fun i hi => may.string.inside i (by omega))
      exact fun i hi => hnone i (by omega)

/-- The loop over aligned registers, after nothing was found below `off`. -/
theorem answers_searchFrom {haystack : Pointer} (may : MaySearch ok m needle haystack l)
    (halign : (haystack.address + off) % k.width = 0) (hoff : off ≤ l)
    (hnone : IsFirst (needle.OccursAt m haystack l) off none) :
    Answers ok (searchFrom k needle haystack off) m fun result => ∃ found,
      IsFirst (needle.OccursAt m haystack l) (l + 1) found ∧
        result = found.map (haystack + ·) := by
  induction hleft : addressSpace - (haystack.address + off) using Nat.strongRecOn
    generalizing off with
  | ind left ih =>
    have hfits := may.string.fits
    rw [searchFrom, if_pos (by omega)]
    refine (answers_loadAligned halign (may.load off hoff)).bind fun v hv => ?_
    refine (answers_searchRegister (may.add hoff) (Nat.le_refl _) hv).bind
      fun verdict hverdict => ?_
    have hall := hverdict.of_add hoff hnone
    cases verdict with
    | occurs q =>
      obtain ⟨i, rfl, hfirst⟩ := hall
      exact answers_pure ⟨some i, hfirst, rfl⟩
    | absent => exact answers_pure ⟨none, hall, rfl⟩
    | undecided =>
      have hwidth := k.width_pos
      refine ih _ (by omega) ?_ hall.1 hall.2 rfl
      rw [← Nat.add_assoc]
      exact k.add_width_mod halign

theorem answers_searchNeedle {haystack : Pointer} (may : MaySearch ok m needle haystack l) :
    Answers ok (searchNeedle k needle haystack) m fun result => ∃ found,
      IsFirst (needle.OccursAt m haystack l) (l + 1) found ∧
        result = found.map (haystack + ·) := by
  refine (answers_loadHead may.load.page).bind ?_
  rintro ⟨v, valid⟩ ⟨hlow, hhigh, hv⟩
  refine (answers_searchRegister may hhigh hv).bind fun verdict hverdict => ?_
  cases verdict with
  | occurs q =>
    obtain ⟨i, rfl, hfirst⟩ := hverdict
    exact answers_pure ⟨some i, hfirst, rfl⟩
  | absent => exact answers_pure ⟨none, hverdict, rfl⟩
  | undecided =>
    obtain ⟨hvalid, hnone⟩ := hverdict
    dsimp only at hlow
    refine answers_searchFrom may (k.add_toBoundary_mod haystack.address) (by omega) ?_
    exact fun i hi => hnone i (by omega)

/-- **The search finds the first occurrence**, of a needle of any length. -/
theorem answers_strstr {haystack needle : Pointer} (hstring : StringAt m haystack.address l)
    (hneedle : StringAt m needle.address n) (may : MayLoadString ok haystack l)
    (mayNeedle : MayLoadString ok needle n) :
    Answers ok (strstr k haystack needle) m fun result => ∃ found,
      IsFirst (Occurs m haystack.address l needle.address n) (l + 1) found ∧
        result = found.map (haystack + ·) := by
  rw [strstr]
  refine (runs_loadByte mayNeedle.page.loadByte).bind ?_
  split
  · rename_i hempty
    obtain rfl : 0 = n := hneedle.eq_of_zero (Nat.zero_le n) hempty
    exact answers_pure ⟨some 0, isFirst_occurs_empty m _ l _, rfl⟩
  · rename_i hfirst
    have hpos : 0 < n := by
      refine Nat.pos_of_ne_zero ?_
      rintro rfl
      exact hfirst hneedle.ends
    refine (runs_loadByte may.page.loadByte).bind ?_
    split
    · rename_i hend
      obtain rfl : 0 = l := hstring.eq_of_zero (Nat.zero_le l) hend
      refine answers_pure ⟨none, fun i _ hocc => ?_, rfl⟩
      have hfits := hocc.1
      omega
    · refine (runs_loadByte (mayNeedle 1 hpos).loadByte).bind ?_
      split
      · rename_i hsecond
        obtain rfl : 1 = n := hneedle.eq_of_zero hpos hsecond
        refine (answers_strchr hstring (mayScan_of_mayLoadString _ hstring may)).mono ?_
        rintro result ⟨found, hfound, hresult⟩
        exact ⟨found, hfound.congr fun i hi => (occurs_one hstring hfirst (by omega)).symm, hresult⟩
      · rename_i hsecond
        have htwo : 2 ≤ n := by
          refine Nat.lt_of_le_of_ne hpos ?_
          rintro rfl
          exact hsecond hneedle.ends
        refine (answers_strlen hneedle (mayScan_of_mayLoadString _ hneedle mayNeedle)).bind ?_
        rintro length rfl
        refine (runs_loadByte (mayNeedle (length - 1) (by omega)).loadByte).bind ?_
        exact answers_searchNeedle ⟨⟨hneedle, htwo, rfl, rfl, rfl⟩, hstring, may, mayNeedle⟩

end Kernel

end ByteRoutines
