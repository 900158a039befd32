import ByteRoutines.Kernel.Bounded
import ByteRoutines.Proofs.Register.Access

/-!
# Searches of a region

A search of a region answers the first position below its length that has a
property: that two regions differ there (`answers_differencePosition`), or
that a given byte stands there (`answers_bytePosition`). The masks of
consecutive registers answer for the first hit in all of them
(`answers_masksFrom`), where each marks the hits in its own, and the register
that ends with the region completes what was found before it
(`isFirst_of_last`).

A region of at least a register is read within its bounds, and a shorter one
perhaps beyond them, in the page of its first byte: `MayLoadRegion` is what a
search needs.
-/

namespace ByteRoutines

/-- The difference of the bytes at the position, and 0 if there is none. -/
def differenceAt (m : Memory) (a b : Nat) : Option Nat → Int
  | some i => ((m.get (a + i)).toNat : Int) - (m.get (b + i)).toNat
  | none => 0

namespace Kernel

open Exec RegisterKind

variable {ok : Event → Prop} {m : Memory} {k : RegisterKind} {a b s : Pointer} {p : Nat → Prop}
  {n off : Nat} {byte : UInt8}

/-- The registers are `count` from offset `off` on. -/
theorem answers_masksFrom {maskAt : Nat → Exec Mask} {off count : Nat}
    (h : ∀ j < count, Answers ok (maskAt (off + j * k.width)) m fun mask =>
      Marks mask (fun i => p (off + j * k.width + i)) k.width) :
    Answers ok (masksFrom k maskAt off count) m fun masks =>
      IsFirst (fun i => p (off + i)) (count * k.width) (Mask.firstHit? k.width masks) := by
  induction count generalizing off with
  | zero =>
    rw [masksFrom, Nat.zero_mul]
    exact answers_pure IsFirst.zero
  | succ count ih =>
    have hhead := h 0 (Nat.succ_pos count)
    rw [Nat.zero_mul, Nat.add_zero] at hhead
    rw [masksFrom]
    refine hhead.bind fun mask hmask => ?_
    have hlater : ∀ j < count, Answers ok (maskAt (off + k.width + j * k.width)) m fun mask =>
        Marks mask (fun i => p (off + k.width + j * k.width + i)) k.width := by
      intro j hj
      have hnext := h (j + 1) (by omega)
      rwa [Nat.succ_mul, Nat.add_comm (j * k.width), ← Nat.add_assoc] at hnext
    refine (ih hlater).bind fun rest hrest => ?_
    refine answers_pure ?_
    rw [Nat.succ_mul, Nat.add_comm (count * k.width)]
    exact isFirst_firstHit?_cons hmask (hrest.congr fun i _ => by rw [Nat.add_assoc])

/-- What the register that ends with the region shows, where nothing was found before it. -/
theorem isFirst_of_last {mask : Mask} (hnone : IsFirst p off none) (hwidth : k.width ≤ n)
    (hoff : n ≤ off + k.width) (hmask : Marks mask (fun i => p (n - k.width + i)) k.width) :
    IsFirst p n (mask.firstSet?.map (n - k.width + ·)) := by
  have hall := (hnone.take (by omega : n - k.width ≤ off)).append hmask.isFirst
  rwa [Nat.sub_add_cancel hwidth] at hall

/-- The search of a region of at least a register, where nothing was found below `off`. -/
theorem answers_firstHitFrom {maskAt : Nat → Exec Mask} (hwidth : k.width ≤ n)
    (hmask : ∀ off, off + k.width ≤ n → Answers ok (maskAt off) m fun mask =>
      Marks mask (fun i => p (off + i)) k.width)
    (hnone : IsFirst p off none) :
    Answers ok (firstHitFrom k maskAt n off) m (IsFirst p n) := by
  induction hleft : n - off using Nat.strongRecOn generalizing off with
  | ind left ih =>
    have hpos := k.width_pos
    have hblock := k.blockSize_eq
    rw [firstHitFrom]
    split
    · rename_i hfour
      have hfits : ∀ j < 4, off + j * k.width + k.width ≤ n := by
        intro j hj
        have := Nat.mul_le_mul_right k.width (Nat.succ_le_of_lt hj)
        rw [Nat.succ_mul] at this
        omega
      refine (answers_masksFrom fun j hj => hmask _ (hfits j hj)).bind fun masks hmasks => ?_
      have hfirst := hnone.append hmasks
      cases hhit : Mask.firstHit? k.width masks with
      | some i =>
        rw [hhit] at hfirst
        exact answers_pure (hfirst.of_some (Nat.lt_of_lt_of_le hfirst.1 hfour))
      | none =>
        rw [hhit] at hfirst
        exact ih _ (by omega) hfirst rfl
    split
    · rename_i hone
      refine (hmask off hone).bind fun mask hmarks => ?_
      have hfirst := hnone.append hmarks.isFirst
      cases hset : mask.firstSet? with
      | some i =>
        rw [hset] at hfirst
        exact answers_pure (hfirst.of_some (Nat.lt_of_lt_of_le hfirst.1 hone))
      | none =>
        rw [hset] at hfirst
        exact ih _ (by omega) hfirst rfl
    split
    · refine (hmask (n - k.width) (by omega)).bind fun mask hmarks => ?_
      exact answers_pure (isFirst_of_last hnone hwidth (by omega) hmarks)
    · exact answers_pure (hnone.take (by omega))

/-- A region of `n` bytes may be read, and if it is shorter than a register, the page of its first
byte. -/
structure MayLoadRegion (ok : Event → Prop) (k : RegisterKind) (p : Pointer) (n : Nat) : Prop where
  load : ∀ mode, MayLoad ok mode p n
  page : 0 < n → n < k.width → MayLoadPage ok p

/-! ### Comparisons -/

/-- Two regions differ at position `i`. -/
def Differs (m : Memory) (a b : Pointer) (i : Nat) : Prop :=
  m.get (a.address + i) ≠ m.get (b.address + i)

instance (m : Memory) (a b : Pointer) : DecidablePred (Differs m a b) :=
  fun i => inferInstanceAs (Decidable (m.get (a.address + i) ≠ m.get (b.address + i)))

theorem answers_differencesAt (ha : ok (.load .plain (a + off) k.width))
    (hb : ok (.load .plain (b + off) k.width)) :
    Answers ok (differencesAt k a b off) m fun mask =>
      Marks mask (fun i => Differs m a b (off + i)) k.width := by
  refine (answers_load_register (aligned_of_not_needsAlignment rfl) ha).bind fun va hva => ?_
  refine (answers_load_register (aligned_of_not_needsAlignment rfl) hb).bind fun vb hvb => ?_
  refine answers_pure ((k.marks_neMask va vb).congr fun i hi => ?_)
  rw [hva i hi, hvb i hi]
  simp only [Differs, Pointer.address_add, Nat.add_assoc]

/-- Two regions that are shorter than a register. -/
theorem answers_shortDifference (hn : n < k.width) (ha : MayLoadRegion ok k a n)
    (hb : MayLoadRegion ok k b n) :
    Answers ok (shortDifference k a b n) m (IsFirst (Differs m a b) n) := by
  unfold shortDifference
  split
  · rename_i hzero
    rw [hzero]
    exact answers_pure IsFirst.zero
  · rename_i hpos
    split
    · rename_i hroom
      rw [Bool.and_eq_true, decide_eq_true_eq, decide_eq_true_eq] at hroom
      have hpageA := ha.page (by omega) hn
      have hpageB := hb.page (by omega) hn
      refine (answers_differencesAt (load_of_mayLoadPage hroom.1 hpageA)
        (load_of_mayLoadPage hroom.2 hpageB)).bind fun mask hmask => answers_pure ?_
      exact (hmask.low (Nat.le_of_lt hn)).isFirst.congr fun i _ => by rw [Nat.zero_add]
    · refine (answers_loadPartial hn (ha.load _)).bind fun va hva => ?_
      refine (answers_loadPartial hn (hb.load _)).bind fun vb hvb => answers_pure ?_
      refine ((k.marks_neMask va vb).low (Nat.le_of_lt hn)).isFirst.congr fun i hi => ?_
      rw [hva i hi, hvb i hi]
      exact Iff.rfl

/-- **A comparison finds the first difference**, in regions of any length. -/
theorem answers_differencePosition (ha : MayLoadRegion ok k a n) (hb : MayLoadRegion ok k b n) :
    Answers ok (differencePosition k a b n) m (IsFirst (Differs m a b) n) := by
  have hmask : ∀ off, off + k.width ≤ n → Answers ok (differencesAt k a b off) m fun mask =>
      Marks mask (fun i => Differs m a b (off + i)) k.width := fun off hoff =>
    answers_differencesAt (ha.load .plain off _ hoff) (hb.load .plain off _ hoff)
  unfold differencePosition
  split
  · rename_i hshort
    exact answers_shortDifference hshort ha hb
  split
  · rename_i hlong htwo
    refine (hmask 0 (by omega)).bind fun mask hmarks => ?_
    have hfirst : IsFirst (Differs m a b) k.width mask.firstSet? :=
      hmarks.isFirst.congr fun i _ => by rw [Nat.zero_add]
    cases hset : mask.firstSet? with
    | some i =>
      rw [hset] at hfirst
      exact answers_pure (hfirst.of_some (Nat.lt_of_lt_of_le hfirst.1 (by omega)))
    | none =>
      rw [hset] at hfirst
      refine (hmask (n - k.width) (by omega)).bind fun last hlast => ?_
      exact answers_pure (isFirst_of_last hfirst (by omega) (by omega) hlast)
  · exact answers_firstHitFrom (by omega) hmask IsFirst.zero

theorem answers_byteDifference {i : Nat} (ha : ok (.load .plain (a + i) 1))
    (hb : ok (.load .plain (b + i) 1)) :
    Answers ok (byteDifference a b i) m fun value =>
      value = differenceAt m a.address b.address (some i) := by
  rw [byteDifference]
  refine (runs_loadByte ha).bind ?_
  refine (runs_loadByte hb).bind ?_
  exact answers_pure rfl

theorem answers_memcmp (ha : MayLoadRegion ok k a n) (hb : MayLoadRegion ok k b n) :
    Answers ok (memcmp k a b n) m fun value => ∃ found, IsFirst (Differs m a b) n found ∧
      value = differenceAt m a.address b.address found := by
  unfold memcmp
  refine (answers_differencePosition ha hb).bind fun found hfound => ?_
  cases found with
  | none => exact answers_pure ⟨none, hfound, rfl⟩
  | some i =>
    have hi : i + 1 ≤ n := hfound.1
    exact (answers_byteDifference (ha.load .plain i 1 hi) (hb.load .plain i 1 hi)).mono
      fun value hvalue => ⟨some i, hfound, hvalue⟩

/-! ### Finding a byte -/

theorem answers_matchesAt (hs : ok (.load .plain (s + off) k.width)) :
    Answers ok (matchesAt k s (k.splat byte) off) m fun mask =>
      Marks mask (fun i => m.get (s.address + (off + i)) = byte) k.width := by
  refine (answers_load_register (aligned_of_not_needsAlignment rfl) hs).bind fun v hv => ?_
  refine answers_pure ((k.marks_eqMask_splat v byte).congr fun i hi => ?_)
  rw [hv i hi]
  simp only [Pointer.address_add, Nat.add_assoc]

theorem answers_shortMatch (hn : n < k.width) (hs : MayLoadRegion ok k s n) :
    Answers ok (shortMatch k s (k.splat byte) n) m
      (IsFirst (fun i => m.get (s.address + i) = byte) n) := by
  have hmarks : ∀ v : Register k, Shows (fun i => m.get (s.address + i)) n v →
      IsFirst (fun i => m.get (s.address + i) = byte) n
        (Mask.firstSet? (k.eqMask v (k.splat byte) &&& Mask.low n)) := by
    intro v hv
    refine ((k.marks_eqMask_splat v byte).low (Nat.le_of_lt hn)).isFirst.congr fun i hi => ?_
    rw [hv i hi]
  unfold shortMatch
  split
  · rename_i hzero
    rw [hzero]
    exact answers_pure IsFirst.zero
  · rename_i hpos
    dsimp only
    split
    · rename_i hroom
      refine (answers_load hroom (hs.page (by omega) hn)).bind fun v hv => ?_
      exact answers_pure (hmarks v (hv.take (Nat.le_of_lt hn)))
    · refine (answers_loadPartial hn (hs.load _)).bind fun v hv => ?_
      exact answers_pure (hmarks v hv)

/-- **A search finds the first occurrence of a byte**, in a region of any length. -/
theorem answers_bytePosition (hs : MayLoadRegion ok k s n) :
    Answers ok (bytePosition k s byte n) m
      (IsFirst (fun i => m.get (s.address + i) = byte) n) := by
  unfold bytePosition
  dsimp only
  split
  · rename_i hshort
    exact answers_shortMatch hshort hs
  · exact answers_firstHitFrom (by omega)
      (fun off hoff => answers_matchesAt (hs.load .plain off _ hoff)) IsFirst.zero

theorem answers_memchr (hs : MayLoadRegion ok k s n) :
    Answers ok (memchr k s byte n) m fun result => ∃ found,
      IsFirst (fun i => m.get (s.address + i) = byte) n found ∧
        result = found.map (s + ·) := by
  unfold memchr
  refine (answers_bytePosition hs).bind fun found hfound => ?_
  exact answers_pure ⟨found, hfound, rfl⟩

end Kernel

end ByteRoutines
