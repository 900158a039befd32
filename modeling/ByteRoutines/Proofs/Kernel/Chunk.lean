import ByteRoutines.Proofs.Kernel.Lockstep

/-!
# Chunks that are read in parts

A chunk of two strings that does not lie in one page of each is read in parts.
`chunkParts` lists them: each part ends with a page of either string, or with
the chunk. The loop of `decideInParts` is a walk over this list
(`decideInParts_eq`). The parts lie one after the other, none is empty and each
is within one page of both strings (`tiles_chunkParts`, `inPage_of_mem`). A
page is longer than a chunk, so that each string ends at most one part, and
there are at most three (`length_chunkParts_le`).

The mask that is answered may be another one than whole registers would give,
which need not end at a page, but the lowest set bit is the same
(`decideChunk_pinpoints`).
-/

namespace ByteRoutines

/-- A mask that settles a matter has a bit set just if there is something to find. -/
theorem Settles.ne_zero_iff {mask : Mask} {p : Nat → Prop} {n : Nat} (h : Settles mask p n) :
    mask ≠ 0 ↔ ∃ i < n, p i := by
  have hfirst := h.isFirst
  rw [ne_eq, ← firstSet?_eq_none_iff]
  cases hset : mask.firstSet? with
  | none =>
    rw [hset] at hfirst
    exact iff_of_false (fun hne => hne rfl) fun ⟨i, hi, hp⟩ => hfirst i hi hp
  | some i =>
    rw [hset] at hfirst
    exact iff_of_true nofun ⟨i, hfirst.1, hfirst.2.1⟩

theorem Settles.isFirst_firstSet {mask : Mask} {p : Nat → Prop} {n : Nat} (h : Settles mask p n)
    (hne : mask ≠ 0) : IsFirst p n (some mask.firstSet) := by
  have hfirst := h.isFirst
  rwa [Mask.firstSet?, if_neg hne] at hfirst

namespace Kernel

open Exec RegisterKind

/-- How many bytes are compared at once from position `done` on. -/
def partLength (a b : Pointer) (length done : Nat) : Nat :=
  min (min (length - done) (roomInPage (a.address + done))) (roomInPage (b.address + done))

theorem partLength_pos {a b : Pointer} {length done : Nat} (h : done < length) :
    0 < partLength a b length done := by
  have hroomA := roomInPage_pos (a.address + done)
  have hroomB := roomInPage_pos (b.address + done)
  rw [partLength]
  omega

/-- The parts in which a chunk is read from position `done` on. -/
def chunkParts (a b : Pointer) (length done : Nat) : List Span :=
  if done < length then
    ⟨done, partLength a b length done⟩ ::
      chunkParts a b length (done + partLength a b length done)
  else []
termination_by length - done
decreasing_by
  rename_i h
  have := partLength_pos (a := a) (b := b) h
  omega

/-- The decisive positions in the first part that holds any. -/
def decideParts (k : RegisterKind) (a b : Pointer) : List Span → Exec Mask
  | [] => return 0
  | part :: rest => do
    let va ← k.loadPartial (a + part.offset) part.length
    let vb ← k.loadPartial (b + part.offset) part.length
    let m := decisiveMask k va vb part.length
    if m ≠ 0 then return m <<< part.offset else decideParts k a b rest

/-- The parts lie one after the other from `start` up to `stop`, and none is empty. -/
inductive Tiles : Nat → List Span → Nat → Prop
  | nil {stop : Nat} : Tiles stop [] stop
  | cons {start stop length : Nat} {rest : List Span} : 0 < length →
      Tiles (start + length) rest stop → Tiles start (⟨start, length⟩ :: rest) stop

variable {k : RegisterKind} {a b : Pointer} {length done : Nat}

theorem decideInParts_eq (k : RegisterKind) (a b : Pointer) (length done : Nat) :
    decideInParts k a b length done = decideParts k a b (chunkParts a b length done) := by
  induction done using chunkParts.induct a b length with
  | case1 done hlt ih =>
    rw [decideInParts, chunkParts, if_pos hlt, if_pos hlt, decideParts, ← ih]
    rfl
  | case2 done hstop => rw [decideInParts, chunkParts, if_neg hstop, if_neg hstop, decideParts]

theorem tiles_chunkParts (a b : Pointer) (h : done ≤ length) :
    Tiles done (chunkParts a b length done) length := by
  induction done using chunkParts.induct a b length with
  | case1 done hlt ih =>
    have hle : partLength a b length done ≤ length - done :=
      Nat.le_trans (Nat.min_le_left _ _) (Nat.min_le_left _ _)
    rw [chunkParts, if_pos hlt]
    exact .cons (partLength_pos hlt) (ih (by omega))
  | case2 done hstop =>
    obtain rfl : done = length := by omega
    rw [chunkParts, if_neg hstop]
    exact .nil

/-- Each part is within one page of both strings. -/
theorem inPage_of_mem {part : Span} (h : part ∈ chunkParts a b length done) :
    part.length ≤ roomInPage (a.address + part.offset) ∧
      part.length ≤ roomInPage (b.address + part.offset) := by
  induction done using chunkParts.induct a b length with
  | case1 done hlt ih =>
    rw [chunkParts, if_pos hlt, List.mem_cons] at h
    rcases h with rfl | hrest
    · exact ⟨Nat.le_trans (Nat.min_le_left _ _) (Nat.min_le_right _ _), Nat.min_le_right _ _⟩
    · exact ih hrest
  | case2 done hstop =>
    rw [chunkParts, if_neg hstop] at h
    cases h

/-- One if a page of the string ends within the chunk behind position `done`. -/
def pageEnds (p : Pointer) (length done : Nat) : Nat :=
  if roomInPage (p.address + done) < length - done then 1 else 0

theorem pageEnds_add_le (p : Pointer) (length done n : Nat) :
    pageEnds p length (done + n) ≤ pageEnds p length done := by
  unfold pageEnds
  by_cases hlater : roomInPage (p.address + (done + n)) < length - (done + n)
  · have hnow : roomInPage (p.address + done) < length - done := by
      simp only [roomInPage, pageSize] at *
      omega
    exact Nat.le_of_eq (by rw [if_pos hlater, if_pos hnow])
  · rw [if_neg hlater]
    exact Nat.zero_le _

/-- A page end is passed once: what is left of the chunk is shorter than the page that follows. -/
theorem pageEnds_add_room_lt (p : Pointer) (hlength : length ≤ pageSize)
    (h : roomInPage (p.address + done) < length - done) :
    pageEnds p length (done + roomInPage (p.address + done)) < pageEnds p length done := by
  have hpast : ¬ roomInPage (p.address + (done + roomInPage (p.address + done))) <
      length - (done + roomInPage (p.address + done)) := by
    simp only [roomInPage, pageSize] at *
    omega
  rw [pageEnds, pageEnds, if_neg hpast, if_pos h]
  exact Nat.one_pos

theorem length_chunkParts_le (hlength : length ≤ pageSize) :
    (chunkParts a b length done).length ≤ 1 + pageEnds a length done + pageEnds b length done := by
  induction done using chunkParts.induct a b length with
  | case1 done hlt ih =>
    rw [chunkParts, if_pos hlt, List.length_cons]
    by_cases hlast : done + partLength a b length done < length
    · have hleA := pageEnds_add_le a length done (partLength a b length done)
      have hleB := pageEnds_add_le b length done (partLength a b length done)
      have hends : partLength a b length done = roomInPage (a.address + done) ∨
          partLength a b length done = roomInPage (b.address + done) := by
        rw [partLength] at hlast ⊢
        omega
      rcases hends with hroom | hroom
      · have hinside : roomInPage (a.address + done) < length - done := by omega
        have hltA := pageEnds_add_room_lt a hlength hinside
        rw [← hroom] at hltA
        omega
      · have hinside : roomInPage (b.address + done) < length - done := by omega
        have hltB := pageEnds_add_room_lt b hlength hinside
        rw [← hroom] at hltB
        omega
    · rw [chunkParts, if_neg hlast, List.length_nil]
      omega
  | case2 done hstop =>
    rw [chunkParts, if_neg hstop, List.length_nil]
    omega

theorem length_chunkParts_le_three (hlength : length ≤ pageSize) :
    (chunkParts a b length done).length ≤ 3 := by
  have hparts : (chunkParts a b length done).length ≤
      1 + pageEnds a length done + pageEnds b length done := length_chunkParts_le hlength
  have hone : ∀ p, pageEnds p length done ≤ 1 := by
    intro p
    unfold pageEnds
    split <;> omega
  have honeA := hone a
  have honeB := hone b
  omega

/-! ### What the mask says -/

/-- What whole registers say, wherever the pages end. -/
def wholeMask (k : RegisterKind) (m : Memory) (a b : Pointer) (length : Nat) : Mask :=
  decisiveMask k (m.read a.address k.width) (m.read b.address k.width) length

theorem settles_wholeMask (m : Memory) (hlength : length ≤ k.width) :
    Settles (wholeMask k m a b length) (Decides m a b) length :=
  settles_decisiveMask (shows_read m a.address k.width) (shows_read m b.address k.width) hlength

/-- **A chunk is decided alike on every layout of pages.** At any two addresses and for any length
of at least one byte and at most a register, the mask has no bit beyond the chunk, it is not 0 if
and only if a position of the chunk is decisive, its lowest set bit is then the first of these, and
whole registers give the same one. The parts in which the chunk is read elsewhere lie one after the
other, none of them is empty or leaves a page of either string, and there are at most three. -/
theorem decideChunk_pinpoints (k : RegisterKind) (a b : Pointer) (length : Nat) (hpos : 0 < length)
    (hlength : length ≤ k.width) :
    (∀ s, ∃ mask, Returns (decideChunk k a b length) s mask ∧
        (∀ i, mask.getLsbD i = true → i < length) ∧
        (mask ≠ 0 ↔ ∃ i < length, Decides s.memory a b i) ∧
        (mask ≠ 0 → IsFirst (Decides s.memory a b) length (some mask.firstSet)) ∧
        mask.firstSet? = (wholeMask k s.memory a b length).firstSet?) ∧
      decideInParts k a b length 0 = decideParts k a b (chunkParts a b length 0) ∧
      Tiles 0 (chunkParts a b length 0) length ∧
      (∀ part ∈ chunkParts a b length 0, part.length ≤ roomInPage (a.address + part.offset) ∧
        part.length ≤ roomInPage (b.address + part.offset)) ∧
      (chunkParts a b length 0).length ≤ 3 := by
  refine ⟨fun s => ?_, decideInParts_eq k a b length 0, tiles_chunkParts a b (Nat.zero_le length),
    fun part => inPage_of_mem, length_chunkParts_le_three ?_⟩
  · obtain ⟨mask, hreturns, hmask⟩ :=
      (answers_decideChunk hpos hlength (mayCompare_anything s.memory a b length)).returns
    refine ⟨mask, hreturns, hmask.below, hmask.ne_zero_iff, hmask.isFirst_firstSet, ?_⟩
    exact hmask.isFirst.unique (settles_wholeMask s.memory hlength).isFirst
  · have hwidth := k.width_le
    rw [pageSize]
    omega

/-- Two texts that agree but for one byte. -/
def lateDifference : Memory := ⟨0, #[], fun address => if address = 4103 then 8 else 7⟩

/-- The first text has six bytes up to the end of a page and the second one twelve, so that sixteen
bytes are read in three parts. The difference is in the last of them. -/
theorem decideChunk_pinpoints_threeParts :
    (0 < 16 ∧ 16 ≤ RegisterKind.xmm.width) ∧
      chunkParts ⟨.first, 4090⟩ ⟨.second, 8180⟩ 16 0 = [⟨0, 6⟩, ⟨6, 6⟩, ⟨12, 4⟩] ∧
      ∃ mask, Returns (decideChunk .xmm ⟨.first, 4090⟩ ⟨.second, 8180⟩ 16) ⟨lateDifference, []⟩
        mask ∧ mask.firstSet = 13 := by
  have hdecides : Decides lateDifference ⟨.first, 4090⟩ ⟨.second, 8180⟩ 13 := by decide
  have hfirst : IsFirst (Decides lateDifference ⟨.first, 4090⟩ ⟨.second, 8180⟩) 16 (some 13) := by
    decide
  have hparts : chunkParts ⟨.first, 4090⟩ ⟨.second, 8180⟩ 16 0 = [⟨0, 6⟩, ⟨6, 6⟩, ⟨12, 4⟩] := by
    simp [chunkParts, partLength, roomInPage, pageSize]
  obtain ⟨mask, hreturns, _, hne, hlowest, _⟩ := (decideChunk_pinpoints .xmm ⟨.first, 4090⟩
    ⟨.second, 8180⟩ 16 (by decide) (by decide)).1 ⟨lateDifference, []⟩
  refine ⟨by decide, hparts, mask, hreturns, ?_⟩
  have hfound := hlowest (hne.mpr ⟨13, by decide, hdecides⟩)
  exact Option.some.inj (hfound.unique hfirst)

end Kernel

end ByteRoutines
