import ByteRoutines.Slice.Read
import ByteRoutines.Proofs.Routine.Compare
import ByteRoutines.Proofs.Routine.Pages
import ByteRoutines.Proofs.Routine.Region
import ByteRoutines.Proofs.Slice.Confined
import ByteRoutines.Proofs.Slice.Order
import ByteRoutines.Proofs.Slice.Write

/-!
# Comparing slices

The wrappers that compare two slices answer what a comparison of their bytes
answers, one byte after the other: of texts that may end with their slice
(`Slice.answers_strncmp`), and of lists of bytes as a whole
(`Slice.answers_memcmp`).

What a slice may be read for is `Slice.MayRead`, and what the wrappers need of
a table is that its routines answer for the first bytes of both slices
(`ServesReads`). The table of a process does so whatever is `ok` of an access,
and also after it was made to stop at each call outside the two slices
(`servesReads_readingWithin`).
-/

namespace ByteRoutines

open Exec Kernel

variable {ok : Event → Prop} {table : RoutineTable} {m : Memory} {s t : Slice} {n : Nat}

/-! ### What may be read -/

/-- The bytes of the slice may be loaded, and of the page of each of them any. -/
structure Slice.MayRead (ok : Event → Prop) (s : Slice) : Prop where
  load : ∀ mode, MayLoad ok mode s.start s.length
  page : ∀ i < s.length, MayLoadPage ok (s.start + i)

namespace Slice

theorem mayRead_anything (s : Slice) : s.MayRead fun _ => True :=
  ⟨fun _ _ _ _ => trivial, fun _ _ _ _ _ _ => trivial⟩

theorem mayRead_near {bounds : Bounds} (h : bounds s.start.operand = s.region) :
    s.MayRead (Event.LoadsNear bounds) where
  load _ := mayLoad_near fun i hi => by
    rw [h]
    exact Region.add_mem hi
  page i hi := mayLoadPage_near (by
    show s.start.address + i ∈ bounds s.start.operand
    rw [h]
    exact Region.add_mem hi)

theorem MayRead.region (h : s.MayRead ok) (k : RegisterKind) (hn : n ≤ s.length) :
    MayLoadRegion ok k s.start n where
  load mode off length hle := h.load mode off length (Nat.le_trans hle hn)
  page hpos _ := h.page 0 (Nat.lt_of_lt_of_le hpos hn)

theorem MayRead.compare (hs : s.MayRead ok) (ht : t.MayRead ok) (hn : n ≤ s.length)
    (hn' : n ≤ t.length) : MayCompare ok m s.start t.start n :=
  fun i hi _ => ⟨hs.page i (Nat.lt_of_lt_of_le hi hn), ht.page i (Nat.lt_of_lt_of_le hi hn')⟩

end Slice

/-! ### Tables that answer for slices -/

/-- The routines answer what they are for, on the first bytes of both slices. -/
structure RoutineTable.ServesReads (ok : Event → Prop) (table : RoutineTable) (s t : Slice) :
    Prop where
  memcmp : ∀ m n, n ≤ s.length → n ≤ t.length →
    Answers ok (table .memcmp s.start t.start n) m fun value => ∃ found,
      IsFirst (Differs m s.start t.start) n found ∧
        value = differenceAt m s.start.address t.start.address found
  strncmp : ∀ m n, n ≤ s.length → n ≤ t.length →
    Answers ok (table .strncmp s.start t.start n) m fun value => ∃ found,
      IsFirst (Decides m s.start t.start) n found ∧
        value = differenceAt m s.start.address t.start.address found
  memchr : ∀ m byte n, n ≤ s.length →
    Answers ok (table .memchr s.start byte n) m fun result => ∃ found,
      IsFirst (fun i => m.get (s.start.address + i) = byte) n found ∧
        result = found.map (s.start + ·)

/-- The table of a process answers for any two slices, whatever the operations are bound to. -/
theorem servesReads_table (dispatch : Dispatch) (hs : s.MayRead ok) (ht : t.MayRead ok) :
    dispatch.table.ServesReads ok s t where
  memcmp _ _ hn hn' := answers_memcmp (hs.region _ hn) (ht.region _ hn')
  strncmp _ _ hn hn' := answers_strncmp (hs.compare ht hn hn')
  memchr _ _ _ hn := answers_memchr (hs.region _ hn)

/-- The table that halts at each call that does not read within the first region with its first
operand and within the second with its second. The last operations always halt: no comparison of
slices calls them. -/
noncomputable def RoutineTable.readingWithin (table : RoutineTable) (first second : Region) :
    RoutineTable
  | .memcmp => fun a b n => provided
      (fun _ => Region.Inside ⟨a.address, n⟩ first ∧ Region.Inside ⟨b.address, n⟩ second)
      (table .memcmp a b n)
  | .strncmp => fun a b n => provided
      (fun _ => Region.Inside ⟨a.address, n⟩ first ∧ Region.Inside ⟨b.address, n⟩ second)
      (table .strncmp a b n)
  | .memchr => fun p byte n => provided (fun _ => Region.Inside ⟨p.address, n⟩ first)
      (table .memchr p byte n)
  | .memcpy | .mempcpy | .memmove | .strncpy | .strncat => fun _ _ _ => halt
  | .memset => fun _ _ _ => halt
  | .strcpy | .strcat => fun _ _ => halt
  | .strcmp => fun _ _ => halt
  | .strstr => fun _ _ => halt
  | .strlen => fun _ => halt
  | .strchr => fun _ _ => halt

theorem readingWithin_restricts (table : RoutineTable) (first second : Region) :
    (table.readingWithin first second).Restricts table := by
  intro op
  cases op with
  | memcmp | strncmp | memchr =>
    simp only [Operation.EachRun, RoutineTable.readingWithin]
    intros
    exact restricts_provided _ _
  | memcpy | mempcpy | memmove | memset | strncpy | strncat =>
    exact fun _ _ _ => restricts_halt _
  | strcpy | strcat | strcmp | strstr | strchr => exact fun _ _ => restricts_halt _
  | strlen => exact fun _ => restricts_halt _

theorem servesReads_readingWithin (h : table.ServesReads ok s t) :
    (table.readingWithin s.region t.region).ServesReads ok s t where
  memcmp m n hn hn' := by
    rw [RoutineTable.readingWithin]
    exact (h.memcmp m n hn hn').provided ⟨s.inside_region.take hn, t.inside_region.take hn'⟩
  strncmp m n hn hn' := by
    rw [RoutineTable.readingWithin]
    exact (h.strncmp m n hn hn').provided ⟨s.inside_region.take hn, t.inside_region.take hn'⟩
  memchr m byte n hn := by
    rw [RoutineTable.readingWithin]
    exact (h.memchr m byte n hn).provided (s.inside_region.take hn)

namespace Slice

/-! ### Bytes of slices -/

theorem endless_bytes (s : Slice) (m : Memory) (i : Nat) :
    endless (s.bytes m) i = if i < s.length then m.get (s.start.address + i) else 0 := by
  rw [endless, List.getD_eq_getElem?_getD, getElem?_bytes]
  split <;> rfl

theorem endless_bytes_of_lt {i : Nat} (hi : i < s.length) :
    endless (s.bytes m) i = m.get (s.start.address + i) := by
  rw [endless_bytes, if_pos hi]

/-- As far as both slices go, the texts in them are decided where memory is. -/
theorem decisive_iff {i : Nat} (hi : i < s.length) (hi' : i < t.length) :
    Decisive (endless (s.bytes m)) (endless (t.bytes m)) i ↔ Decides m s.start t.start i := by
  rw [Decisive, endless_bytes_of_lt hi, endless_bytes_of_lt hi', Decides]

/-- Where one of the slices has ended, so has a text: it is decided there or before. -/
theorem decisive_of_ended {i : Nat} (h : s.length ≤ i ∨ t.length ≤ i) :
    Decisive (endless (s.bytes m)) (endless (t.bytes m)) i := by
  rw [Decisive, endless_bytes, endless_bytes]
  rcases h with hs | ht
  · exact Or.inl (if_neg (by omega))
  · rw [if_neg (by omega : ¬ i < t.length)]
    exact Classical.em _

/-- Slices agree as far as they do not differ. -/
theorem take_bytes_eq (h : IsFirst (Differs m s.start t.start) n none) (hn : n ≤ s.length)
    (hn' : n ≤ t.length) : (s.bytes m).take n = (t.bytes m).take n := by
  refine List.ext_getElem? fun i => ?_
  rw [List.getElem?_take, List.getElem?_take]
  split
  · rename_i hi
    rw [getElem?_bytes, getElem?_bytes, if_pos (by omega), if_pos (by omega),
      Decidable.not_not.mp (h i hi)]
  · rfl

/-! ### The wrappers -/

theorem answers_byteAt (hs : s.MayRead ok) (i : Nat) :
    Answers ok (s.byteAt i) m fun byte => byte = endless (s.bytes m) i := by
  rw [byteAt, endless_bytes]
  split
  · rename_i hi
    refine (runs_loadByte (hs.load .plain i 1 hi)).ends ⟨rfl, ?_⟩
    rw [Pointer.address_add]
  · exact answers_pure rfl

/-- The search of the first bytes of a slice. -/
theorem answers_memchr_take {byte : UInt8} (h : table.ServesReads ok s t) (hn : n ≤ s.length) :
    Answers ok (memchr table (s.take n) byte) m
      (IsFirst (fun i => m.get (s.start.address + i) = byte) n) := by
  unfold memchr RoutineTable.findIn
  rw [lowByte_toInt32, take, Nat.min_eq_left hn]
  refine (h.memchr m byte n hn).bind ?_
  rintro _ ⟨found, hfirst, rfl⟩
  exact answers_indexFrom hfirst

section

variable {common i : Nat} {found : Option Nat}

/-- What is found in memory, as far as both slices go, is found in their bytes. -/
theorem isFirst_decisive (h : IsFirst (Decides m s.start t.start) common found)
    (hs : common ≤ s.length) (ht : common ≤ t.length) :
    IsFirst (Decisive (endless (s.bytes m)) (endless (t.bytes m))) common found :=
  h.congr fun _ hi =>
    (decisive_iff (Nat.lt_of_lt_of_le hi hs) (Nat.lt_of_lt_of_le hi ht)).symm

/-- What decides within both slices decides a comparison of the texts. -/
theorem compareTexts_of_decides (h : IsFirst (Decides m s.start t.start) common (some i))
    (hs : common ≤ s.length) (ht : common ≤ t.length) (hn : common ≤ n) :
    compareTexts (endless (s.bytes m)) (endless (t.bytes m)) 0 n =
      differenceAt m s.start.address t.start.address (some i) := by
  have hi : i < common := h.1
  rw [compareTexts_eq ((isFirst_decisive h hs ht).of_some (Nat.lt_of_lt_of_le hi hn)), orderAt,
    endless_bytes_of_lt (by omega), endless_bytes_of_lt (by omega)]
  rfl

/-- Where nothing decides up to the bound, the texts are the same to a comparison. -/
theorem compareTexts_of_bound (h : IsFirst (Decides m s.start t.start) n none)
    (hs : n ≤ s.length) (ht : n ≤ t.length) :
    compareTexts (endless (s.bytes m)) (endless (t.bytes m)) 0 n = 0 :=
  compareTexts_eq (isFirst_decisive h hs ht)

/-- Where nothing decides up to the end of a slice, the bytes behind it do, one of which is zero. -/
theorem compareTexts_of_ended (h : IsFirst (Decides m s.start t.start) common none)
    (hs : common ≤ s.length) (ht : common ≤ t.length) (hlt : common < n)
    (hended : s.length ≤ common ∨ t.length ≤ common) :
    compareTexts (endless (s.bytes m)) (endless (t.bytes m)) 0 n =
      byteOrder (endless (s.bytes m) common) (endless (t.bytes m) common) := by
  have hfirst : IsFirst (Decisive (endless (s.bytes m)) (endless (t.bytes m))) n (some common) :=
    ⟨hlt, decisive_of_ended hended, isFirst_decisive h hs ht⟩
  exact compareTexts_eq hfirst

end

/-- **The comparison of two slices as texts** is that of their bytes with zeros behind them. -/
theorem answers_strncmp (h : table.ServesReads ok s t) (hs : s.MayRead ok) (ht : t.MayRead ok) :
    Answers ok (strncmp table s t n) m fun value =>
      value = compareTexts (endless (s.bytes m)) (endless (t.bytes m)) 0 n := by
  unfold strncmp
  obtain ⟨common, hcommon⟩ : ∃ common, min (min n s.length) t.length = common := ⟨_, rfl⟩
  simp only [hcommon]
  have hcs : common ≤ s.length := by omega
  have hct : common ≤ t.length := by omega
  refine (h.strncmp m common hcs hct).bind ?_
  rintro _ ⟨found, hfound, rfl⟩
  cases found with
  | some i =>
    rw [compareTexts_of_decides hfound hcs hct (by omega)]
    split
    · exact answers_pure rfl
    · rename_i hgo
      rw [not_or] at hgo
      -- The slices agree at the position, so it is the end of the text, and a zero is found.
      have hzero : m.get (s.start.address + i) = 0 :=
        hfound.2.1.resolve_right (not_not_intro (byteOrder_eq_zero_iff.mp
          (Decidable.not_not.mp hgo.1)))
      refine (answers_memchr_take h hcs).bind fun zero hfirst => ?_
      cases zero with
      | none => exact absurd hzero (hfirst i hfound.1)
      | some j => exact answers_pure rfl
  | none =>
    split
    · rename_i hstop
      have hall : common = n := hstop.resolve_left (not_not_intro rfl)
      subst hall
      exact answers_pure (compareTexts_of_bound hfound hcs hct).symm
    · rename_i hgo
      rw [not_or] at hgo
      refine (answers_memchr_take h hcs).bind fun zero hfirst => ?_
      cases zero with
      | some j => exact absurd (Or.inl hfirst.2.1) (hfound j hfirst.1)
      | none =>
        rw [compareTexts_of_ended hfound hcs hct (by omega) (by omega)]
        refine (answers_byteAt hs common).bind ?_
        rintro _ rfl
        refine (answers_byteAt ht common).bind ?_
        rintro _ rfl
        exact answers_pure rfl

/-- **The comparison of two slices as a whole** is that of their bytes. -/
theorem answers_memcmp (h : table.ServesReads ok s t) :
    Answers ok (memcmp table s t) m fun value =>
      value = compareBytes (s.bytes m) (t.bytes m) := by
  have hs : min s.length t.length ≤ s.length := Nat.min_le_left _ _
  have ht : min s.length t.length ≤ t.length := Nat.min_le_right _ _
  refine (h.memcmp m _ hs ht).bind ?_
  rintro _ ⟨found, hfound, rfl⟩
  cases found with
  | some i =>
    obtain ⟨hi, hdiffers, hbelow⟩ := hfound
    have hvalue : compareBytes (s.bytes m) (t.bytes m) =
        byteOrder (m.get (s.start.address + i)) (m.get (t.start.address + i)) := by
      refine compareBytes_of_differ (take_bytes_eq hbelow (by omega) (by omega)) ?_ ?_ hdiffers
      · rw [getElem?_bytes, if_pos (by omega)]
      · rw [getElem?_bytes, if_pos (by omega)]
    have hne : differenceAt m s.start.address t.start.address (some i) ≠ 0 :=
      mt byteOrder_eq_zero_iff.mp hdiffers
    rw [if_pos hne]
    exact answers_pure hvalue.symm
  | none =>
    have hvalue : compareBytes (s.bytes m) (t.bytes m) = lengthOrder s.length t.length := by
      rw [compareBytes_of_agree, length_bytes, length_bytes]
      rw [length_bytes, length_bytes]
      exact take_bytes_eq hfound hs ht
    have hzero : differenceAt m s.start.address t.start.address none = 0 := rfl
    rw [hvalue, lengthOrder, if_neg (not_not_intro hzero)]
    split
    · exact answers_pure rfl
    · split
      · exact answers_pure rfl
      · exact answers_pure rfl

variable {table' : RoutineTable}

theorem restricts_strncmp (h : table.Restricts table') :
    Restricts (strncmp table s t n) (strncmp table' s t n) := by
  refine (h .strncmp _ _ _).bind fun difference => ?_
  split
  · exact Restricts.refl _
  · exact (restricts_memchr h 0).bind fun _ => Restricts.refl _

theorem restricts_memcmp (h : table.Restricts table') :
    Restricts (memcmp table s t) (memcmp table' s t) :=
  (h .memcmp _ _ _).bind fun _ => Restricts.refl _

end Slice

/-! ### Comparisons over the table of a process -/

/-- Run from `st`, the wrapper answers this value, leaves memory as it is, and makes no call that
goes outside the two slices. -/
def AnswersWithin (read : RoutineTable → Exec Int) (table : RoutineTable) (st : Machine)
    (s t : Slice) (value : Int) : Prop :=
  ∃ st', read table st = .ok value st' ∧
    read (table.readingWithin s.region t.region) st = .ok value st' ∧ st'.memory = st.memory

theorem answersWithin {read : RoutineTable → Exec Int} {st : Machine} {value : Int}
    (h : Answers (fun _ => True) (read (table.readingWithin s.region t.region)) st.memory
      (· = value))
    (hrestricts : Restricts (read (table.readingWithin s.region t.region)) (read table)) :
    AnswersWithin read table st s t value := by
  obtain ⟨_, ⟨st', hrun, hmem⟩, rfl⟩ := h.returns
  exact ⟨st', hrestricts st _ st' hrun, hrun, hmem⟩

theorem AnswersWithin.returns {read : RoutineTable → Exec Int} {st : Machine} {value : Int}
    (h : AnswersWithin read table st s t value) : Returns (read table) st value := by
  obtain ⟨st', hrun, _, hmem⟩ := h
  exact ⟨st', hrun, hmem⟩

theorem strncmp_answersWithin (dispatch : Dispatch) (st : Machine) (s t : Slice) (n : Nat) :
    AnswersWithin (Slice.strncmp · s t n) dispatch.table st s t
      (compareTexts (endless (s.bytes st.memory)) (endless (t.bytes st.memory)) 0 n) :=
  answersWithin (Slice.answers_strncmp (servesReads_readingWithin (servesReads_table dispatch
      s.mayRead_anything t.mayRead_anything)) s.mayRead_anything t.mayRead_anything)
    (Slice.restricts_strncmp (readingWithin_restricts _ _ _))

theorem memcmp_answersWithin (dispatch : Dispatch) (st : Machine) (s t : Slice) :
    AnswersWithin (Slice.memcmp · s t) dispatch.table st s t
      (compareBytes (s.bytes st.memory) (t.bytes st.memory)) :=
  answersWithin (Slice.answers_memcmp (servesReads_readingWithin (servesReads_table dispatch
      s.mayRead_anything t.mayRead_anything)))
    (Slice.restricts_memcmp (readingWithin_restricts _ _ _))

/-- The comparisons of two slices, run from `st`. -/
structure ComparesSlices (table : RoutineTable) (st : Machine) (s t : Slice) : Prop where
  /-- A slice that holds no terminator ends like a text that has one behind it. -/
  strncmp : ∀ n, AnswersWithin (Slice.strncmp · s t n) table st s t
    (compareTexts (endless (s.bytes st.memory)) (endless (t.bytes st.memory)) 0 n)
  strncmp_swap : ∀ n v, Returns (Slice.strncmp table s t n) st v →
    Returns (Slice.strncmp table t s n) st (-v)
  memcmp : ∃ v, AnswersWithin (Slice.memcmp · s t) table st s t v ∧
    Orders (s.bytes st.memory) (t.bytes st.memory) v
  memcmp_swap : ∀ v, Returns (Slice.memcmp table s t) st v →
    Returns (Slice.memcmp table t s) st (-v)
  memcmp_trans : ∀ u v w, Returns (Slice.memcmp table s t) st v →
    Returns (Slice.memcmp table t u) st w → v ≤ 0 → w ≤ 0 →
      ∃ x ≤ 0, Returns (Slice.memcmp table s u) st x
  /-- Nothing but the bytes of the two slices has an influence. -/
  same_bytes : ∀ st' : Machine, s.bytes st'.memory = s.bytes st.memory →
    t.bytes st'.memory = t.bytes st.memory →
      (∀ n v, Returns (Slice.strncmp table s t n) st v →
        Returns (Slice.strncmp table s t n) st' v) ∧
      ∀ v, Returns (Slice.memcmp table s t) st v → Returns (Slice.memcmp table s t) st' v
  /-- A register may reach beyond a slice, but not beyond the last page that a byte of it is in. -/
  reads_near : s.start.operand = .first → t.start.operand = .second →
    (∀ n, ReadsNear (Slice.strncmp table s t n) st s.region t.region) ∧
      ReadsNear (Slice.memcmp table s t) st s.region t.region

/-- **The comparisons of slices are orders**, whatever the operations are bound to and whatever
memory holds. As texts, slices are compared byte by byte with zeros behind their ends, and to
exchange them changes the sign; as a whole, they are compared by the first difference and then by
their lengths, which is the lexicographic order. What lies behind a slice has no influence: no call
goes beyond it, and no byte is loaded from a page that holds none of its own. -/
theorem slices_compare_in_order (dispatch : Dispatch) (st : Machine) (s t : Slice) :
    ComparesSlices dispatch.table st s t where
  strncmp := strncmp_answersWithin dispatch st s t
  strncmp_swap n v h := by
    rw [h.unique (strncmp_answersWithin dispatch st s t n).returns, ← compareTexts_swap]
    exact (strncmp_answersWithin dispatch st t s n).returns
  memcmp := ⟨_, memcmp_answersWithin dispatch st s t, orders_compareBytes _ _⟩
  memcmp_swap v h := by
    rw [h.unique (memcmp_answersWithin dispatch st s t).returns, ← compareBytes_swap]
    exact (memcmp_answersWithin dispatch st t s).returns
  memcmp_trans u v w hv hw hnonpos hnonpos' := by
    rw [hv.unique (memcmp_answersWithin dispatch st s t).returns,
      (orders_compareBytes _ _).nonpos_iff] at hnonpos
    rw [hw.unique (memcmp_answersWithin dispatch st t u).returns,
      (orders_compareBytes _ _).nonpos_iff] at hnonpos'
    exact ⟨_, (orders_compareBytes _ _).nonpos_iff.mpr (List.le_trans hnonpos hnonpos'),
      (memcmp_answersWithin dispatch st s u).returns⟩
  same_bytes st' hs ht := by
    refine ⟨fun n v h => ?_, fun v h => ?_⟩
    · rw [h.unique (strncmp_answersWithin dispatch st s t n).returns, ← hs, ← ht]
      exact (strncmp_answersWithin dispatch st' s t n).returns
    · rw [h.unique (memcmp_answersWithin dispatch st s t).returns, ← hs, ← ht]
      exact (memcmp_answersWithin dispatch st' s t).returns
  reads_near hfirst hsecond := by
    have hs : s.MayRead (Event.LoadsNear (.of s.region t.region)) :=
      Slice.mayRead_near (by rw [hfirst]; rfl)
    have ht : t.MayRead (Event.LoadsNear (.of s.region t.region)) :=
      Slice.mayRead_near (by rw [hsecond]; rfl)
    have hserves := servesReads_table dispatch hs ht
    exact ⟨fun n => (Slice.answers_strncmp hserves hs ht).does,
      (Slice.answers_memcmp hserves).does⟩

/-- Three slices one behind the other: two bytes, the same with a third one behind them, which
stands in the next page, and the same with a terminator and another byte behind them. -/
def sharedStart : Memory := ⟨4092, #[97, 98, 97, 98, 99, 97, 98, 0, 100], fun _ => 1⟩

/-- As texts, the first and the last of them are the same; as a whole, the last one lies between the
other two. -/
theorem slices_compare_in_order_sharedStart :
    Returns (Slice.strncmp (Dispatch.new Cpu.Features.baseline Config.Overrides.empty).1.table
        ⟨⟨.first, 4092⟩, 2⟩ ⟨⟨.second, 4094⟩, 3⟩ 5) ⟨sharedStart, []⟩ (-99) ∧
      Returns (Slice.strncmp (Dispatch.new Cpu.Features.baseline Config.Overrides.empty).1.table
        ⟨⟨.first, 4092⟩, 2⟩ ⟨⟨.second, 4097⟩, 4⟩ 5) ⟨sharedStart, []⟩ 0 ∧
      (∃ x ≤ 0, Returns (Slice.memcmp
        (Dispatch.new Cpu.Features.baseline Config.Overrides.empty).1.table
          ⟨⟨.first, 4092⟩, 2⟩ ⟨⟨.second, 4094⟩, 3⟩) ⟨sharedStart, []⟩ x) ∧
      ReadsNear (Slice.memcmp (Dispatch.new Cpu.Features.baseline Config.Overrides.empty).1.table
        ⟨⟨.first, 4097⟩, 4⟩ ⟨⟨.second, 4094⟩, 3⟩) ⟨sharedStart, []⟩ ⟨4097, 4⟩ ⟨4094, 3⟩ := by
  have horder := slices_compare_in_order
    (Dispatch.new Cpu.Features.baseline Config.Overrides.empty).1 ⟨sharedStart, []⟩
  have hshorter := (horder ⟨⟨.first, 4092⟩, 2⟩ ⟨⟨.second, 4094⟩, 3⟩).strncmp 5
  have hended := (horder ⟨⟨.first, 4092⟩, 2⟩ ⟨⟨.second, 4097⟩, 4⟩).strncmp 5
  obtain ⟨v, hv, hvorder⟩ := (horder ⟨⟨.first, 4092⟩, 2⟩ ⟨⟨.first, 4097⟩, 4⟩).memcmp
  obtain ⟨w, hw, hworder⟩ := (horder ⟨⟨.first, 4097⟩, 4⟩ ⟨⟨.second, 4094⟩, 3⟩).memcmp
  refine ⟨hshorter.returns, hended.returns, ?_, ?_⟩
  · refine (horder ⟨⟨.first, 4092⟩, 2⟩ ⟨⟨.first, 4097⟩, 4⟩).memcmp_trans
      ⟨⟨.second, 4094⟩, 3⟩ v w hv.returns hw.returns ?_ ?_
    · exact Int.le_of_lt (hvorder.neg_iff.mpr (by decide))
    · exact Int.le_of_lt (hworder.neg_iff.mpr (by decide))
  · exact ((horder ⟨⟨.first, 4097⟩, 4⟩ ⟨⟨.second, 4094⟩, 3⟩).reads_near rfl rfl).2

end ByteRoutines
