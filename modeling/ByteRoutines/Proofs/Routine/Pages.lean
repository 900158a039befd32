import ByteRoutines.Proofs.Memory.Footprint
import ByteRoutines.Proofs.Kernel.Bounded
import ByteRoutines.Proofs.Kernel.StringCopy
import ByteRoutines.Proofs.Routine.Find

/-!
# Which pages are read

A whole register may hold bytes behind those that a routine is about. That is
no fault as long as the page they lie in is one that the routine may read: one
that holds a byte of the string up to where the routine stops, or of the region
it was given (`ReadsNear`).

* `strncmp_reads_near`: comparisons read the pages of both strings up to the
  position at which they are decided, and no others.
* `strstr_reads_near`: the search for a string reads the pages of the two
  strings.
* `readsContract`: what scans, searches of a region and copies of a string read
  is collected in `ReadsContract`.

A stop is where a routine has to stop, for what follows may be unmapped. So
nothing is assumed about memory behind it, and a source of `n` bytes need not
be terminated.
-/

namespace ByteRoutines

open Exec Event Kernel

variable {m : Memory} {k : RegisterKind} {bounds : Bounds} {p dst : Pointer} {first : Region}
  {a b src l n reach : Nat} {found : Option Nat}

theorem mayLoadString_near (h : ∀ i ≤ l, p.address + i ∈ bounds p.operand) :
    MayLoadString (LoadsNear bounds) p l :=
  fun i hi => mayLoadPage_near (h i hi)

theorem mayLoadRegion_near (h : ∀ i < n, p.address + i ∈ bounds p.operand) :
    MayLoadRegion (LoadsNear bounds) k p n where
  load _ := mayLoad_near h
  page hpos _ := mayLoadPage_near (h 0 hpos)

/-- A region of at least a register is read within its bounds. -/
theorem mayLoadRegion_within (hwidth : k.width ≤ n)
    (h : ∀ i < n, p.address + i ∈ bounds p.operand) :
    MayLoadRegion (LoadsWithin bounds) k p n where
  load _ := mayLoad_within h
  page _ hshort := absurd hwidth (Nat.not_le.mpr hshort)

/-! ### Comparisons of strings -/

theorem mayCompare_near
    (h : ∀ i < n, IsFirst (Decides m ⟨.first, a⟩ ⟨.second, b⟩) i none → i < reach) :
    MayCompare (LoadsNear (.of ⟨a, reach⟩ ⟨b, reach⟩)) m ⟨.first, a⟩ ⟨.second, b⟩ n := by
  intro i hi hnone
  have hreach := h i hi hnone
  exact ⟨mayLoadPage_near (Region.add_mem hreach), mayLoadPage_near (Region.add_mem hreach)⟩

/-- **A comparison reads no page that its strings do not reach.** Of each string it reads pages
that hold a byte up to the position at which the comparison is decided, or one of the first `n`
bytes if it is not. -/
theorem strncmp_reads_near (k : RegisterKind) (s : Machine) (a b : Nat) :
    (∀ n, ∃ found, IsFirst (Decides s.memory ⟨.first, a⟩ ⟨.second, b⟩) n found ∧
        ReadsNear (Kernel.strncmp k ⟨.first, a⟩ ⟨.second, b⟩ n) s
          ⟨a, searched n found⟩ ⟨b, searched n found⟩) ∧
      (∀ i, IsFirst (Decides s.memory ⟨.first, a⟩ ⟨.second, b⟩) (i + 1) (some i) →
        ReadsNear (Kernel.strcmp k ⟨.first, a⟩ ⟨.second, b⟩) s ⟨a, i + 1⟩ ⟨b, i + 1⟩) ∧
      ∀ o, LeavesUnread o (Kernel.strncmp k ⟨.first, a⟩ ⟨.second, b⟩ 0) s := by
  refine ⟨fun n => ?_, fun i hdecided => ?_, ?_⟩
  · obtain ⟨found, hfirst⟩ :=
      IsFirst.exists_found (Decides s.memory ⟨.first, a⟩ ⟨.second, b⟩) n
    exact ⟨found, hfirst,
      (answers_strncmp (mayCompare_near fun i hi hnone => hfirst.lt_searched hnone hi)).does⟩
  · refine (answers_strncmp (mayCompare_near fun j _ hnone => ?_)).does
    exact Nat.lt_succ_of_le (Nat.not_lt.mp fun hlt => hnone i hlt hdecided.2.1)
  · have hnear : ReadsNear (Kernel.strncmp k ⟨.first, a⟩ ⟨.second, b⟩ 0) s ⟨a, 0⟩ ⟨b, 0⟩ :=
      (answers_strncmp (mayCompare_near fun i hi _ => hi)).does
    rintro (_ | _)
    · exact hnear.leavesUnread_first
    · exact hnear.leavesUnread_second

/-- Two strings of one byte each, two bytes up to the end of a page, and two in the next one. -/
def beforePageEnd : Memory := ⟨4088, #[97, 0, 1, 1, 98, 0, 97, 98, 97, 99], fun _ => 1⟩

/-- The last byte of the page decides the comparison, so nothing is read of the page behind it. -/
theorem strcmp_reads_near_beforePageEnd :
    IsFirst (Decides beforePageEnd ⟨.first, 4094⟩ ⟨.second, 4096⟩) 2 (some 1) ∧
      ReadsNear (Kernel.strcmp .zmm ⟨.first, 4094⟩ ⟨.second, 4096⟩) ⟨beforePageEnd, []⟩
        ⟨4094, 2⟩ ⟨4096, 2⟩ := by
  have hdecided : IsFirst (Decides beforePageEnd ⟨.first, 4094⟩ ⟨.second, 4096⟩) 2 (some 1) :=
    by decide
  exact ⟨hdecided, (strncmp_reads_near .zmm ⟨beforePageEnd, []⟩ 4094 4096).2.1 1 hdecided⟩

/-! ### The search for a string -/

/-- **The search for a string reads no page without a byte of the two strings**, their terminators
included. -/
theorem strstr_reads_near (k : RegisterKind) (s : Machine) (haystack needle l n : Nat)
    (hhaystack : StringAt s.memory haystack l) (hneedle : StringAt s.memory needle n) :
    ReadsNear (Kernel.strstr k ⟨.first, haystack⟩ ⟨.second, needle⟩) s
      ⟨haystack, l + 1⟩ ⟨needle, n + 1⟩ := by
  have mayHaystack : MayLoadString (LoadsNear (.of ⟨haystack, l + 1⟩ ⟨needle, n + 1⟩))
      ⟨.first, haystack⟩ l :=
    mayLoadString_near fun _ hi => Region.add_mem (Nat.lt_succ_of_le hi)
  have mayNeedle : MayLoadString (LoadsNear (.of ⟨haystack, l + 1⟩ ⟨needle, n + 1⟩))
      ⟨.second, needle⟩ n :=
    mayLoadString_near fun _ hi => Region.add_mem (Nat.lt_succ_of_le hi)
  exact (answers_strstr hhaystack hneedle mayHaystack mayNeedle).does

/-- The false start at the end of a page is followed into the next one, which holds the rest. -/
theorem strstr_reads_near_repeatedStart :
    (StringAt repeatedStart 4093 4 ∧ StringAt repeatedStart 4098 3) ∧
      ReadsNear (Kernel.strstr .xmm ⟨.first, 4093⟩ ⟨.second, 4098⟩) ⟨repeatedStart, []⟩
        ⟨4093, 5⟩ ⟨4098, 4⟩ := by
  have hhaystack : StringAt repeatedStart 4093 4 := ⟨by decide, by decide, by decide⟩
  have hneedle : StringAt repeatedStart 4098 3 := ⟨by decide, by decide, by decide⟩
  exact ⟨⟨hhaystack, hneedle⟩,
    strstr_reads_near .xmm ⟨repeatedStart, []⟩ 4093 4098 4 3 hhaystack hneedle⟩

/-! ### Scans, searches of a region and copies of a string -/

theorem mayCopyString_near (hfirst : IsFirst (ZeroAt m ⟨.second, src⟩) n found)
    (hapart : Region.Apart ⟨dst.address, reach⟩ ⟨src, reach⟩) (hreach : searched n found ≤ reach) :
    MayCopyString (LoadsNear (.of first ⟨src, reach⟩)) m dst ⟨.second, src⟩ n found where
  isFirst := hfirst
  apart := hapart.take hreach
  load _ hi := mayLoadPage_near (Region.add_mem (Nat.lt_of_lt_of_le hi hreach))
  store _ := mayStore_near

/-- A string is copied whole under the largest bound, or the bound ends before it does. -/
theorem mayCopyString_near_of_string (dst : Pointer) (h : StringAt m src l)
    (hapart : Region.Apart ⟨dst.address, l + 1⟩ ⟨src, l + 1⟩) :
    ∃ found, MayCopyString (LoadsNear (.of first ⟨src, l + 1⟩)) m dst ⟨.second, src⟩
      maxLength found := by
  obtain ⟨found, hfirst⟩ := IsFirst.exists_found (ZeroAt m ⟨.second, src⟩) maxLength
  exact ⟨found, mayCopyString_near hfirst hapart (searched_le_of_string h hfirst)⟩

theorem mayScan_near {second : Region} (stop : StopSet)
    (hstop : stop.EndsAt m ⟨.first, a⟩ l) :
    MayScan (LoadsNear (.of ⟨a, l + 1⟩ second)) m stop ⟨.first, a⟩ :=
  mayScan_of_endsAt hstop (mayLoadString_near fun _ hi => Region.add_mem (Nat.lt_succ_of_le hi))

theorem memchr_reads_near (k : RegisterKind) (s : Machine) (p : Nat) (byte : UInt8) (n : Nat) :
    ReadsNear (Kernel.memchr k ⟨.first, p⟩ byte n) s ⟨p, n⟩ .empty :=
  (answers_memchr (mayLoadRegion_near fun _ hi => Region.add_mem hi)).does

theorem memcmp_reads_near (k : RegisterKind) (s : Machine) (a b n : Nat) :
    ReadsNear (Kernel.memcmp k ⟨.first, a⟩ ⟨.second, b⟩ n) s ⟨a, n⟩ ⟨b, n⟩ :=
  (answers_memcmp (mayLoadRegion_near fun _ hi => Region.add_mem hi)
    (mayLoadRegion_near fun _ hi => Region.add_mem hi)).does

theorem strncpy_reads_near {s : Machine} {policy : LoopPolicy} {dst : Nat}
    (hfirst : IsFirst (ZeroAt s.memory ⟨.second, src⟩) n found)
    (hapart : Region.Apart ⟨dst, searched n found⟩ ⟨src, searched n found⟩) :
    ReadsNear (Kernel.strncpy k policy ⟨.first, dst⟩ ⟨.second, src⟩ n) s
      .empty ⟨src, searched n found⟩ := by
  have mayFill : MayFill (LoadsNear (.of .empty ⟨src, searched n found⟩)) ⟨.first, dst⟩ n :=
    ⟨fun _ => mayStore_near, loadsWithin_fence.near⟩
  exact (ends_strncpy (mayCopyString_near hfirst hapart (Nat.le_refl _)) mayFill).does

theorem strncat_reads_near {s : Machine} {dst : Nat} (hdst : StringAt s.memory dst l)
    (hfirst : IsFirst (ZeroAt s.memory ⟨.second, src⟩) n found)
    (hapart : Region.Apart ⟨dst + l, searched n found⟩ ⟨src, searched n found⟩) :
    ReadsNear (Kernel.strncat k ⟨.first, dst⟩ ⟨.second, src⟩ n) s
      ⟨dst, l + 1⟩ ⟨src, searched n found⟩ := by
  have may : MayCopyString (LoadsNear (.of ⟨dst, l + 1⟩ ⟨src, searched n found⟩)) s.memory
      (Pointer.mk .first dst + l) ⟨.second, src⟩ n found :=
    mayCopyString_near hfirst hapart (Nat.le_refl _)
  exact (ends_strncat hdst (mayScan_near .terminator hdst.ends) may loadsWithin_store.near).does

/-- What the other routines read, in registers of one kind and from one machine. Each of them ends.
Where a copy writes over its own source, the string it reads is no longer the one it was given, so
the part that is written lies apart from the part that is read. -/
structure ReadsContract (k : RegisterKind) (s : Machine) : Prop where
  strlen : ∀ p l, StringAt s.memory p l →
    ReadsNear (Kernel.strlen k ⟨.first, p⟩) s ⟨p, l + 1⟩ .empty
  strchr : ∀ p byte t,
    IsFirst ((StopSet.terminatorOr byte).EndsAt s.memory ⟨.first, p⟩) (t + 1) (some t) →
      p + t < addressSpace → ReadsNear (Kernel.strchr k ⟨.first, p⟩ byte) s ⟨p, t + 1⟩ .empty
  memchr : ∀ p byte n, ReadsNear (Kernel.memchr k ⟨.first, p⟩ byte n) s ⟨p, n⟩ .empty ∧
    (k.width ≤ n → ReadsWithin (Kernel.memchr k ⟨.first, p⟩ byte n) s ⟨p, n⟩ .empty)
  memcmp : ∀ a b n, ReadsNear (Kernel.memcmp k ⟨.first, a⟩ ⟨.second, b⟩ n) s ⟨a, n⟩ ⟨b, n⟩ ∧
    (k.width ≤ n →
      ReadsWithin (Kernel.memcmp k ⟨.first, a⟩ ⟨.second, b⟩ n) s ⟨a, n⟩ ⟨b, n⟩)
  strcpy : ∀ dst src l, StringAt s.memory src l → Region.Apart ⟨dst, l + 1⟩ ⟨src, l + 1⟩ →
    ReadsNear (Kernel.strcpy k ⟨.first, dst⟩ ⟨.second, src⟩) s .empty ⟨src, l + 1⟩
  strncpy : ∀ policy dst src n found, IsFirst (ZeroAt s.memory ⟨.second, src⟩) n found →
    Region.Apart ⟨dst, searched n found⟩ ⟨src, searched n found⟩ →
      ReadsNear (Kernel.strncpy k policy ⟨.first, dst⟩ ⟨.second, src⟩ n) s
        .empty ⟨src, searched n found⟩
  strcat : ∀ dst src l l', StringAt s.memory dst l → StringAt s.memory src l' →
    Region.Apart ⟨dst + l, l' + 1⟩ ⟨src, l' + 1⟩ →
      ReadsNear (Kernel.strcat k ⟨.first, dst⟩ ⟨.second, src⟩) s ⟨dst, l + 1⟩ ⟨src, l' + 1⟩
  strncat : ∀ dst src l n found, StringAt s.memory dst l →
    IsFirst (ZeroAt s.memory ⟨.second, src⟩) n found →
      Region.Apart ⟨dst + l, searched n found⟩ ⟨src, searched n found⟩ →
        ReadsNear (Kernel.strncat k ⟨.first, dst⟩ ⟨.second, src⟩ n) s
          ⟨dst, l + 1⟩ ⟨src, searched n found⟩
  memchr_zero : ∀ p byte, LeavesUnread .first (Kernel.memchr k ⟨.first, p⟩ byte 0) s
  memcmp_zero : ∀ o a b, LeavesUnread o (Kernel.memcmp k ⟨.first, a⟩ ⟨.second, b⟩ 0) s
  strncpy_zero : ∀ policy dst src,
    LeavesUnread .second (Kernel.strncpy k policy ⟨.first, dst⟩ ⟨.second, src⟩ 0) s
  strncat_zero : ∀ dst src l, StringAt s.memory dst l →
    LeavesUnread .second (Kernel.strncat k ⟨.first, dst⟩ ⟨.second, src⟩ 0) s

/-- **Scans, searches and copies read no page without a byte that they may read**: of a string
up to the first stop, of a source up to its terminator or the bound, and of a region any byte. -/
theorem readsContract (k : RegisterKind) (s : Machine) : ReadsContract k s where
  strlen p l h := (answers_strlen h (mayScan_near .terminator h.ends)).does
  strchr p byte t hfirst hfits :=
    (answers_strchr_of_endsAt hfirst.2.1 hfits (mayScan_near _ hfirst.2.1)).does
  memchr p byte n :=
    ⟨memchr_reads_near k s p byte n, fun hwidth =>
      (answers_memchr (mayLoadRegion_within hwidth fun _ hi => Region.add_mem hi)).does⟩
  memcmp a b n :=
    ⟨memcmp_reads_near k s a b n, fun hwidth =>
      (answers_memcmp (mayLoadRegion_within hwidth fun _ hi => Region.add_mem hi)
        (mayLoadRegion_within hwidth fun _ hi => Region.add_mem hi)).does⟩
  strcpy dst src l hsrc hapart := by
    obtain ⟨found, may⟩ := mayCopyString_near_of_string ⟨.first, dst⟩ hsrc hapart
    exact (ends_strcpy may).does
  strncpy policy dst src n found hfirst hapart := strncpy_reads_near hfirst hapart
  strcat dst src l l' hdst hsrc hapart := by
    obtain ⟨found, may⟩ := mayCopyString_near_of_string (Pointer.mk .first dst + l) hsrc hapart
    exact (ends_strcat hdst (mayScan_near .terminator hdst.ends) may).does
  strncat dst src l n found hdst hfirst hapart := strncat_reads_near hdst hfirst hapart
  memchr_zero p byte := (memchr_reads_near k s p byte 0).leavesUnread_first
  memcmp_zero o a b := by
    cases o with
    | first => exact (memcmp_reads_near k s a b 0).leavesUnread_first
    | second => exact (memcmp_reads_near k s a b 0).leavesUnread_second
  strncpy_zero policy dst src :=
    (strncpy_reads_near IsFirst.zero (Region.apart_of_le (Nat.le_total _ _))).leavesUnread_second
  strncat_zero dst src l hdst :=
    (strncat_reads_near hdst IsFirst.zero
      (Region.apart_of_le (Nat.le_total _ _))).leavesUnread_second

/-- Each of the routines once, where the bytes it may read end with the page or before it. -/
theorem readsContract_beforePageEnd :
    ReadsNear (Kernel.strlen .gpr ⟨.first, 4088⟩) ⟨beforePageEnd, []⟩ ⟨4088, 2⟩ .empty ∧
      ReadsNear (Kernel.strchr .gpr ⟨.first, 4094⟩ 98) ⟨beforePageEnd, []⟩ ⟨4094, 2⟩ .empty ∧
      ReadsWithin (Kernel.memchr .gpr ⟨.first, 4088⟩ 99 8) ⟨beforePageEnd, []⟩ ⟨4088, 8⟩ .empty ∧
      ReadsWithin (Kernel.memcmp .gpr ⟨.first, 4088⟩ ⟨.second, 4080⟩ 8) ⟨beforePageEnd, []⟩
        ⟨4088, 8⟩ ⟨4080, 8⟩ ∧
      ReadsNear (Kernel.strcpy .gpr ⟨.first, 4090⟩ ⟨.second, 4092⟩) ⟨beforePageEnd, []⟩
        .empty ⟨4092, 2⟩ ∧
      ReadsNear (Kernel.strncpy .gpr (.forFills .baseline) ⟨.first, 4090⟩ ⟨.second, 4094⟩ 2)
        ⟨beforePageEnd, []⟩ .empty ⟨4094, 2⟩ ∧
      ReadsNear (Kernel.strcat .gpr ⟨.first, 4088⟩ ⟨.second, 4092⟩) ⟨beforePageEnd, []⟩
        ⟨4088, 2⟩ ⟨4092, 2⟩ ∧
      ReadsNear (Kernel.strncat .gpr ⟨.first, 4088⟩ ⟨.second, 4094⟩ 2) ⟨beforePageEnd, []⟩
        ⟨4088, 2⟩ ⟨4094, 2⟩ := by
  have hcontract := readsContract .gpr ⟨beforePageEnd, []⟩
  have hdst : StringAt beforePageEnd 4088 1 := ⟨by decide, by decide, by decide⟩
  have hsrc : StringAt beforePageEnd 4092 1 := ⟨by decide, by decide, by decide⟩
  have hstop : IsFirst ((StopSet.terminatorOr 98).EndsAt beforePageEnd ⟨.first, 4094⟩) 2
      (some 1) := by decide
  have hbounded : IsFirst (ZeroAt beforePageEnd ⟨.second, 4094⟩) 2 none := by decide
  exact ⟨hcontract.strlen 4088 1 hdst, hcontract.strchr 4094 98 1 hstop (by decide),
    (hcontract.memchr 4088 99 8).2 (Nat.le_refl 8),
    (hcontract.memcmp 4088 4080 8).2 (Nat.le_refl 8),
    hcontract.strcpy 4090 4092 1 hsrc (Region.apart_of_le (by decide)),
    hcontract.strncpy _ 4090 4094 2 none hbounded (Region.apart_of_le (by decide)),
    hcontract.strcat 4088 4092 1 1 hdst hsrc (Region.apart_of_le (by decide)),
    hcontract.strncat 4088 4094 1 2 none hdst hbounded (Region.apart_of_le (by decide))⟩

end ByteRoutines
