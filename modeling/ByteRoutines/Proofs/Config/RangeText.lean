import ByteRoutines.Proofs.Config.BulkRanges
import ByteRoutines.Proofs.Text.Cut
import ByteRoutines.Proofs.Text.Decimal

/-!
# What a threshold text may be

The grammar of a threshold text: three ranges between colons, each of them two
sizes in brackets, with blanks wherever they separate something (`IsRange`,
`IsThreshold`). `NoRange` and `NoThreshold` say what is reported of any other
text. The ranges are looked at from the left, and each of them for its shape,
its start and its end in turn; how many ranges there are, and whether they are
in order, counts after that.

* `readRange_reads`: one range is read exactly.
* `BulkRanges.parse_reads`: so is a whole text.
* `areRanges_of_spells`: a text that is put together from ranges, with blanks
  anywhere around them and around their numbers, has these ranges.
-/

namespace ByteRoutines.Config

open Text

variable {raw : String} {piece left right text first second third : List Char}
  {range vector rep streaming : SizeRange} {n : UInt64}

/-! ### Ranges -/

/-- The text is the end of a range: a size, or `-1` where there is no bound. -/
def IsStop (text : List Char) (n : UInt64) : Prop :=
  text = ['-', '1'] ∧ n = unbounded ∨ IsSize text n

/-- The text is a range of sizes, with blanks around it or around its numbers. -/
def IsRange (piece : List Char) (range : SizeRange) : Prop :=
  ∃ left right, trim piece = '[' :: (left ++ ',' :: right ++ [')']) ∧
    IsSize (trim left) range.start ∧ IsStop (trim right) range.stop

/-- The text has the shape of a range, with these two parts on both sides of its first comma. -/
def Bracketed (piece left right : List Char) : Prop :=
  trim piece = '[' :: (left ++ ',' :: right ++ [')']) ∧ ',' ∉ left

/-- A number is reported with its text. -/
def NoNumber (text : List Char) (error : Error) : Prop :=
  ∃ fault, NoSize text fault ∧ error = .invalidNumber (String.ofList text) fault

/-- What is reported of a piece of the threshold text `raw` that is no range. -/
inductive NoRange (raw : String) (piece : List Char) : Error → Prop
  | shape : (∀ left right, ¬ Bracketed piece left right) →
      NoRange raw piece (.malformedThreshold raw)
  | start {left right : List Char} {error : Error} : Bracketed piece left right →
      NoNumber (trim left) error → NoRange raw piece error
  | stop {left right : List Char} {n : UInt64} {error : Error} : Bracketed piece left right →
      IsSize (trim left) n → trim right ≠ ['-', '1'] → NoNumber (trim right) error →
        NoRange raw piece error

theorem bracketed_iff : Bracketed piece left right ↔
    ∃ inner, strip '[' ')' (trim piece) = some inner ∧ cutAt ',' inner = some (left, right) := by
  constructor
  · rintro ⟨hpiece, hleft⟩
    exact ⟨left ++ ',' :: right, strip_eq_some_iff.mpr hpiece, cutAt_append hleft right⟩
  · rintro ⟨inner, hstrip, hcut⟩
    obtain ⟨rfl, hleft⟩ := cutAt_eq_some_iff.mp hcut
    exact ⟨strip_eq_some_iff.mp hstrip, hleft⟩

/-- The two parts are determined by the text. -/
theorem Bracketed.unique {left' right' : List Char} (h : Bracketed piece left right)
    (h' : Bracketed piece left' right') : left = left' ∧ right = right' := by
  obtain ⟨inner, hstrip, hcut⟩ := bracketed_iff.mp h
  obtain ⟨inner', hstrip', hcut'⟩ := bracketed_iff.mp h'
  cases hstrip.symm.trans hstrip'
  cases hcut.symm.trans hcut'
  exact ⟨rfl, rfl⟩

/-- All that a size consists of are digits and a sign. -/
theorem mem_of_isSize {c : Char} (h : IsSize text n) (hc : c ∈ text) :
    c = '+' ∨ c.isDigit = true := by
  by_cases hplus : c = '+'
  · exact Or.inl hplus
  · refine Or.inr (h.digits c ?_)
    unfold unsigned
    split
    · exact (List.mem_cons.mp hc).resolve_left hplus
    · exact hc

/-- A comma in front of a number would have to be a part of it. -/
theorem IsRange.bracketed (h : IsRange piece range) : ∃ left right, Bracketed piece left right ∧
    IsSize (trim left) range.start ∧ IsStop (trim right) range.stop := by
  obtain ⟨left, right, hpiece, hstart, hstop⟩ := h
  refine ⟨left, right, ⟨hpiece, fun hmem => ?_⟩, hstart, hstop⟩
  have hcomma := mem_of_isSize hstart (mem_trim hmem (by decide))
  revert hcomma
  decide

theorem readNumber_reads (text : List Char) :
    Reads (readNumber text) (IsSize text) (NoNumber text) := by
  have h := readSize_reads text
  refine Reads.of_total ?_ ?_ ?_
  · intro n hn
    rw [readNumber, (h.ok_iff n).mpr hn]
  · rintro _ ⟨fault, hfault, rfl⟩
    rw [readNumber, (h.error_iff fault).mpr hfault]
  · rcases h.total with hsome | ⟨fault, hfault⟩
    · exact Or.inl hsome
    · exact Or.inr ⟨_, fault, hfault, rfl⟩

theorem not_isSize_unbounded : ¬ IsSize ['-', '1'] n := fun h => by
  have hminus := mem_of_isSize h (List.mem_cons_self (a := '-'))
  revert hminus
  decide

theorem readStop_reads (text : List Char) : Reads (readStop text) (IsStop text)
    (fun error => text ≠ ['-', '1'] ∧ NoNumber text error) := by
  rw [readStop]
  split
  · rename_i hminus
    refine Reads.of_total ?_ (fun _ h => absurd hminus h.1) (Or.inl ⟨_, Or.inl ⟨hminus, rfl⟩⟩)
    rintro n (⟨_, rfl⟩ | hsize)
    · rfl
    · rw [hminus] at hsize
      exact absurd hsize not_isSize_unbounded
  · rename_i hnumber
    exact (readNumber_reads text).congr (fun _ => by simp [IsStop, hnumber])
      fun _ => by simp [hnumber]

theorem isRange_iff (h : Bracketed piece left right) : IsRange piece range ↔
    IsSize (trim left) range.start ∧ IsStop (trim right) range.stop := by
  constructor
  · intro hrange
    obtain ⟨left', right', hparts, hnumbers⟩ := hrange.bracketed
    obtain ⟨rfl, rfl⟩ := h.unique hparts
    exact hnumbers
  · exact fun hnumbers => ⟨left, right, h.1, hnumbers⟩

theorem noRange_iff {error : Error} (h : Bracketed piece left right) :
    NoRange raw piece error ↔ NoNumber (trim left) error ∨
      ∃ n, IsSize (trim left) n ∧ trim right ≠ ['-', '1'] ∧ NoNumber (trim right) error := by
  constructor
  · intro hnone
    cases hnone with
    | shape hnone => exact absurd h (hnone left right)
    | start hparts hstart =>
      obtain ⟨rfl, rfl⟩ := h.unique hparts
      exact Or.inl hstart
    | stop hparts hstart hminus hstop =>
      obtain ⟨rfl, rfl⟩ := h.unique hparts
      exact Or.inr ⟨_, hstart, hminus, hstop⟩
  · rintro (hstart | ⟨n, hstart, hminus, hstop⟩)
    · exact .start h hstart
    · exact .stop h hstart hminus hstop

theorem readRange_of_bracketed (raw : String) (h : Bracketed piece left right) :
    readRange raw piece = do
      let start ← readNumber (trim left)
      let stop ← readStop (trim right)
      return ⟨start, stop⟩ := by
  obtain ⟨inner, hstrip, hcut⟩ := bracketed_iff.mp h
  rw [readRange, hstrip]
  simp only [hcut]

theorem readRange_of_not_bracketed (raw : String) (h : ∀ left right, ¬ Bracketed piece left right) :
    readRange raw piece = .error (.malformedThreshold raw) := by
  rw [readRange]
  cases hstrip : strip '[' ')' (trim piece) with
  | none => rfl
  | some inner =>
    cases hcut : cutAt ',' inner with
    | none => simp only [hcut]
    | some parts => exact absurd (bracketed_iff.mpr ⟨inner, hstrip, hcut⟩) (h _ _)

/-- **A range is read exactly.** -/
theorem readRange_reads (raw : String) (piece : List Char) :
    Reads (readRange raw piece) (IsRange piece) (NoRange raw piece) := by
  by_cases hshape : ∃ left right, Bracketed piece left right
  · obtain ⟨left, right, hparts⟩ := hshape
    rw [readRange_of_bracketed raw hparts]
    have hreads := (readNumber_reads (trim left)).bind fun start _ =>
      (readStop_reads (trim right)).map (f := fun stop => SizeRange.mk start stop)
    refine hreads.congr (fun range => ?_) fun error => (noRange_iff hparts).symm
    rw [isRange_iff hparts]
    constructor
    · rintro ⟨start, hstart, stop, hstop, rfl⟩
      exact ⟨hstart, hstop⟩
    · exact fun ⟨hstart, hstop⟩ => ⟨range.start, hstart, range.stop, hstop, rfl⟩
  · have hnone : ∀ left right, ¬ Bracketed piece left right := fun left right h =>
      hshape ⟨left, right, h⟩
    rw [readRange_of_not_bracketed raw hnone]
    refine Reads.of_total ?_ ?_ (Or.inr ⟨_, .shape hnone⟩)
    · intro range hrange
      obtain ⟨left, right, hparts, _⟩ := hrange.bracketed
      exact absurd hparts (hnone left right)
    · intro error herror
      cases herror with
      | shape _ => rfl
      | start hparts _ => exact absurd hparts (hnone _ _)
      | stop hparts _ _ _ => exact absurd hparts (hnone _ _)

/-! ### Threshold texts -/

/-- The ranges follow one another without overlap. -/
def InOrder (vector rep streaming : SizeRange) : Prop :=
  vector.start ≤ vector.stop ∧ vector.stop ≤ rep.start ∧ rep.start ≤ rep.stop ∧
    rep.stop ≤ streaming.start

/-- The pieces between the colons of the text are these ranges, one by one. -/
def AreRanges (raw : String) (list : List SizeRange) : Prop :=
  List.Forall₂ IsRange (raw.toList.splitOn ':') list

/-- The text consists of three ranges in order, of which the last one has no bound. -/
inductive IsThreshold (raw : String) : BulkRanges → Prop
  | intro {vector rep streaming : SizeRange} : AreRanges raw [vector, rep, streaming] →
      streaming.stop = unbounded → InOrder vector rep streaming →
        IsThreshold raw ⟨rep.start, rep.stop, streaming.start⟩

/-- What is reported of a text that is no threshold text. -/
inductive NoThreshold (raw : String) : Error → Prop
  /-- One of the first three pieces is no range, and those in front of it are ranges. -/
  | piece {error : Error} :
      FirstRefused IsRange (NoRange raw) ((raw.toList.splitOn ':').take 3) error →
        NoThreshold raw error
  /-- There are more pieces than three, or fewer. -/
  | count : (∀ piece ∈ (raw.toList.splitOn ':').take 3, ∃ range, IsRange piece range) →
      (raw.toList.splitOn ':').length ≠ 3 → NoThreshold raw (.malformedThreshold raw)
  | bounded {vector rep streaming : SizeRange} : AreRanges raw [vector, rep, streaming] →
      streaming.stop ≠ unbounded → NoThreshold raw (.malformedThreshold raw)
  | unordered {vector rep streaming : SizeRange} : AreRanges raw [vector, rep, streaming] →
      streaming.stop = unbounded → ¬ InOrder vector rep streaming →
        NoThreshold raw (.unorderedThreshold raw)

theorem exists_of_areRanges (h : AreRanges raw [vector, rep, streaming]) :
    (raw.toList.splitOn ':').take 3 = raw.toList.splitOn ':' ∧
      (raw.toList.splitOn ':').drop 3 = [] ∧
      (raw.toList.splitOn ':').mapM (readRange raw) = .ok [vector, rep, streaming] := by
  have hlength := h.length_eq
  refine ⟨List.take_of_length_le (by simp [hlength]), List.drop_of_length_le (by simp [hlength]), ?_⟩
  exact ((reads_mapM (readRange_reads raw) _).ok_iff _).mpr h

/-- What becomes of three ranges. -/
theorem parse_of_areRanges (h : AreRanges raw [vector, rep, streaming]) :
    BulkRanges.parse raw =
      if streaming.stop ≠ unbounded then .error (.malformedThreshold raw)
      else if inOrder vector rep streaming then .ok ⟨rep.start, rep.stop, streaming.start⟩
      else .error (.unorderedThreshold raw) := by
  obtain ⟨htake, hdrop, hread⟩ := exists_of_areRanges h
  rw [BulkRanges.parse]
  simp only [htake, hdrop, hread]
  rfl

/-- What becomes of other numbers of ranges. -/
theorem parse_of_count {list : List SizeRange}
    (h : List.Forall₂ IsRange ((raw.toList.splitOn ':').take 3) list)
    (hcount : (raw.toList.splitOn ':').length ≠ 3) :
    BulkRanges.parse raw = .error (.malformedThreshold raw) := by
  have hread := ((reads_mapM (readRange_reads raw) _).ok_iff _).mpr h
  have hlength := h.length_eq
  rw [BulkRanges.parse]
  simp only [hread, bind, Except.bind]
  split
  · rename_i hdrop
    have hrest := List.drop_eq_nil_iff.mp hdrop
    rw [List.take_of_length_le hrest] at hlength
    exact absurd hlength hcount
  · rfl

/-- **A threshold text is read exactly.** -/
theorem BulkRanges.parse_reads (raw : String) :
    Reads (BulkRanges.parse raw) (IsThreshold raw) (NoThreshold raw) := by
  have hlist := reads_mapM (readRange_reads raw) ((raw.toList.splitOn ':').take 3)
  refine Reads.of_total ?_ ?_ ?_
  · rintro _ ⟨hranges, hstop, horder⟩
    rw [parse_of_areRanges hranges, if_neg (not_not_intro hstop), if_pos (inOrder_iff.mpr horder)]
  · intro error herror
    cases herror with
    | piece hrefused =>
      rw [BulkRanges.parse]
      simp only [(hlist.error_iff error).mpr hrefused]
      rfl
    | count hall hcount =>
      obtain ⟨list, hranges⟩ := exists_forall₂_iff.mpr hall
      exact parse_of_count hranges hcount
    | bounded hranges hstop => rw [parse_of_areRanges hranges, if_pos hstop]
    | unordered hranges hstop horder =>
      rw [parse_of_areRanges hranges, if_neg (not_not_intro hstop), if_neg (mt inOrder_iff.mp horder)]
  · rcases hlist.total with ⟨list, hranges⟩ | ⟨error, hrefused⟩
    · by_cases hcount : (raw.toList.splitOn ':').length = 3
      · rw [List.take_of_length_le (Nat.le_of_eq hcount)] at hranges
        obtain ⟨vector, rep, streaming, rfl⟩ :=
          List.length_eq_three.mp (hranges.length_eq.symm.trans hcount)
        by_cases hstop : streaming.stop = unbounded
        · by_cases horder : InOrder vector rep streaming
          · exact Or.inl ⟨_, .intro hranges hstop horder⟩
          · exact Or.inr ⟨_, .unordered hranges hstop horder⟩
        · exact Or.inr ⟨_, .bounded hranges hstop⟩
      · exact Or.inr ⟨_, .count (exists_forall₂_iff.mp ⟨list, hranges⟩) hcount⟩
    · exact Or.inr ⟨_, .piece hrefused⟩

/-! ### Texts that are put together -/

/-- The text is this range as it may be written: its numbers in decimal digits, blanks anywhere
around them and around the brackets, and an end without bound possibly as `-1`. -/
def Spells (text : List Char) (range : SizeRange) : Prop :=
  ∃ left right, Padded (decimal range.start) left ∧
    (Padded (decimal range.stop) right ∨ range.stop = unbounded ∧ Padded ['-', '1'] right) ∧
    Padded ('[' :: (left ++ ',' :: right ++ [')'])) text

theorem not_isBlank_of_isDigit {c : Char} (h : c.isDigit = true) : isBlank c = false := by
  have hrange := isDigit_iff.mp h
  simp only [isBlank, blankRanges, List.any_cons, List.any_nil, Bool.or_false, Bool.or_eq_false_iff,
    Bool.and_eq_false_iff, decide_eq_false_iff_not]
  omega

theorem trim_of_padded_decimal (h : Padded (decimal n) text) : trim text = decimal n :=
  trim_of_padded h (trimmed_of_forall fun _ hc => not_isBlank_of_isDigit (digits_decimal n _ hc))
    Nat.toDigits_ne_nil

theorem isRange_of_spells (h : Spells text range) : IsRange text range := by
  obtain ⟨left, right, hstart, hstop, htext⟩ := h
  have hopen : Trimmed ['['] := trimmed_of_forall (List.forall_mem_singleton.mpr rfl)
  have hclose : Trimmed [')'] := trimmed_of_forall (List.forall_mem_singleton.mpr rfl)
  have hbrackets : Trimmed ('[' :: (left ++ ',' :: right ++ [')'])) :=
    hopen.append hclose (by simp) (by simp) (left ++ ',' :: right)
  refine ⟨left, right, trim_of_padded htext hbrackets (by simp), ?_, ?_⟩
  · rw [trim_of_padded_decimal hstart]
    exact isSize_decimal range.start
  · rcases hstop with hstop | ⟨hunbounded, hstop⟩
    · rw [trim_of_padded_decimal hstop]
      exact Or.inr (isSize_decimal range.stop)
    · have hminus : Trimmed ['-', '1'] :=
        trimmed_of_forall (List.forall_mem_cons.mpr ⟨rfl, List.forall_mem_singleton.mpr rfl⟩)
      exact Or.inl ⟨trim_of_padded hstop hminus (by simp), hunbounded⟩

theorem colon_notMem_of_spells (h : Spells text range) : ':' ∉ text := by
  obtain ⟨left, right, hstart, hstop, htext⟩ := h
  have hdecimal : ∀ n, ':' ∉ decimal n := fun n hmem =>
    absurd (digits_decimal n _ hmem) (by decide)
  have hblank : isBlank ':' = false := by decide
  intro hmem
  have hin := htext.mem hmem hblank
  simp only [List.mem_cons, List.mem_append, List.not_mem_nil] at hin
  have hparts : ':' ∈ left ∨ ':' ∈ right := by
    revert hin
    simp
  rcases hparts with hleft | hright
  · exact hdecimal _ (hstart.mem hleft hblank)
  · rcases hstop with hstop | ⟨_, hstop⟩
    · exact hdecimal _ (hstop.mem hright hblank)
    · exact absurd (hstop.mem hright hblank) (by decide)

/-- Three ranges that are written with colons between them are the pieces of the text. -/
theorem areRanges_of_spells (hfirst : Spells first vector) (hsecond : Spells second rep)
    (hthird : Spells third streaming) :
    AreRanges (String.ofList (first ++ ':' :: (second ++ ':' :: third)))
      [vector, rep, streaming] := by
  have hsplit : (first ++ ':' :: (second ++ ':' :: third)).splitOn ':' = [first, second, third] := by
    rw [List.splitOn_append_cons_self_of_not_mem (colon_notMem_of_spells hfirst),
      List.splitOn_append_cons_self_of_not_mem (colon_notMem_of_spells hsecond),
      List.splitOn_eq_singleton (colon_notMem_of_spells hthird)]
  rw [AreRanges, String.toList_ofList, hsplit]
  exact .cons (isRange_of_spells hfirst) (.cons (isRange_of_spells hsecond)
    (.cons (isRange_of_spells hthird) .nil))

/-- **Threshold texts are read exactly**: each text is accepted, with the sizes it says, or
refused, for the first thing that is wrong with it. What is accepted is in order, and every three
ranges in order that a text is put together from are read back. -/
theorem BulkRanges.parse_exact :
    (∀ raw, Reads (BulkRanges.parse raw) (IsThreshold raw) (NoThreshold raw)) ∧
      (∀ raw ranges, BulkRanges.parse raw = .ok ranges →
        ranges.repStart ≤ ranges.repStop ∧ ranges.repStop ≤ ranges.streamStart) ∧
      ∀ a b c d e : UInt64, a ≤ b → b ≤ c → c ≤ d → d ≤ e → ∀ first second third,
        Spells first ⟨a, b⟩ → Spells second ⟨c, d⟩ → Spells third ⟨e, unbounded⟩ →
          BulkRanges.parse (String.ofList (first ++ ':' :: (second ++ ':' :: third))) =
            .ok ⟨c, d, e⟩ := by
  refine ⟨BulkRanges.parse_reads, fun raw ranges h => BulkRanges.ordered_of_parse h, ?_⟩
  intro a b c d e hab hbc hcd hde first second third hfirst hsecond hthird
  refine ((BulkRanges.parse_reads _).ok_iff _).mpr ?_
  exact .intro (areRanges_of_spells hfirst hsecond hthird) rfl ⟨hab, hbc, hcd, hde⟩

/-- Blanks of any kind may stand around the ranges and their numbers. Where `-1` is a start, it is
reported, and not that the range after it has no brackets. -/
theorem BulkRanges.parse_exact_spacedRanges :
    (Spells " [ 0,7 )".toList ⟨0, 7⟩ ∧ Spells "[8,\t9)\n".toList ⟨8, 9⟩ ∧
        Spells "[10, -1)".toList ⟨10, unbounded⟩) ∧
      BulkRanges.parse " [ 0,7 ):[8,\t9)\n:[10, -1)" = .ok ⟨8, 9, 10⟩ ∧
      BulkRanges.parse "[-1,2):3,4" = .error (.invalidNumber "-1" .invalidDigit) := by
  obtain ⟨hreads, _, hround⟩ := BulkRanges.parse_exact
  have hfirst : Spells " [ 0,7 )".toList ⟨0, 7⟩ :=
    ⟨[' ', '0'], ['7', ' '], ⟨[' '], [], by decide, by decide, rfl⟩,
      Or.inl ⟨[], [' '], by decide, by decide, rfl⟩, [' '], [], by decide, by decide, rfl⟩
  have hsecond : Spells "[8,\t9)\n".toList ⟨8, 9⟩ :=
    ⟨['8'], ['\t', '9'], ⟨[], [], by decide, by decide, rfl⟩,
      Or.inl ⟨['\t'], [], by decide, by decide, rfl⟩, [], ['\n'], by decide, by decide, rfl⟩
  have hthird : Spells "[10, -1)".toList ⟨10, unbounded⟩ :=
    ⟨['1', '0'], [' ', '-', '1'], ⟨[], [], by decide, by decide, rfl⟩,
      Or.inr ⟨rfl, [' '], [], by decide, by decide, rfl⟩, [], [], by decide, by decide, rfl⟩
  have hparts : Bracketed "[-1,2)".toList ['-', '1'] ['2'] := ⟨rfl, by decide⟩
  have hsign : NoSize ['-', '1'] .invalidDigit := by
    have hsplit : unsigned ['-', '1'] = [] ++ '-' :: ['1'] := rfl
    exact .invalidDigit hsplit (List.forall_mem_nil _) (by decide) rfl
  have hminus : NoRange "[-1,2):3,4" "[-1,2)".toList (.invalidNumber "-1" .invalidDigit) :=
    .start hparts ⟨.invalidDigit, hsign, rfl⟩
  refine ⟨⟨hfirst, hsecond, hthird⟩, ?_, ?_⟩
  · have htext : " [ 0,7 ):[8,\t9)\n:[10, -1)" = String.ofList (" [ 0,7 )".toList ++
        ':' :: ("[8,\t9)\n".toList ++ ':' :: "[10, -1)".toList)) := rfl
    rw [htext]
    exact hround 0 7 8 9 10 (by decide) (by decide) (by decide) (by decide) _ _ _ hfirst hsecond
      hthird
  · exact ((hreads "[-1,2):3,4").error_iff _).mpr
      (.piece ⟨[], _, ["3,4".toList], rfl, by simp, hminus⟩)

end ByteRoutines.Config
