import Mathlib.Data.List.Induction
import ByteRoutines.Proofs.Config.Assignment
import ByteRoutines.Proofs.Last
import ByteRoutines.Proofs.Text.Cut
import ByteRoutines.Proofs.Text.Reads

/-!
# What an assignment text may be

Without a colon, an assignment text is the name of a variant. With one it is a
list of entries, each of them the name of an operation and the name of a
variant with a colon between (`IsEntry`), and the last entry of an operation
counts (`LastWins`). `NoEntry` and `NoAssignment` say what is reported of any
other text: the entries are looked at from the left, and each of them for its
colon, its operation and its variant in turn.

* `readEntry_reads`: one entry is read exactly.
* `lastWins_ofEntries`: the entries are taken up one after the other, so the
  last one wins.
* `Assignment.parse_reads`: a whole text is read exactly.
* `areEntries_of_spells`: a text that is put together from entries, with blanks
  anywhere around the names and with blank pieces between, has these entries.
-/

namespace ByteRoutines.Config

open Text

variable {raw : String} {piece left right text : List Char} {pieces : List (List Char)}
  {entry : Operation × Variant} {list : List (Operation × Variant)} {assignment : Assignment}

/-! ### Names -/

/-- What is reported of a text that is not among the names. -/
def NoName {α : Type} (name : α → String) (unknown : String → Error) (text : String)
    (error : Error) : Prop :=
  (∀ a, name a ≠ text) ∧ error = unknown text

/-- A lookup that finds what has a name, and nothing else, reads names exactly. -/
theorem reads_name {α : Type} {name : α → String} {unknown : String → Error}
    {read : String → Except Error α} (hname : ∀ a, read (name a) = .ok a)
    (hother : ∀ text, (∀ a, name a ≠ text) → read text = .error (unknown text)) (text : String) :
    Reads (read text) (name · = text) (NoName name unknown text) := by
  refine Reads.of_total ?_ ?_ ?_
  · rintro a rfl
    exact hname a
  · rintro _ ⟨hnone, rfl⟩
    exact hother text hnone
  · by_cases h : ∃ a, name a = text
    · exact Or.inl h
    · exact Or.inr ⟨unknown text, fun a ha => h ⟨a, ha⟩, rfl⟩

theorem readOperation_reads (text : String) : Reads (readOperation text) (Operation.name · = text)
    (NoName Operation.name .unknownOperation text) := by
  refine reads_name (fun op => ?_) (fun text hnone => ?_) text
  · rw [readOperation, Operation.ofName?_name]
  · have hfind : Operation.ofName? text = none :=
      List.find?_eq_none.mpr fun op _ => by simpa using hnone op
    rw [readOperation, hfind]

theorem readVariant_reads (text : String) : Reads (readVariant text) (Variant.name · = text)
    (NoName Variant.name .unknownVariant text) := by
  refine reads_name (fun variant => ?_) (fun text hnone => ?_) text
  · rw [readVariant, Variant.ofName?_name]
  · have hfind : Variant.ofName? text = none :=
      List.find?_eq_none.mpr fun variant _ => by simpa using hnone variant
    rw [readVariant, hfind]

/-! ### Entries -/

/-- The text has its first colon between these two parts. -/
def Paired (piece left right : List Char) : Prop :=
  piece = left ++ ':' :: right ∧ ':' ∉ left

/-- The text is an entry, with blanks around its names. -/
def IsEntry (piece : List Char) (entry : Operation × Variant) : Prop :=
  ∃ left right, Paired piece left right ∧ entry.1.name = String.ofList (trim left) ∧
    entry.2.name = String.ofList (trim right)

/-- What is reported of a text that is no entry. -/
inductive NoEntry (piece : List Char) : Error → Prop
  | colon : ':' ∉ piece → NoEntry piece (.malformedPair (String.ofList piece))
  | operation {left right : List Char} {error : Error} : Paired piece left right →
      NoName Operation.name .unknownOperation (String.ofList (trim left)) error →
        NoEntry piece error
  | variant {left right : List Char} {op : Operation} {error : Error} : Paired piece left right →
      op.name = String.ofList (trim left) →
        NoName Variant.name .unknownVariant (String.ofList (trim right)) error →
          NoEntry piece error

/-- The two parts are determined by the text. -/
theorem Paired.unique {left' right' : List Char} (h : Paired piece left right)
    (h' : Paired piece left' right') : left = left' ∧ right = right' := by
  cases (cutAt_eq_some_iff.mpr h).symm.trans (cutAt_eq_some_iff.mpr h')
  exact ⟨rfl, rfl⟩

theorem isEntry_iff (h : Paired piece left right) : IsEntry piece entry ↔
    entry.1.name = String.ofList (trim left) ∧ entry.2.name = String.ofList (trim right) := by
  constructor
  · rintro ⟨left', right', hparts, hnames⟩
    obtain ⟨rfl, rfl⟩ := h.unique hparts
    exact hnames
  · exact fun hnames => ⟨left, right, h, hnames⟩

theorem noEntry_iff {error : Error} (h : Paired piece left right) : NoEntry piece error ↔
    NoName Operation.name .unknownOperation (String.ofList (trim left)) error ∨
      ∃ op : Operation, op.name = String.ofList (trim left) ∧
        NoName Variant.name .unknownVariant (String.ofList (trim right)) error := by
  constructor
  · intro hnone
    cases hnone with
    | colon hcolon =>
      rw [h.1] at hcolon
      exact absurd (List.mem_append_right left List.mem_cons_self) hcolon
    | operation hparts hop =>
      obtain ⟨rfl, rfl⟩ := h.unique hparts
      exact Or.inl hop
    | variant hparts hop hvariant =>
      obtain ⟨rfl, rfl⟩ := h.unique hparts
      exact Or.inr ⟨_, hop, hvariant⟩
  · rintro (hop | ⟨op, hop, hvariant⟩)
    · exact .operation h hop
    · exact .variant h hop hvariant

/-- **An entry is read exactly.** -/
theorem readEntry_reads (piece : List Char) :
    Reads (readEntry piece) (IsEntry piece) (NoEntry piece) := by
  cases hcut : cutAt ':' piece with
  | none =>
    have hcolon := cutAt_eq_none_iff.mp hcut
    rw [readEntry, hcut]
    refine Reads.of_total ?_ ?_ (Or.inr ⟨_, .colon hcolon⟩)
    · rintro _ ⟨left, right, hparts, _⟩
      cases hcut.symm.trans (cutAt_eq_some_iff.mpr hparts)
    · intro error herror
      cases herror with
      | colon _ => rfl
      | operation hparts _ => cases hcut.symm.trans (cutAt_eq_some_iff.mpr hparts)
      | variant hparts _ _ => cases hcut.symm.trans (cutAt_eq_some_iff.mpr hparts)
  | some parts =>
    obtain ⟨left, right⟩ := parts
    have hparts : Paired piece left right := cutAt_eq_some_iff.mp hcut
    rw [readEntry, hcut]
    have hreads := (readOperation_reads (String.ofList (trim left))).bind fun op _ =>
      (readVariant_reads (String.ofList (trim right))).map (f := fun variant => (op, variant))
    refine hreads.congr (fun entry => ?_) fun error => (noEntry_iff hparts).symm
    rw [isEntry_iff hparts]
    constructor
    · rintro ⟨op, hop, variant, hvariant, rfl⟩
      exact ⟨hop, hvariant⟩
    · exact fun ⟨hop, hvariant⟩ => ⟨entry.1, hop, entry.2, hvariant, rfl⟩

/-! ### The last entry wins -/

/-- Of each operation, the assignment asks for what its last entry in the list asks for. -/
structure LastWins (list : List (Operation × Variant)) (assignment : Assignment) : Prop where
  last : ∀ front op variant rest, list = front ++ (op, variant) :: rest →
    (∀ entry ∈ rest, entry.1 ≠ op) → assignment op = some variant
  none : ∀ op, (∀ entry ∈ list, entry.1 ≠ op) → assignment op = none

/-- A list makes one assignment. -/
theorem LastWins.unique {assignment' : Assignment} (h : LastWins list assignment)
    (h' : LastWins list assignment') : assignment = assignment' := by
  funext op
  obtain ⟨found, hfound⟩ := exists_isLast (·.1 = op) list
  cases found with
  | some entry =>
    obtain ⟨front, rest, hlist, rfl, hrest⟩ := hfound
    rw [h.last front entry.1 entry.2 rest hlist hrest,
      h'.last front entry.1 entry.2 rest hlist hrest]
  | none => rw [h.none op hfound, h'.none op hfound]

/-- One more entry wins over those before it. -/
theorem LastWins.concat (h : LastWins list assignment) (entry : Operation × Variant) :
    LastWins (list ++ [entry]) (assignment.set entry.1 entry.2) where
  last front op variant rest hlist hrest := by
    rcases List.eq_nil_or_concat rest with rfl | ⟨tail, final, rfl⟩
    · obtain ⟨rfl, hentry⟩ := List.append_inj' hlist rfl
      cases hentry
      exact assignment.set_self op variant
    · rw [List.concat_eq_append, ← List.cons_append, ← List.append_assoc] at hlist
      obtain ⟨hfront, hentry⟩ := List.append_inj' hlist rfl
      cases hentry
      have hne : op ≠ entry.1 := (hrest entry (by simp)).symm
      rw [assignment.set_of_ne entry.2 hne]
      exact h.last front op variant tail hfront fun other hother => hrest other (by simp [hother])
  none op hnone := by
    have hne : op ≠ entry.1 := (hnone entry (by simp)).symm
    rw [assignment.set_of_ne entry.2 hne]
    exact h.none op fun other hother => hnone other (by simp [hother])

/-- **What a list of entries is taken up as.** -/
theorem lastWins_ofEntries (list : List (Operation × Variant)) :
    LastWins list (Assignment.ofEntries list) := by
  induction list using List.reverseRecOn with
  | nil => exact ⟨by simp, fun _ _ => rfl⟩
  | append_singleton front last ih =>
    rw [Assignment.ofEntries, List.foldl_append]
    exact ih.concat last

/-! ### Assignment texts -/

/-- The text is the name of a variant, or a list of entries. -/
inductive IsAssignment (raw : String) : Assignment → Prop
  | everywhere {variant : Variant} : ':' ∉ raw.toList →
      variant.name = String.ofList (trim raw.toList) → IsAssignment raw fun _ => some variant
  | list {list : List (Operation × Variant)} {assignment : Assignment} : ':' ∈ raw.toList →
      List.Forall₂ IsEntry (entries raw.toList) list → LastWins list assignment →
        IsAssignment raw assignment

/-- What is reported of a text that is no assignment text. -/
inductive NoAssignment (raw : String) : Error → Prop
  | name {error : Error} : ':' ∉ raw.toList →
      NoName Variant.name .unknownVariant (String.ofList (trim raw.toList)) error →
        NoAssignment raw error
  /-- One of the entries is none, and those in front of it are entries. -/
  | entry {error : Error} : ':' ∈ raw.toList →
      FirstRefused IsEntry NoEntry (entries raw.toList) error → NoAssignment raw error

/-- **An assignment text is read exactly.** -/
theorem Assignment.parse_reads (raw : String) :
    Reads (Assignment.parse raw) (IsAssignment raw) (NoAssignment raw) := by
  rw [Assignment.parse]
  by_cases hcolon : ':' ∈ raw.toList
  · rw [if_pos hcolon]
    have hlist := (reads_mapM readEntry_reads (entries raw.toList)).map (f := Assignment.ofEntries)
    refine hlist.congr (fun assignment => ?_) fun error => ?_
    · constructor
      · rintro ⟨list, hentries, rfl⟩
        exact .list hcolon hentries (lastWins_ofEntries list)
      · intro h
        cases h with
        | everywhere hnone _ => exact absurd hcolon hnone
        | list _ hentries hlast => exact ⟨_, hentries, hlast.unique (lastWins_ofEntries _)⟩
    · constructor
      · exact .entry hcolon
      · intro h
        cases h with
        | name hnone _ => exact absurd hcolon hnone
        | entry _ hrefused => exact hrefused
  · rw [if_neg hcolon]
    have hname := (readVariant_reads (String.ofList (trim raw.toList))).map (f := uniform)
    refine hname.congr (fun assignment => ?_) fun error => ?_
    · constructor
      · rintro ⟨variant, hvariant, rfl⟩
        exact .everywhere hcolon hvariant
      · intro h
        cases h with
        | everywhere _ hvariant => exact ⟨_, hvariant, rfl⟩
        | list hmem _ _ => exact absurd hmem hcolon
    · constructor
      · exact .name hcolon
      · intro h
        cases h with
        | name _ hnone => exact hnone
        | entry hmem _ => exact absurd hmem hcolon

/-! ### Texts that are put together -/

/-- The text is this entry as it may be written: blanks anywhere around its names. -/
def SpellsEntry (text : List Char) (entry : Operation × Variant) : Prop :=
  ∃ left right, Padded entry.1.name.toList left ∧ Padded entry.2.name.toList right ∧
    text = left ++ ':' :: right

/-- The pieces are these entries one after the other, or blank. -/
inductive SpellsEntries : List (List Char) → List (Operation × Variant) → Prop
  | nil : SpellsEntries [] []
  | blank {piece : List Char} {pieces : List (List Char)} {list : List (Operation × Variant)} :
      Blank piece → SpellsEntries pieces list → SpellsEntries (piece :: pieces) list
  | entry {piece : List Char} {pieces : List (List Char)} {entry : Operation × Variant}
      {list : List (Operation × Variant)} : SpellsEntry piece entry → SpellsEntries pieces list →
        SpellsEntries (piece :: pieces) (entry :: list)

/-- A text that stands for itself wherever it is: nothing in it is a blank or a separator. -/
structure Word (text : List Char) : Prop where
  ne_nil : text ≠ []
  plain : ∀ c ∈ text, isBlank c = false ∧ c ≠ ':' ∧ c ≠ ','

theorem word_of_all (hne : text.isEmpty = false)
    (hall : text.all (fun c => !isBlank c && c != ':' && c != ',') = true) : Word text where
  ne_nil := List.isEmpty_eq_false_iff.mp hne
  plain c hc := by simpa [and_assoc] using List.all_eq_true.mp hall c hc

theorem word_operation (op : Operation) : Word op.name.toList := by
  apply word_of_all <;> cases op <;> decide

theorem word_variant (variant : Variant) : Word variant.name.toList := by
  apply word_of_all <;> cases variant <;> decide

theorem Word.trimmed (h : Word text) : Trimmed text :=
  trimmed_of_forall fun c hc => (h.plain c hc).1

theorem Word.trim_eq {name : String} (h : Word name.toList) (htext : Padded name.toList text) :
    name = String.ofList (trim text) := by
  rw [trim_of_padded htext h.trimmed h.ne_nil, String.ofList_toList]

theorem Word.colon_notMem (h : Word left) (htext : Padded left text) : ':' ∉ text :=
  fun hmem => (h.plain ':' (htext.mem hmem (by decide))).2.1 rfl

theorem Word.comma_notMem (h : Word left) (htext : Padded left text) : ',' ∉ text :=
  fun hmem => (h.plain ',' (htext.mem hmem (by decide))).2.2 rfl

theorem isEntry_of_padded (hleft : Padded entry.1.name.toList left)
    (hright : Padded entry.2.name.toList right) : IsEntry (left ++ ':' :: right) entry :=
  ⟨left, right, ⟨rfl, (word_operation entry.1).colon_notMem hleft⟩,
    (word_operation entry.1).trim_eq hleft, (word_variant entry.2).trim_eq hright⟩

/-- Trimming an entry takes the blanks at its ends only. -/
theorem isEntry_trim (h : SpellsEntry text entry) :
    trim text ≠ [] ∧ IsEntry (trim text) entry := by
  obtain ⟨_, _, ⟨before, after, hbefore, hafter, rfl⟩, ⟨before', after', hbefore', hafter', rfl⟩,
    rfl⟩ := h
  have hop := word_operation entry.1
  have hvariant := word_variant entry.2
  have htrimmed := hop.trimmed.append hvariant.trimmed hop.ne_nil hvariant.ne_nil
    (after ++ ':' :: before')
  have htext : trim (before ++ entry.1.name.toList ++ after ++
      ':' :: (before' ++ entry.2.name.toList ++ after')) =
        entry.1.name.toList ++ after ++ ':' :: (before' ++ entry.2.name.toList) := by
    rw [trim_of_padded ⟨before, after', hbefore, hafter', ?_⟩ htrimmed]
    · simp
    · simp [hop.ne_nil]
    · simp
  rw [htext]
  refine ⟨by simp, isEntry_of_padded ⟨[], after, by simp [Blank], hafter, by simp⟩
    ⟨before', [], hbefore', by simp [Blank], by simp⟩⟩

theorem colon_mem_of_spells (h : SpellsEntry text entry) : ':' ∈ text := by
  obtain ⟨left, right, _, _, rfl⟩ := h
  exact List.mem_append_right left List.mem_cons_self

theorem comma_notMem_of_spells (h : SpellsEntry text entry) : ',' ∉ text := by
  obtain ⟨left, right, hleft, hright, rfl⟩ := h
  have hl := (word_operation entry.1).comma_notMem hleft
  have hr := (word_variant entry.2).comma_notMem hright
  simp [hl, hr]

theorem comma_notMem_of_spellsEntries (h : SpellsEntries pieces list) :
    ∀ piece ∈ pieces, ',' ∉ piece := by
  induction h with
  | nil => exact fun _ h => absurd h List.not_mem_nil
  | blank hblank _ ih =>
    exact List.forall_mem_cons.mpr ⟨fun hmem => absurd (hblank ',' hmem) (by decide), ih⟩
  | entry hentry _ ih => exact List.forall_mem_cons.mpr ⟨comma_notMem_of_spells hentry, ih⟩

/-- The pieces that are not blank are the entries, one by one. -/
theorem areEntries_of_spells (h : SpellsEntries pieces list) :
    List.Forall₂ IsEntry ((pieces.map trim).filter fun piece => !piece.isEmpty) list := by
  induction h with
  | nil => exact .nil
  | blank hblank _ ih =>
    rw [List.map_cons, trim_eq_nil_iff.mpr hblank]
    exact ih
  | entry hentry _ ih =>
    obtain ⟨hne, htrim⟩ := isEntry_trim hentry
    rw [List.map_cons, List.filter_cons_of_pos (by simpa using hne)]
    exact .cons htrim ih

theorem exists_spellsEntry (h : SpellsEntries pieces list) (hne : list ≠ []) :
    ∃ piece ∈ pieces, ∃ entry, SpellsEntry piece entry := by
  induction h with
  | nil => exact absurd rfl hne
  | blank _ _ ih =>
    obtain ⟨piece, hpiece, hentry⟩ := ih hne
    exact ⟨piece, List.mem_cons_of_mem _ hpiece, hentry⟩
  | entry hentry _ _ => exact ⟨_, List.mem_cons_self, _, hentry⟩

/-- Entries that are written with commas between them are the entries of the text. -/
theorem isAssignment_of_spells (h : SpellsEntries pieces list) (hne : list ≠ [])
    (hlast : LastWins list assignment) :
    IsAssignment (String.ofList ([','].intercalate pieces)) assignment := by
  obtain ⟨piece, hpiece, entry, hentry⟩ := exists_spellsEntry h hne
  have hsplit : ([','].intercalate pieces).splitOn ',' = pieces :=
    List.splitOn_intercalate ',' (comma_notMem_of_spellsEntries h) (List.ne_nil_of_mem hpiece)
  refine .list ?_ ?_ hlast
  · rw [String.toList_ofList]
    exact mem_intercalate hpiece (colon_mem_of_spells hentry)
  · rw [String.toList_ofList, entries, hsplit]
    exact areEntries_of_spells h

/-- **Assignment texts are read exactly**: each text is accepted, the last entry of an operation
winning, or refused, for the first thing that is wrong with it. What is accepted asks for
something, and every assignment that asks for something is read back from each text that is put
together from its entries, in whatever order. -/
theorem Assignment.parse_lastEntryWins :
    (∀ raw, Reads (Assignment.parse raw) (IsAssignment raw) (NoAssignment raw)) ∧
      (∀ raw assignment, Assignment.parse raw = .ok assignment →
        ∃ op variant, assignment op = some variant) ∧
      ∀ (assignment : Assignment) list pieces, (∃ op variant, assignment op = some variant) →
        (∀ op variant, (op, variant) ∈ list ↔ assignment op = some variant) →
          SpellsEntries pieces list →
            Assignment.parse (String.ofList ([','].intercalate pieces)) = .ok assignment := by
  refine ⟨Assignment.parse_reads, fun raw assignment h => ?_, ?_⟩
  · obtain ⟨op, hop⟩ := Assignment.isActive_iff.mp (Assignment.isActive_of_parse h)
    exact ⟨op, Option.isSome_iff_exists.mp hop⟩
  · rintro assignment list pieces ⟨op, variant, hop⟩ hlist hpieces
    have hlast : LastWins list assignment := by
      refine ⟨fun front op variant rest hfront _ => ?_, fun op hnone => ?_⟩
      · rw [← hlist, hfront]
        exact List.mem_append_right front List.mem_cons_self
      · rw [Option.eq_none_iff_forall_ne_some]
        exact fun variant hsome => hnone _ ((hlist op variant).mpr hsome) rfl
    have hne : list ≠ [] := List.ne_nil_of_mem ((hlist op variant).mpr hop)
    exact ((Assignment.parse_reads _).ok_iff _).mpr (isAssignment_of_spells hpieces hne hlast)

/-- The pieces may stand in any order, with blank ones between. Of two entries for one operation
the second counts, and what has no colon is reported when no entry before it is wrong. -/
theorem Assignment.parse_lastEntryWins_twoOperations :
    Assignment.parse " strlen : sse2\n,\t,memcpy:erms" = .ok (fun
        | .memcpy => some .erms
        | .strlen => some .sse2
        | _ => none) ∧
      (∃ assignment, Assignment.parse "memcpy:erms,memcpy :avx2" = .ok assignment ∧
        assignment .memcpy = some .avx2 ∧ assignment .memset = none) ∧
      Assignment.parse "memcpy:erms,strlen,memcopy:avx2" = .error (.malformedPair "strlen") := by
  obtain ⟨hreads, _, hround⟩ := Assignment.parse_lastEntryWins
  have hmemcpy : IsEntry "memcpy:erms".toList (.memcpy, .erms) :=
    ⟨"memcpy".toList, "erms".toList, ⟨rfl, by decide⟩, rfl, rfl⟩
  refine ⟨?_, ?_, ?_⟩
  · have hstrlen : SpellsEntry " strlen : sse2\n".toList (.strlen, .sse2) :=
      ⟨" strlen ".toList, " sse2\n".toList, ⟨[' '], [' '], by decide, by decide, rfl⟩,
        ⟨[' '], ['\n'], by decide, by decide, rfl⟩, rfl⟩
    have hpieces : SpellsEntries [" strlen : sse2\n".toList, ['\t'], "memcpy:erms".toList]
        [(.strlen, .sse2), (.memcpy, .erms)] :=
      .entry hstrlen (.blank (by decide) (.entry ⟨_, _, .refl _, .refl _, rfl⟩ .nil))
    have htext : " strlen : sse2\n,\t,memcpy:erms" = String.ofList ([','].intercalate
        [" strlen : sse2\n".toList, ['\t'], "memcpy:erms".toList]) := by decide
    rw [htext]
    refine hround _ _ _ ⟨.memcpy, .erms, rfl⟩ (fun op variant => ?_) hpieces
    cases op <;> cases variant <;> simp
  · have hagain : IsEntry "memcpy :avx2".toList (.memcpy, .avx2) :=
      ⟨"memcpy ".toList, "avx2".toList, ⟨rfl, by decide⟩, rfl, rfl⟩
    have hlast := lastWins_ofEntries [(.memcpy, .erms), (.memcpy, .avx2)]
    refine ⟨_, ((hreads _).ok_iff _).mpr (.list (by decide) (.cons hmemcpy (.cons hagain .nil))
      hlast), ?_, ?_⟩
    · exact hlast.last [(.memcpy, .erms)] _ _ [] rfl (by simp)
    · exact hlast.none _ (by simp)
  · exact ((hreads _).error_iff _).mpr (.entry (by decide) ⟨["memcpy:erms".toList], _,
      ["memcopy:avx2".toList], rfl, by simpa using ⟨_, _, hmemcpy⟩, .colon (by decide)⟩)

end ByteRoutines.Config
