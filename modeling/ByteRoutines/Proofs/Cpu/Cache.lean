import ByteRoutines.Cpu.Cache
import ByteRoutines.Proofs.Last

/-!
# Which leaf decides the size of a cache

The leaves are read up to the first null entry (`BeforeNull`). Of those, the
last one that describes a level decides its size, and a level that none
describes keeps its standard size (`ofLeaves_takes_last`). Instruction caches
describe no level, and neither do caches of a level above 3.

* `size_note`: one leaf replaces the size of the level that it describes.
* `size_foldl_note`: after many leaves, a size is what the leaves that describe
  its level make of it; so the order of the others does not matter.
-/

namespace ByteRoutines.Cpu

/-- The caches whose sizes are kept. -/
inductive CacheLevel
  | l1d
  | l2
  | l3
  deriving DecidableEq

/-- The number by which a leaf names the level. -/
def CacheLevel.number : CacheLevel → UInt32
  | l1d => 1
  | l2 => 2
  | l3 => 3

def CacheSizes.size (sizes : CacheSizes) : CacheLevel → UInt64
  | .l1d => sizes.l1d
  | .l2 => sizes.l2
  | .l3 => sizes.l3

namespace CacheLeaf

/-- The leaf describes a cache of this level, and not one for instructions. -/
def Describes (leaf : CacheLeaf) (level : CacheLevel) : Prop :=
  leaf.kind ≠ 2 ∧ leaf.level = level.number

instance (leaf : CacheLeaf) (level : CacheLevel) : Decidable (leaf.Describes level) :=
  inferInstanceAs (Decidable (_ ∧ _))

/-- The leaf is about an instruction cache, or about a level whose size is not kept. -/
def Idle (leaf : CacheLeaf) : Prop := leaf.kind = 2 ∨ leaf.level ∉ [1, 2, 3]

theorem not_describes_of_idle {leaf : CacheLeaf} (h : leaf.Idle) (level : CacheLevel) :
    ¬ leaf.Describes level := by
  rintro ⟨hkind, hlevel⟩
  refine h.elim hkind fun hnone => hnone ?_
  rw [hlevel]
  cases level <;> decide

end CacheLeaf

/-- `front` are the leaves before the first null entry. -/
def BeforeNull (leaves front : List CacheLeaf) : Prop :=
  ∃ rest, leaves = front ++ rest ∧ (∀ leaf ∈ front, leaf.kind ≠ 0) ∧
    ∀ null ∈ rest.head?, null.kind = 0

/-- Changes of the leaves before the null entry that no size depends on: an idle leaf is left out,
or leaves of different levels change places while those of each level stay in their order. -/
inductive SameCaches : List CacheLeaf → List CacheLeaf → Prop
  | idle {before after : List CacheLeaf} {leaf : CacheLeaf} : leaf.Idle →
      SameCaches (before ++ leaf :: after) (before ++ after)
  | reordered {front front' : List CacheLeaf} :
      (∀ number, front.filter (fun leaf => leaf.level = number) =
        front'.filter fun leaf => leaf.level = number) → SameCaches front front'

/-- Two neighbours of different levels may change places. -/
theorem SameCaches.swap {before after : List CacheLeaf} {leaf leaf' : CacheLeaf}
    (h : leaf.level ≠ leaf'.level) :
    SameCaches (before ++ leaf :: leaf' :: after) (before ++ leaf' :: leaf :: after) := by
  refine .reordered fun number => ?_
  rw [List.filter_append, List.filter_append]
  by_cases hleaf : leaf.level = number
  · have hleaf' : leaf'.level ≠ number := fun heq => h (hleaf.trans heq.symm)
    simp [hleaf, hleaf']
  · simp [List.filter_cons, hleaf]

namespace CacheSizes

variable {sizes sizes' : CacheSizes} {leaves front front' : List CacheLeaf} {level : CacheLevel}
  {found : Option CacheLeaf}

theorem eq_of_size (h : ∀ level, sizes.size level = sizes'.size level) : sizes = sizes' := by
  obtain ⟨l1d, l2, l3⟩ := sizes
  obtain ⟨l1d', l2', l3'⟩ := sizes'
  have h1 : l1d = l1d' := h .l1d
  have h2 : l2 = l2' := h .l2
  have h3 : l3 = l3' := h .l3
  rw [h1, h2, h3]

/-- One leaf replaces the size of the level that it describes, and no other. -/
theorem size_note (sizes : CacheSizes) (leaf : CacheLeaf) (level : CacheLevel) :
    (sizes.note leaf).size level =
      if leaf.Describes level then leaf.size else sizes.size level := by
  unfold note CacheLeaf.Describes
  by_cases hkind : leaf.kind = 2
  · simp [hkind]
  by_cases h1 : leaf.level = 1
  · cases level <;> simp [hkind, h1, size, CacheLevel.number]
  by_cases h2 : leaf.level = 2
  · cases level <;> simp [hkind, h2, size, CacheLevel.number]
  by_cases h3 : leaf.level = 3
  · cases level <;> simp [hkind, h3, size, CacheLevel.number]
  · cases level <;> simp [hkind, h1, h2, h3, size, CacheLevel.number]

/-- What many leaves make of the size of a level: those that describe it replace it one after the
other. -/
theorem size_foldl_note (leaves : List CacheLeaf) (sizes : CacheSizes) (level : CacheLevel) :
    (leaves.foldl note sizes).size level =
      (leaves.filter (·.Describes level)).foldl (fun _ leaf => leaf.size) (sizes.size level) := by
  induction leaves generalizing sizes with
  | nil => rfl
  | cons leaf rest ih =>
    rw [List.foldl_cons, ih, size_note]
    by_cases hleaf : leaf.Describes level
    · rw [if_pos hleaf, List.filter_cons_of_pos (by simpa using hleaf), List.foldl_cons]
    · rw [if_neg hleaf, List.filter_cons_of_neg (by simpa using hleaf)]

theorem filter_describes_eq_nil (h : ∀ leaf ∈ leaves, ¬ leaf.Describes level) :
    leaves.filter (·.Describes level) = [] := by
  rw [List.filter_eq_nil_iff]
  simpa using h

theorem size_foldl_note_of_isLast (h : IsLast (·.Describes level) leaves found)
    (sizes : CacheSizes) :
    (leaves.foldl note sizes).size level =
      (found.map CacheLeaf.size).getD (sizes.size level) := by
  rw [size_foldl_note]
  cases found with
  | none =>
    rw [filter_describes_eq_nil h]
    rfl
  | some last =>
    obtain ⟨front, rest, rfl, hlast, hrest⟩ := h
    rw [List.filter_append, List.filter_cons_of_pos (by simpa using hlast),
      filter_describes_eq_nil hrest, List.foldl_append]
    rfl

/-! ### The null entry -/

theorem exists_beforeNull (leaves : List CacheLeaf) : ∃ front, BeforeNull leaves front := by
  induction leaves with
  | nil => exact ⟨[], [], rfl, nofun, nofun⟩
  | cons leaf rest ih =>
    by_cases hnull : leaf.kind = 0
    · exact ⟨[], leaf :: rest, rfl, nofun, by simpa using hnull⟩
    · obtain ⟨front, tail, rfl, hfront, htail⟩ := ih
      exact ⟨leaf :: front, tail, rfl, List.forall_mem_cons.mpr ⟨hnull, hfront⟩, htail⟩

/-- Nothing is read from the null entry on. -/
theorem ofLeaves_eq (h : BeforeNull leaves front) :
    ofLeaves leaves = front.foldl note standard := by
  obtain ⟨rest, rfl, hfront, hrest⟩ := h
  have hstop : rest.takeWhile (fun leaf => leaf.kind != 0) = [] := by
    cases rest with
    | nil => rfl
    | cons null rest =>
      have hnull : null.kind = 0 := hrest null rfl
      rw [List.takeWhile_cons_of_neg (by simp [hnull])]
  rw [ofLeaves, List.takeWhile_append_of_pos (by simpa using hfront), hstop, List.append_nil]

theorem size_ofLeaves (h : BeforeNull leaves front)
    (hfound : IsLast (·.Describes level) front found) :
    (ofLeaves leaves).size level = (found.map CacheLeaf.size).getD (standard.size level) := by
  rw [ofLeaves_eq h]
  exact size_foldl_note_of_isLast hfound standard

/-! ### What the sizes do not depend on -/

theorem filter_describes_of_sameCaches (h : SameCaches front front') (level : CacheLevel) :
    front.filter (·.Describes level) = front'.filter (·.Describes level) := by
  cases h with
  | idle hidle =>
    rw [List.filter_append, List.filter_append, List.filter_cons_of_neg]
    simpa using CacheLeaf.not_describes_of_idle hidle level
  | reordered hlevels =>
    -- The leaves that describe a level are among those of its number.
    have hsplit : ∀ list : List CacheLeaf, list.filter (·.Describes level) =
        (list.filter fun leaf => leaf.level = level.number).filter fun leaf => leaf.kind ≠ 2 := by
      intro list
      rw [List.filter_filter]
      exact List.filter_congr fun leaf _ => Bool.decide_and _ _
    rw [hsplit, hsplit, hlevels]

/-- **The last leaf of a level decides its size**: of the leaves before the first null entry, the
last one of the level that is not for instructions, and without one the size is the standard one.
What comes after the null entry, instruction caches, other levels and the order in which different
levels appear have no influence on any size. -/
theorem ofLeaves_takes_last (leaves : List CacheLeaf) :
    (∃ front, BeforeNull leaves front ∧
        ∀ level, ∃ found, IsLast (·.Describes level) front found) ∧
      ∀ front, BeforeNull leaves front →
        (∀ level found, IsLast (·.Describes level) front found →
          (ofLeaves leaves).size level =
            (found.map CacheLeaf.size).getD (standard.size level)) ∧
        (∀ leaves', BeforeNull leaves' front → ofLeaves leaves' = ofLeaves leaves) ∧
        ∀ leaves' front', BeforeNull leaves' front' → SameCaches front front' →
          ofLeaves leaves' = ofLeaves leaves := by
  constructor
  · obtain ⟨front, hfront⟩ := exists_beforeNull leaves
    exact ⟨front, hfront, fun level => exists_isLast (·.Describes level) front⟩
  intro front h
  refine ⟨fun level found => size_ofLeaves h, fun leaves' h' => ?_,
    fun leaves' front' h' hsame => ?_⟩
  · rw [ofLeaves_eq h, ofLeaves_eq h']
  · refine eq_of_size fun level => ?_
    rw [ofLeaves_eq h, ofLeaves_eq h', size_foldl_note, size_foldl_note,
      filter_describes_of_sameCaches hsame]

/-- Two caches of the second level, one for instructions and one of the fourth level. -/
def mixedLeaves : List CacheLeaf :=
  [⟨33, 0x01C0003F, 63⟩, ⟨67, 0x01C0003F, 2047⟩, ⟨34, 0x01C0003F, 63⟩, ⟨67, 0x01C0003F, 4095⟩,
    ⟨131, 0x01C0003F, 0⟩]

/-- The second of them decides, and a cache behind the null entry does not. Nothing changes where
the first level is moved behind the second, or without the instruction cache. -/
theorem ofLeaves_takes_last_mixedLeaves :
    (BeforeNull (mixedLeaves ++ [⟨0, 0, 0⟩, ⟨99, 0, 0⟩]) mixedLeaves ∧
        IsLast (·.Describes .l2) mixedLeaves (some ⟨67, 0x01C0003F, 4095⟩) ∧
        IsLast (·.Describes .l3) mixedLeaves none) ∧
      (ofLeaves (mixedLeaves ++ [⟨0, 0, 0⟩, ⟨99, 0, 0⟩])).size .l2 = 2097152 ∧
      (ofLeaves (mixedLeaves ++ [⟨0, 0, 0⟩, ⟨99, 0, 0⟩])).size .l3 = standard.l3 ∧
      ofLeaves [⟨67, 0x01C0003F, 2047⟩, ⟨33, 0x01C0003F, 63⟩, ⟨34, 0x01C0003F, 63⟩,
        ⟨67, 0x01C0003F, 4095⟩, ⟨131, 0x01C0003F, 0⟩] =
          ofLeaves (mixedLeaves ++ [⟨0, 0, 0⟩, ⟨99, 0, 0⟩]) ∧
      ofLeaves [⟨33, 0x01C0003F, 63⟩, ⟨67, 0x01C0003F, 2047⟩, ⟨67, 0x01C0003F, 4095⟩,
        ⟨131, 0x01C0003F, 0⟩] = ofLeaves (mixedLeaves ++ [⟨0, 0, 0⟩, ⟨99, 0, 0⟩]) := by
  have hfront : BeforeNull (mixedLeaves ++ [⟨0, 0, 0⟩, ⟨99, 0, 0⟩]) mixedLeaves :=
    ⟨_, rfl, by decide, by decide⟩
  have hsecond : IsLast (·.Describes .l2) mixedLeaves (some ⟨67, 0x01C0003F, 4095⟩) :=
    ⟨mixedLeaves.take 3, _, rfl, by decide, by decide⟩
  have hthird : IsLast (·.Describes .l3) mixedLeaves none := by
    show ∀ leaf ∈ mixedLeaves, ¬ leaf.Describes .l3
    decide
  obtain ⟨hsize, _, hsame⟩ :=
    (ofLeaves_takes_last (mixedLeaves ++ [⟨0, 0, 0⟩, ⟨99, 0, 0⟩])).2 mixedLeaves hfront
  refine ⟨⟨hfront, hsecond, hthird⟩, ?_, hsize .l3 none hthird, ?_, ?_⟩
  · rw [hsize .l2 _ hsecond]
    decide
  · refine hsame _ _ ⟨[], (List.append_nil _).symm, by decide, nofun⟩ ?_
    exact @SameCaches.swap [] _ _ _ (by decide)
  · refine hsame _ _ ⟨[], (List.append_nil _).symm, by decide, nofun⟩ ?_
    exact @SameCaches.idle (mixedLeaves.take 2) _ _ (Or.inl (by decide))

end CacheSizes

end ByteRoutines.Cpu
