import ByteRoutines.Proofs.Routine.StringCopy
import ByteRoutines.Proofs.Routine.Region

/-!
# Calls within a buffer and a source

What the wrappers on slices need of a table is that its routines do what they
are for when a call lies within the buffer and the source that the wrapper was
given: `table.Serves dest src`. Of any other call it says nothing. The table of
a process serves any buffer and any source that lies apart from it
(`serves_table`).
-/

namespace ByteRoutines

open Exec Kernel

/-- The region lies within the other one, and not elsewhere if it is empty. -/
def Region.Inside (r outer : Region) : Prop :=
  outer.start ≤ r.start ∧ r.start + r.length ≤ outer.start + outer.length

theorem Region.inside_mk {a n : Nat} {outer : Region} : Region.Inside ⟨a, n⟩ outer ↔
    outer.start ≤ a ∧ a + n ≤ outer.start + outer.length := Iff.rfl

theorem Region.Inside.take {a n i : Nat} {outer : Region} (h : Region.Inside ⟨a, n⟩ outer)
    (hi : i ≤ n) : Region.Inside ⟨a, i⟩ outer := by
  rw [Region.inside_mk] at *
  omega

/-- Parts of regions that lie apart lie apart. -/
theorem Region.Apart.of_inside {r r' outer outer' : Region} (h : Region.Apart outer outer')
    (hr : r.Inside outer) (hr' : r'.Inside outer') : Region.Apart r r' := by
  intro x hx hx'
  obtain ⟨a, n⟩ := r
  obtain ⟨a', n'⟩ := r'
  rw [Region.mem_mk] at hx hx'
  simp only [Region.Inside] at hr hr'
  exact h x (show _ ∧ _ by omega) (show _ ∧ _ by omega)

/-- Two regions of `n` bytes without a common byte follow one another. -/
theorem apart_of_regions {a b n : Nat} (h : Region.Apart ⟨a, n⟩ ⟨b, n⟩) : Apart a b n := by
  by_cases hlt : a + n ≤ b ∨ b + n ≤ a
  · exact hlt
  · exact absurd (Region.mem_mk.mpr (by omega)) (h (max a b) (Region.mem_mk.mpr (by omega)))

/-! ### Tables that serve -/

/-- The routines do what they are for, on calls that write within `dest` and read within `dest` or
`src`. -/
structure RoutineTable.Serves (table : RoutineTable) (dest src : Region) : Prop where
  memcpy : ∀ m d p n, Region.Inside ⟨d.address, n⟩ dest → Region.Inside ⟨p.address, n⟩ src →
    Ends (fun _ => True) (table .memcpy d p n) m fun _ m' =>
      m.Replaced m' d.address 0 n fun i => m.get (p.address + i)
  memmove : ∀ m d p n, Region.Inside ⟨d.address, n⟩ dest → Region.Inside ⟨p.address, n⟩ dest →
    Ends (fun _ => True) (table .memmove d p n) m fun _ m' =>
      m.Replaced m' d.address 0 n fun i => m.get (p.address + i)
  memset : ∀ m d byte n, Region.Inside ⟨d.address, n⟩ dest →
    Ends (fun _ => True) (table .memset d byte n) m fun _ m' =>
      m.Replaced m' d.address 0 n fun _ => byte
  memchr : ∀ m p byte n,
    Region.Inside ⟨p.address, n⟩ dest ∨ Region.Inside ⟨p.address, n⟩ src →
      Answers (fun _ => True) (table .memchr p byte n) m fun result => ∃ found,
        IsFirst (fun i => m.get (p.address + i) = byte) n found ∧ result = found.map (p + ·)
  strlen : ∀ m p l, StringAt m p.address l → Region.Inside ⟨p.address, l + 1⟩ src →
    Answers (fun _ => True) (table .strlen p) m fun length => length = l
  strcpy : ∀ m d p l, StringAt m p.address l → Region.Inside ⟨d.address, l + 1⟩ dest →
    Region.Inside ⟨p.address, l + 1⟩ src →
      Ends (fun _ => True) (table .strcpy d p) m fun _ m' =>
        m.Replaced m' d.address 0 (l + 1) (paddedCopy m p l)
  strncpy : ∀ m d p n found, IsFirst (ZeroAt m p) n found → Region.Inside ⟨d.address, n⟩ dest →
    Region.Inside ⟨p.address, n⟩ src →
      Ends (fun _ => True) (table .strncpy d p n) m fun _ m' =>
        m.Replaced m' d.address 0 n (paddedCopy m p (found.getD n))
  strcat : ∀ m d p l l', StringAt m d.address l → StringAt m p.address l' →
    Region.Inside ⟨d.address, l + l' + 1⟩ dest → Region.Inside ⟨p.address, l' + 1⟩ src →
      Ends (fun _ => True) (table .strcat d p) m fun _ m' =>
        m.Replaced m' (d.address + l) 0 (l' + 1) (paddedCopy m p l')
  strncat : ∀ m d p n l found, StringAt m d.address l → IsFirst (ZeroAt m p) n found →
    Region.Inside ⟨d.address, l + found.getD n + 1⟩ dest → Region.Inside ⟨p.address, n⟩ src →
      Ends (fun _ => True) (table .strncat d p n) m fun _ m' =>
        m.Replaced m' (d.address + l) 0 (found.getD n + 1) (paddedCopy m p (found.getD n))

/-- What is copied of a string with its terminator. -/
theorem replaced_paddedCopy_of_string {m m' : Memory} {a l : Nat} {p : Pointer}
    (hstring : StringAt m p.address l)
    (h : m.Replaced m' a 0 (l + 1) fun i => m.get (p.address + i)) :
    m.Replaced m' a 0 (l + 1) (paddedCopy m p l) :=
  h.congr fun _ _ hi => eq_paddedCopy (isFirst_zeroAt hstring (Nat.lt_succ_self l)) hi

/-- **The table of a process serves** a buffer that does not run past the last address and a source
that lies apart from it, whatever the operations are bound to. -/
theorem serves_table (dispatch : Dispatch) {dest src : Region}
    (hdest : dest.start + dest.length ≤ addressSpace) (hapart : Region.Apart dest src) :
    dispatch.table.Serves dest src where
  memcpy m d p n hd hp :=
    (ends_memcpy (apart_of_regions (hapart.of_inside hd hp)) (mayCopy_anything _ d p n)).mono
      fun _ _ ⟨_, hrep⟩ => hrep
  memmove m d p n hd hp := by
    rw [Region.inside_mk] at hd hp
    exact (ends_memmove (by omega) (by omega) (mayCopy_anything _ d p n)).mono
      fun _ _ ⟨_, hrep⟩ => hrep
  memset m d byte n _ := (ends_memset (mayFill_anything d n)).mono fun _ _ ⟨_, hrep⟩ => hrep
  memchr m p byte n _ := answers_memchr (mayLoadRegion_anything _ p n)
  strlen m p l hstring _ := answers_strlen hstring (mayScan_anything m .terminator p)
  strcpy m d p l hstring hd hp := by
    have hroom := (Region.inside_mk.mp hd).2
    have may : MayCopyString (fun _ => True) m d p maxLength (some l) :=
      mayCopyString_of_string hstring (by omega) (hapart.of_inside hd hp)
    exact (ends_strcpy may).mono
      fun _ _ ⟨_, hrep⟩ => replaced_paddedCopy_of_string hstring hrep
  strncpy m d p n found hfirst hd hp := by
    have hle := hfirst.searched_le
    have may : MayCopyString (fun _ => True) m d p n found :=
      mayCopyString_anything hfirst (hapart.of_inside (hd.take hle) (hp.take hle))
    exact (ends_strncpy may (mayFill_anything d n)).mono fun _ _ ⟨_, hrep⟩ => hrep
  strcat m d p l l' hd hp hin hsrc := by
    have hroom := (Region.inside_mk.mp hin).2
    have hend : Region.Inside ⟨(d + l).address, l' + 1⟩ dest := by
      rw [Region.inside_mk] at *
      rw [Pointer.address_add]
      omega
    have may : MayCopyString (fun _ => True) m (d + l) p maxLength (some l') :=
      mayCopyString_of_string hp (by rw [Pointer.address_add]; omega)
        (hapart.of_inside hend hsrc)
    exact (ends_strcat hd (mayScan_anything m .terminator d) may).mono
      fun _ _ ⟨_, hrep⟩ => replaced_paddedCopy_of_string hp hrep
  strncat m d p n l found hd hfirst hin hsrc := by
    have hle := hfirst.searched_le
    have hsucc := IsFirst.searched_le_succ_getD n found
    have hend : Region.Inside ⟨(d + l).address, searched n found⟩ dest := by
      rw [Region.inside_mk] at *
      rw [Pointer.address_add]
      omega
    have may : MayCopyString (fun _ => True) m (d + l) p n found :=
      mayCopyString_anything hfirst (hapart.of_inside hend (hsrc.take hle))
    exact (ends_strncat hd (mayScan_anything m .terminator d) may trivial).mono
      fun _ _ ⟨_, hrep⟩ => hrep

end ByteRoutines
