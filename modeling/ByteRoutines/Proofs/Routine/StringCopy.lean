import ByteRoutines.Proofs.Kernel.StringCopy
import ByteRoutines.Proofs.Routine.Copy
import ByteRoutines.Proofs.Routine.Fill

/-!
# Copying and appending strings

What callers may rely on when a string is copied or appended: exactly which
bytes stand at the destination afterwards, and that no other byte has changed.

* `strncpy_copies`: a copy writes the string with its terminator; a copy of at
  most `n` bytes writes `n` bytes, zeros from the terminator on.
* `strncat_appends`: what is appended goes to where the terminator of the
  string at the destination was, and ends with a terminator of its own. So a
  string stands there again, of both lengths together.

A bound may end before the source does, which then need not be terminated:
`found` is the first zero among its first `n` bytes, if there is one, and
`found.getD n` bytes come before it. Where the source is a string, that is the
lesser of its length and the bound.
-/

namespace ByteRoutines

open Exec Kernel

variable {ok : Event → Prop} {m : Memory} {s : Machine} {x : Exec Pointer} {dst src : Pointer}
  {a l n : Nat} {found : Option Nat}

theorem mayCopyString_anything (hfirst : IsFirst (ZeroAt m src) n found)
    (hapart : Region.Apart ⟨dst.address, searched n found⟩ ⟨src.address, searched n found⟩) :
    MayCopyString (fun _ => True) m dst src n found where
  isFirst := hfirst
  apart := hapart
  load _ _ _ _ _ _ := trivial
  store _ _ _ _ := trivial

/-- A string beside which there is room for a copy is shorter than the largest bound. -/
theorem lt_maxLength_of_apart (h : StringAt m src.address l) (hroom : a + l < addressSpace)
    (hapart : Region.Apart ⟨a, l + 1⟩ ⟨src.address, l + 1⟩) : l < maxLength := by
  have hfits := h.fits
  refine Nat.not_le.mp fun hle => ?_
  simp only [maxLength, addressSpace] at hle hroom hfits
  -- A longer one fills the address space, and so does the room.
  exact hapart 0 (Region.mem_mk.mpr (by omega)) (Region.mem_mk.mpr (by omega))

/-- The copy of a string without a bound stops at its terminator. -/
theorem mayCopyString_of_string (h : StringAt m src.address l)
    (hroom : dst.address + l < addressSpace)
    (hapart : Region.Apart ⟨dst.address, l + 1⟩ ⟨src.address, l + 1⟩) :
    MayCopyString (fun _ => True) m dst src maxLength (some l) :=
  mayCopyString_anything (isFirst_zeroAt h (lt_maxLength_of_apart h hroom hapart)) hapart

/-! ### Copies -/

/-- **Copies of strings write what they are to, and nothing else**, in every width, for every
policy of the zeros, and with every variant's kernel for all thresholds. It is enough that what is
read of the source lies apart from where it goes. -/
theorem strncpy_copies (s : Machine) (dst src : Pointer) :
    (∀ l, StringAt s.memory src.address l → dst.address + l < addressSpace →
        Region.Apart ⟨dst.address, l + 1⟩ ⟨src.address, l + 1⟩ →
          (∀ k, Copies (Kernel.strcpy k dst src) s dst dst.address src.address (l + 1)) ∧
            ∀ variant t, Copies (RoutineTable.ofVariant variant t .strcpy dst src) s dst
              dst.address src.address (l + 1)) ∧
      ∀ n found, IsFirst (ZeroAt s.memory src) n found →
        Region.Apart ⟨dst.address, searched n found⟩ ⟨src.address, searched n found⟩ →
          (∀ l, StringAt s.memory src.address l → found.getD n = min l n) ∧
            (∀ k policy, Writes (Kernel.strncpy k policy dst src n) s dst dst.address n
              (paddedCopy s.memory src (found.getD n))) ∧
            ∀ variant t, Writes (RoutineTable.ofVariant variant t .strncpy dst src n) s dst
              dst.address n (paddedCopy s.memory src (found.getD n)) := by
  refine ⟨fun l hsrc hroom hapart => ?_, fun n found hfirst hapart => ?_⟩
  · have hkernel : ∀ k, Copies (Kernel.strcpy k dst src) s dst dst.address src.address (l + 1) :=
      fun k => copies_of_ends (ends_strcpy (mayCopyString_of_string hsrc hroom hapart))
    exact ⟨hkernel, fun variant _ => hkernel variant.registers⟩
  · have hkernel : ∀ k policy, Writes (Kernel.strncpy k policy dst src n) s dst dst.address n
        (paddedCopy s.memory src (found.getD n)) := fun k policy =>
      (ends_strncpy (mayCopyString_anything hfirst hapart) (mayFill_anything dst n)).writes
    exact ⟨fun l hsrc => getD_eq_min hsrc hfirst, hkernel,
      fun variant t => hkernel variant.registers (.forFills t)⟩

/-- The string of the bytes 97 and 98, and one of the bytes 99, 100 and 101 across the end of the
page, as far behind it as an appended copy needs. -/
def stringsApart : Memory := ⟨4088, #[97, 98, 0, 1, 1, 1, 99, 100, 101, 0], fun _ => 1⟩

/-- The longer string is copied to the room right before it, and with zeros up to 900 bytes. -/
theorem strncpy_copies_stringsApart :
    (StringAt stringsApart 4094 3 ∧ Region.Apart ⟨4090, 4⟩ ⟨4094, 4⟩) ∧
      Copies (RoutineTable.ofVariant .avx512 .baseline .strcpy ⟨.first, 4090⟩ ⟨.second, 4094⟩)
        ⟨stringsApart, []⟩ ⟨.first, 4090⟩ 4090 4094 4 ∧
      Writes (RoutineTable.ofVariant .sse2 .baseline .strncpy ⟨.first, 3001⟩ ⟨.second, 4094⟩ 900)
        ⟨stringsApart, []⟩ ⟨.first, 3001⟩ 3001 900 (paddedCopy stringsApart ⟨.second, 4094⟩ 3) := by
  have hsrc : StringAt stringsApart 4094 3 := ⟨by decide, by decide, by decide⟩
  have hapart : Region.Apart ⟨4090, 4⟩ ⟨4094, 4⟩ := Region.apart_of_le (by decide)
  have hfirst : IsFirst (ZeroAt stringsApart ⟨.second, 4094⟩) 900 (some 3) :=
    isFirst_zeroAt hsrc (by decide)
  refine ⟨⟨hsrc, hapart⟩, ?_, ?_⟩
  · exact ((strncpy_copies ⟨stringsApart, []⟩ ⟨.first, 4090⟩ ⟨.second, 4094⟩).1 3 hsrc (by decide)
      hapart).2 .avx512 .baseline
  · exact ((strncpy_copies ⟨stringsApart, []⟩ ⟨.first, 3001⟩ ⟨.second, 4094⟩).2 900 (some 3) hfirst
      (Region.apart_of_le (by decide))).2.2 .sse2 .baseline

/-! ### Appending -/

/-- Run from `s`, `x` answers `dst`. Behind the first `length` bytes there stand then the `added`
bytes that stood at `src` before, and a terminator; every other byte is as it was. Together they
are a string. -/
def Appends (x : Exec Pointer) (s : Machine) (dst src : Pointer) (length added : Nat) : Prop :=
  ∃ s', x s = .ok dst s' ∧
    (∀ i < added, s'.memory.get (dst.address + length + i) = s.memory.get (src.address + i)) ∧
    s'.memory.get (dst.address + length + added) = 0 ∧
    (∀ b, b < dst.address + length ∨ dst.address + length + added < b →
      s'.memory.get b = s.memory.get b) ∧
    StringAt s'.memory dst.address (length + added)

theorem appends_of_ends (hdst : StringAt s.memory dst.address l)
    (hfirst : IsFirst (ZeroAt s.memory src) n found)
    (hroom : dst.address + l + found.getD n < addressSpace)
    (h : Ends ok x s.memory fun p m' => p = dst ∧ s.memory.Replaced m' (dst + l).address 0
      (found.getD n + 1) (paddedCopy s.memory src (found.getD n))) :
    Appends x s dst src l (found.getD n) := by
  obtain ⟨s', hrun, hin, hout⟩ := h.writes
  have hcopied : ∀ i < found.getD n,
      s'.memory.get (dst.address + l + i) = s.memory.get (src.address + i) :=
    fun i hi => (hin i (Nat.lt_succ_of_lt hi)).trans (if_pos hi)
  have hends : s'.memory.get (dst.address + l + found.getD n) = 0 :=
    (hin _ (Nat.lt_succ_self _)).trans (if_neg (Nat.lt_irrefl _))
  have hadded : StringAt s'.memory (dst.address + l) (found.getD n) := by
    refine ⟨hroom, hends, fun i hi => ?_⟩
    rw [hcopied i hi]
    exact hfirst.not_of_lt_getD hi
  have hkept : ∀ i < l, s'.memory.get (dst.address + i) = s.memory.get (dst.address + i) :=
    fun i hi => hout _ (Or.inl (Nat.add_lt_add_left hi _))
  exact ⟨s', hrun, hcopied, hends, hout, hdst.append hkept hadded⟩

theorem strcat_appends {l' : Nat} (k : RegisterKind) (hdst : StringAt s.memory dst.address l)
    (hsrc : StringAt s.memory src.address l') (hroom : dst.address + l + l' < addressSpace)
    (hapart : Region.Apart ⟨dst.address + l, l' + 1⟩ ⟨src.address, l' + 1⟩) :
    Appends (Kernel.strcat k dst src) s dst src l l' := by
  have may : MayCopyString (fun _ => True) s.memory (dst + l) src maxLength (some l') :=
    mayCopyString_of_string hsrc hroom hapart
  refine appends_of_ends hdst may.isFirst hroom
    ((ends_strcat hdst (mayScan_anything s.memory .terminator dst) may).mono ?_)
  rintro p m' ⟨rfl, hrep⟩
  exact ⟨rfl, hrep.congr fun i _ hi => eq_paddedCopy may.isFirst hi⟩

/-- **What is appended follows the string, ends with a terminator, and nothing else changes**, in
every width and with every variant's kernel. -/
theorem strncat_appends (s : Machine) (dst src : Pointer) (l : Nat)
    (hdst : StringAt s.memory dst.address l) :
    (∀ l', StringAt s.memory src.address l' → dst.address + l + l' < addressSpace →
        Region.Apart ⟨dst.address + l, l' + 1⟩ ⟨src.address, l' + 1⟩ →
          (∀ k, Appends (Kernel.strcat k dst src) s dst src l l') ∧
            ∀ variant t, Appends (RoutineTable.ofVariant variant t .strcat dst src) s dst src
              l l') ∧
      ∀ n found, IsFirst (ZeroAt s.memory src) n found →
        dst.address + l + found.getD n < addressSpace →
        Region.Apart ⟨dst.address + l, searched n found⟩ ⟨src.address, searched n found⟩ →
          (∀ l', StringAt s.memory src.address l' → found.getD n = min l' n) ∧
            (∀ k, Appends (Kernel.strncat k dst src n) s dst src l (found.getD n)) ∧
            ∀ variant t, Appends (RoutineTable.ofVariant variant t .strncat dst src n) s dst src
              l (found.getD n) := by
  refine ⟨fun l' hsrc hroom hapart => ?_, fun n found hfirst hroom hapart => ?_⟩
  · exact ⟨fun k => strcat_appends k hdst hsrc hroom hapart,
      fun variant _ => strcat_appends variant.registers hdst hsrc hroom hapart⟩
  · have may : MayCopyString (fun _ => True) s.memory (dst + l) src n found :=
      mayCopyString_anything hfirst hapart
    have hkernel : ∀ k, Appends (Kernel.strncat k dst src n) s dst src l (found.getD n) :=
      fun k => appends_of_ends hdst hfirst hroom
        (ends_strncat hdst (mayScan_anything s.memory .terminator dst) may trivial)
    exact ⟨fun l' hsrc => getD_eq_min hsrc hfirst, hkernel,
      fun variant _ => hkernel variant.registers⟩

/-- The longer string is appended to the shorter one, whole and up to its first two bytes. -/
theorem strncat_appends_stringsApart :
    (StringAt stringsApart 4088 2 ∧ StringAt stringsApart 4094 3 ∧
        Region.Apart ⟨4090, 4⟩ ⟨4094, 4⟩) ∧
      Appends (RoutineTable.ofVariant .avx2 .baseline .strcat ⟨.first, 4088⟩ ⟨.second, 4094⟩)
        ⟨stringsApart, []⟩ ⟨.first, 4088⟩ ⟨.second, 4094⟩ 2 3 ∧
      Appends (RoutineTable.ofVariant .portable .baseline .strncat ⟨.first, 4088⟩
        ⟨.second, 4094⟩ 2) ⟨stringsApart, []⟩ ⟨.first, 4088⟩ ⟨.second, 4094⟩ 2 2 := by
  have hdst : StringAt stringsApart 4088 2 := ⟨by decide, by decide, by decide⟩
  have hsrc : StringAt stringsApart 4094 3 := ⟨by decide, by decide, by decide⟩
  have hapart : Region.Apart ⟨4090, 4⟩ ⟨4094, 4⟩ := Region.apart_of_le (by decide)
  have hcut : IsFirst (ZeroAt stringsApart ⟨.second, 4094⟩) 2 none := by decide
  refine ⟨⟨hdst, hsrc, hapart⟩, ?_, ?_⟩
  · exact ((strncat_appends ⟨stringsApart, []⟩ ⟨.first, 4088⟩ ⟨.second, 4094⟩ 2 hdst).1 3 hsrc
      (by decide) hapart).2 .avx2 .baseline
  · exact ((strncat_appends ⟨stringsApart, []⟩ ⟨.first, 4088⟩ ⟨.second, 4094⟩ 2 hdst).2 2 none hcut
      (by decide) (hapart.take (by decide))).2.2 .portable .baseline

end ByteRoutines
