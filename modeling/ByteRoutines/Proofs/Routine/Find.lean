import ByteRoutines.Routine.Entry
import ByteRoutines.Proofs.Kernel.Substring

/-!
# Finding in strings

`Finds` says that a routine points at the first position that has a property,
or answers nothing where none below the bound has it. Searching for a string
finds its first occurrence, whatever the registers, and only the two strings
have a say in it (`strstr_finds`).

A scan has no bound to end by, and what it is given need not look like a
string: a zero byte somewhere behind its start is all that it takes for it to
end, and to end where it should (`exists_scansString`).
-/

namespace ByteRoutines

open Exec Kernel

/-- Run from `s`, `x` points at the first position below `n` of which `p` holds, if any, counted
from `start`, and leaves memory as it is. -/
def Finds (x : Exec (Option Pointer)) (s : Machine) (start : Pointer) (p : Nat → Prop) (n : Nat) :
    Prop :=
  ∃ found, IsFirst p n found ∧ Returns x s (found.map (start + ·))

variable {ok : Event → Prop} {x : Exec (Option Pointer)} {s : Machine} {p start : Pointer}
  {q r : Nat → Prop} {n : Nat} {found : Option Nat}

theorem finds_of_answers (h : Answers ok x s.memory fun result => ∃ found,
    IsFirst q n found ∧ result = found.map (start + ·)) : Finds x s start q n := by
  obtain ⟨result, hreturns, found, hfirst, rfl⟩ := h.returns
  exact ⟨found, hfirst, hreturns⟩

theorem Finds.congr (h : Finds x s start q n) (hqr : ∀ i < n, q i ↔ r i) :
    Finds x s start r n := by
  obtain ⟨found, hfirst, hreturns⟩ := h
  exact ⟨found, hfirst.congr hqr, hreturns⟩

theorem Finds.returns (h : Finds x s start q n) (hfirst : IsFirst q n found) :
    Returns x s (found.map (start + ·)) := by
  obtain ⟨found', hfirst', hreturns⟩ := h
  rw [hfirst.unique hfirst']
  exact hreturns

theorem mayLoadString_anything (p : Pointer) (n : Nat) : MayLoadString (fun _ => True) p n :=
  fun _ _ _ _ _ _ => trivial

theorem strstr_kernel_finds {haystack needle : Pointer} {l n : Nat} (k : RegisterKind)
    (hhaystack : StringAt s.memory haystack.address l)
    (hneedle : StringAt s.memory needle.address n) :
    Finds (Kernel.strstr k haystack needle) s haystack
      (Occurs s.memory haystack.address l needle.address n) (l + 1) :=
  finds_of_answers (answers_strstr hhaystack hneedle (mayLoadString_anything haystack l)
    (mayLoadString_anything needle n))

/-- **The search for a string finds its first occurrence**, in every width and with every
variant's kernel; the empty string it finds where it starts. The answer is the same in any two
memories that agree on both strings. -/
theorem strstr_finds (s : Machine) (haystack needle : Pointer) (l n : Nat)
    (hhaystack : StringAt s.memory haystack.address l)
    (hneedle : StringAt s.memory needle.address n) :
    (∀ k, Finds (Kernel.strstr k haystack needle) s haystack
        (Occurs s.memory haystack.address l needle.address n) (l + 1)) ∧
      (∀ variant t, Finds (RoutineTable.ofVariant variant t .strstr haystack needle) s haystack
        (Occurs s.memory haystack.address l needle.address n) (l + 1)) ∧
      (n = 0 → ∀ k, Returns (Kernel.strstr k haystack needle) s (some haystack)) ∧
      ∀ s' : Machine,
        (∀ i ≤ l, s'.memory.get (haystack.address + i) = s.memory.get (haystack.address + i)) →
        (∀ j ≤ n, s'.memory.get (needle.address + j) = s.memory.get (needle.address + j)) →
        ∀ k k' result, Returns (Kernel.strstr k haystack needle) s result →
          Returns (Kernel.strstr k' haystack needle) s' result := by
  have hkernel : ∀ k, Finds (Kernel.strstr k haystack needle) s haystack
      (Occurs s.memory haystack.address l needle.address n) (l + 1) :=
    fun k => strstr_kernel_finds k hhaystack hneedle
  refine ⟨hkernel, fun variant _ => hkernel variant.registers, ?_, ?_⟩
  · rintro rfl k
    obtain ⟨found, hfirst, hreturns⟩ := hkernel k
    rw [hfirst.unique (isFirst_occurs_empty s.memory _ l _)] at hreturns
    exact hreturns
  · intro s' hagree hagree' k k' result hresult
    obtain ⟨found, hfirst, hreturns⟩ := hkernel k
    obtain ⟨found', hfirst', hreturns'⟩ :=
      strstr_kernel_finds k' (hhaystack.congr hagree) (hneedle.congr hagree')
    have hsame : IsFirst (Occurs s.memory haystack.address l needle.address n) (l + 1) found' := by
      refine hfirst'.congr fun i _ => and_congr_right fun hfits => forall₂_congr fun j hj => ?_
      rw [Nat.add_assoc, hagree (i + j) (by omega), hagree' j (by omega)]
    rw [hresult.unique hreturns, hfirst.unique hsame]
    exact hreturns'

/-- The strings of the bytes 1 1 1 2 and 1 1 2, the first one across the end of a page. -/
def repeatedStart : Memory := ⟨4093, #[1, 1, 1, 2, 0, 1, 1, 2, 0], fun _ => 1⟩

/-- The second string is found in the first one after a false start. -/
theorem strstr_finds_repeatedStart :
    (StringAt repeatedStart 4093 4 ∧ StringAt repeatedStart 4098 3) ∧
      Finds (RoutineTable.ofVariant .portable .baseline .strstr ⟨.first, 4093⟩ ⟨.second, 4098⟩)
        ⟨repeatedStart, []⟩ ⟨.first, 4093⟩ (Occurs repeatedStart 4093 4 4098 3) 5 := by
  have hhaystack : StringAt repeatedStart 4093 4 := ⟨by decide, by decide, by decide⟩
  have hneedle : StringAt repeatedStart 4098 3 := ⟨by decide, by decide, by decide⟩
  refine ⟨⟨hhaystack, hneedle⟩, ?_⟩
  exact (strstr_finds ⟨repeatedStart, []⟩ ⟨.first, 4093⟩ ⟨.second, 4098⟩ 4 3 hhaystack
    hneedle).2.1 .portable .baseline

/-! ### Scans -/

/-- What scans of the string of `n` bytes at `p` answer, run from `s`. -/
structure ScansString (s : Machine) (p : Pointer) (n : Nat) : Prop where
  /-- A scan ends, and its answer is the first position that stops it. -/
  stopPosition : ∀ k stop, ∃ i, IsFirst (stop.EndsAt s.memory p) (n + 1) (some i) ∧
    Returns (Kernel.stopPosition k stop p) s i
  strlen : ∀ k, Returns (Kernel.strlen k p) s n
  strlen_ofVariant : ∀ variant t, Returns (RoutineTable.ofVariant variant t .strlen p) s n
  strchr : ∀ k byte,
    Finds (Kernel.strchr k p byte) s p (fun i => s.memory.get (p.address + i) = byte) (n + 1)
  strchr_ofVariant : ∀ variant t byte, Finds (RoutineTable.ofVariant variant t .strchr p byte) s p
    (fun i => s.memory.get (p.address + i) = byte) (n + 1)
  /-- The terminator is found like any other byte. -/
  strchr_zero : ∀ k, Returns (Kernel.strchr k p 0) s (some (p + n))
  /-- Of a C `int`, the residue modulo 256 is looked for. -/
  findInString : ∀ (dispatch : Dispatch) (c : Int32), Finds (dispatch.table.findInString p c) s p
    (fun i => ((s.memory.get (p.address + i)).toNat : Int) = c.toInt % 256) (n + 1)

theorem strlen_kernel_returns (k : RegisterKind) (h : StringAt s.memory p.address n) :
    Returns (Kernel.strlen k p) s n := by
  obtain ⟨length, hreturns, rfl⟩ :=
    (answers_strlen (k := k) h (mayScan_anything s.memory .terminator p)).returns
  exact hreturns

theorem strchr_kernel_finds (k : RegisterKind) (byte : UInt8)
    (h : StringAt s.memory p.address n) :
    Finds (Kernel.strchr k p byte) s p (fun i => s.memory.get (p.address + i) = byte) (n + 1) :=
  finds_of_answers (answers_strchr h (mayScan_anything s.memory (.terminatorOr byte) p))

theorem scansString (h : StringAt s.memory p.address n) : ScansString s p n where
  stopPosition k stop := by
    obtain ⟨i, hreturns, hfirst⟩ := (answers_stopPosition (k := k) (stop.endsAt_of_zero h.ends)
      h.fits (mayScan_anything s.memory stop p)).returns
    exact ⟨i, hfirst, hreturns⟩
  strlen k := strlen_kernel_returns k h
  strlen_ofVariant variant _ := strlen_kernel_returns variant.registers h
  strchr k byte := strchr_kernel_finds k byte h
  strchr_ofVariant variant _ byte := strchr_kernel_finds variant.registers byte h
  strchr_zero k := by
    have hend : IsFirst (fun i => s.memory.get (p.address + i) = 0) (n + 1) (some n) :=
      ⟨Nat.lt_succ_self n, h.ends, h.inside⟩
    exact (strchr_kernel_finds k 0 h).returns hend
  findInString dispatch c :=
    (strchr_kernel_finds (dispatch.bindings .strchr).registers (lowByte c) h).congr
      fun _ _ => eq_lowByte_iff _ c

/-- **A scan ends wherever there is a zero byte to end it**, with the right answer, in every width
and with every variant's kernel. The answers are the same in any two memories that agree on the
string, and in all widths. -/
theorem exists_scansString (s : Machine) (p : Pointer) (t : Nat)
    (hfits : p.address + t < addressSpace) (hzero : s.memory.get (p.address + t) = 0) :
    ∃ n ≤ t, StringAt s.memory p.address n ∧ ScansString s p n ∧
      ∀ s' : Machine,
        (∀ i ≤ n, s'.memory.get (p.address + i) = s.memory.get (p.address + i)) →
        ∀ k k', Returns (Kernel.strlen k' p) s' n ∧ ∀ byte result,
          Returns (Kernel.strchr k p byte) s result →
            Returns (Kernel.strchr k' p byte) s' result := by
  obtain ⟨n, hn, h⟩ := exists_stringAt hfits hzero
  refine ⟨n, hn, h, scansString h, fun s' hagree k k' => ?_⟩
  have h' : StringAt s'.memory p.address n := h.congr hagree
  refine ⟨strlen_kernel_returns k' h', fun byte result hresult => ?_⟩
  have hsame : Finds (Kernel.strchr k' p byte) s' p
      (fun i => s.memory.get (p.address + i) = byte) (n + 1) :=
    (strchr_kernel_finds k' byte h').congr fun i hi => by rw [hagree i (Nat.le_of_lt_succ hi)]
  obtain ⟨found, hfirst, hreturns⟩ := strchr_kernel_finds k byte h
  rw [hresult.unique hreturns]
  exact hsame.returns hfirst

/-- Of two zero bytes it is the first that ends the string, and the byte 2 stands right before. -/
theorem exists_scansString_repeatedStart :
    (4093 + 8 < addressSpace ∧ repeatedStart.get (4093 + 8) = 0) ∧
      Returns (RoutineTable.ofVariant .avx512 .baseline .strlen ⟨.first, 4093⟩)
        ⟨repeatedStart, []⟩ 4 ∧
      Returns (Kernel.strchr .gpr ⟨.first, 4093⟩ 0) ⟨repeatedStart, []⟩ (some ⟨.first, 4097⟩) ∧
      Finds (RoutineTable.ofVariant .portable .baseline .strchr ⟨.first, 4093⟩ 2)
        ⟨repeatedStart, []⟩ ⟨.first, 4093⟩ (fun i => repeatedStart.get (4093 + i) = 2) 5 := by
  have hzero : 4093 + 8 < addressSpace ∧ repeatedStart.get (4093 + 8) = 0 := by decide
  have hstring : StringAt repeatedStart 4093 4 := ⟨by decide, by decide, by decide⟩
  obtain ⟨n, _, h, hscans, _⟩ :=
    exists_scansString ⟨repeatedStart, []⟩ ⟨.first, 4093⟩ 8 hzero.1 hzero.2
  obtain rfl : n = 4 := h.unique hstring
  exact ⟨hzero, hscans.strlen_ofVariant .avx512 .baseline, hscans.strchr_zero .gpr,
    hscans.strchr_ofVariant .portable .baseline 2⟩

end ByteRoutines
