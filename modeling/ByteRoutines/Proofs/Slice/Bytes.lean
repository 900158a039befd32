import ByteRoutines.Slice.Basic
import ByteRoutines.Proofs.Kernel.StringCopy

/-!
# The bytes of a slice

What a slice holds is a list of bytes, `s.bytes m`, and what is written to it
replaces a part of that list: `overwrite`. The string in a slice is what comes
before the first zero, `textOf`.

`bytes_of_replaced` goes from a region of memory that is replaced to the list
that is overwritten, and `textOf_read` from the first zero byte in memory to
the end of the text. A text that is written with a terminator behind it,
no further on than the terminator before, continues the text up to there
(`textOf_overwrite`).
-/

namespace ByteRoutines

open Kernel

/-- A list of bytes, of which those from a position on are replaced by others. -/
def overwrite (buffer : List UInt8) (position : Nat) (bytes : List UInt8) : List UInt8 :=
  buffer.take position ++ bytes ++ buffer.drop (position + bytes.length)

/-- The bytes before the first zero, or all of them. -/
def textOf (bytes : List UInt8) : List UInt8 := bytes.takeWhile (· ≠ 0)

theorem zero_notMem_textOf (bytes : List UInt8) : 0 ∉ textOf bytes := by
  intro hmem
  have hall : (textOf bytes).all (· ≠ 0) = true := List.all_takeWhile
  simpa using List.all_eq_true.mp hall 0 hmem

/-- Bytes before a text that are not zero belong to it. -/
theorem textOf_append {text : List UInt8} (h : 0 ∉ text) (rest : List UInt8) :
    textOf (text ++ rest) = text ++ textOf rest := by
  refine List.takeWhile_append_of_pos fun byte hbyte => ?_
  have hne : byte ≠ 0 := fun heq => h (heq ▸ hbyte)
  exact decide_eq_true hne

theorem textOf_of_notMem {text : List UInt8} (h : 0 ∉ text) : textOf text = text := by
  have hall := textOf_append h []
  simpa [textOf] using hall

/-- A text ends where its terminator stands. -/
theorem textOf_append_zero {text : List UInt8} (h : 0 ∉ text) (rest : List UInt8) :
    textOf (text ++ 0 :: rest) = text := by
  rw [textOf_append h]
  simp [textOf]

/-- Up to its first zero, a list is its text. -/
theorem take_of_le_length_textOf {bytes : List UInt8} {n : Nat} (h : n ≤ (textOf bytes).length) :
    bytes.take n = (textOf bytes).take n := by
  have hsplit : textOf bytes ++ bytes.dropWhile (· ≠ 0) = bytes := List.takeWhile_append_dropWhile
  calc bytes.take n = (textOf bytes ++ bytes.dropWhile (· ≠ 0)).take n := by rw [hsplit]
    _ = (textOf bytes).take n := List.take_append_of_le_length h

/-- **A text that is written within a text continues it.** -/
theorem textOf_overwrite {buffer text : List UInt8} {position : Nat} (htext : 0 ∉ text)
    (hposition : position ≤ (textOf buffer).length) :
    textOf (overwrite buffer position (text ++ [0])) = (textOf buffer).take position ++ text := by
  have hzero : 0 ∉ (textOf buffer).take position ++ text := by
    intro hmem
    rcases List.mem_append.mp hmem with hold | hnew
    · exact zero_notMem_textOf buffer (List.mem_of_mem_take hold)
    · exact htext hnew
  rw [overwrite, take_of_le_length_textOf hposition, ← List.append_assoc, List.append_assoc _ [0],
    List.singleton_append]
  exact textOf_append_zero hzero _

theorem zero_mem_overwrite (buffer text : List UInt8) (position : Nat) :
    0 ∈ overwrite buffer position (text ++ [0]) := by
  simp [overwrite]

/-! ### In memory -/

theorem Memory.length_read (m : Memory) (a n : Nat) : (m.read a n).toList.length = n := by simp

theorem Memory.toList_read_add (m : Memory) (a i n : Nat) :
    (m.read a (i + n)).toList = (m.read a i).toList ++ (m.read (a + i) n).toList := by
  refine List.ext_getElem (by simp) fun j hj hj' => ?_
  rw [List.getElem_append]
  split
  · simp
  · rename_i hge
    simp only [Memory.length_read] at hge
    simp only [Vector.getElem_toList, Memory.getElem_read, Memory.length_read]
    rw [Nat.add_assoc, Nat.add_sub_cancel' (Nat.not_lt.mp hge)]

theorem zero_notMem_read {m : Memory} {p : Pointer} {n : Nat} (h : ∀ i < n, ¬ ZeroAt m p i) :
    0 ∉ (m.read p.address n).toList := by
  intro hmem
  obtain ⟨i, hi, hzero⟩ := List.mem_iff_getElem.mp hmem
  rw [Memory.length_read] at hi
  rw [Vector.getElem_toList, Memory.getElem_read] at hzero
  exact h i hi hzero

/-- The text in a region ends at the first zero byte. -/
theorem textOf_read {m : Memory} {p : Pointer} {n : Nat} {found : Option Nat}
    (h : IsFirst (ZeroAt m p) n found) :
    textOf (m.read p.address n).toList = (m.read p.address (found.getD n)).toList := by
  have hbelow : 0 ∉ (m.read p.address (found.getD n)).toList :=
    zero_notMem_read fun _ hi => h.not_of_lt_getD hi
  cases found with
  | none => exact textOf_of_notMem hbelow
  | some t =>
    obtain ⟨ht, hzero, _⟩ := h
    obtain ⟨k, rfl⟩ : ∃ k, n = t + (1 + k) := ⟨n - t - 1, by omega⟩
    have hend : (m.read (p.address + t) 1).toList = [0] := by
      rw [← hzero]
      rfl
    rw [Memory.toList_read_add, Memory.toList_read_add, hend]
    exact textOf_append_zero hbelow _

/-- What a copy of a string leaves, as a list: its first bytes and zeros behind them. -/
theorem getElem_paddedCopy {m : Memory} {p : Pointer} {copied zeros i : Nat}
    (h : i < ((m.read p.address copied).toList ++ List.replicate zeros 0).length) :
    ((m.read p.address copied).toList ++ List.replicate zeros 0)[i] = paddedCopy m p copied i := by
  rw [List.getElem_append, paddedCopy]
  simp only [Memory.length_read]
  split
  · simp
  · exact List.getElem_replicate _

theorem getElem?_overwrite {buffer bytes : List UInt8} {position : Nat}
    (hfits : position + bytes.length ≤ buffer.length) (i : Nat) :
    (overwrite buffer position bytes)[i]? =
      if position ≤ i ∧ i < position + bytes.length then bytes[i - position]? else buffer[i]? := by
  have hlength : (buffer.take position).length = position :=
    List.length_take_of_le (by omega)
  rw [overwrite, List.append_assoc, List.getElem?_append, hlength]
  split
  · rename_i hlow
    rw [if_neg (by omega), List.getElem?_take_of_lt hlow]
  · rename_i hhigh
    rw [List.getElem?_append]
    split
    · rename_i hin
      rw [if_pos (by omega)]
    · rename_i hout
      rw [if_neg (by omega), List.getElem?_drop]
      congr 1
      omega

namespace Slice

variable {m m' : Memory} {s dest : Slice} {n : Nat} {f : Nat → UInt8}

/-- The memory that a slice is a view of. -/
def region (s : Slice) : Region := ⟨s.start.address, s.length⟩

def bytes (s : Slice) (m : Memory) : List UInt8 := (m.read s.start.address s.length).toList

@[simp] theorem length_bytes (s : Slice) (m : Memory) : (s.bytes m).length = s.length :=
  m.length_read _ _

theorem bytes_take (s : Slice) (m : Memory) (n : Nat) :
    (s.take n).bytes m = (s.bytes m).take n := by
  refine List.ext_getElem (by simp [take]) fun i hi hi' => ?_
  simp [bytes, take]

theorem getElem?_bytes (s : Slice) (m : Memory) (i : Nat) :
    (s.bytes m)[i]? = if i < s.length then some (m.get (s.start.address + i)) else none := by
  split
  · rename_i hi
    rw [List.getElem?_eq_getElem (by rwa [length_bytes])]
    simp [bytes]
  · rename_i hi
    exact List.getElem?_eq_none (by rw [length_bytes]; omega)

/-- A slice holds the same bytes as long as none of them is written. -/
theorem bytes_congr (h : ∀ a ∈ s.region, m'.get a = m.get a) : s.bytes m' = s.bytes m := by
  refine List.ext_getElem (by simp) fun i hi _ => ?_
  rw [length_bytes] at hi
  simpa [bytes] using h _ (Region.add_mem hi)

theorem zero_notMem_bytes (h : IsFirst (ZeroAt m s.start) s.length none) : 0 ∉ s.bytes m :=
  zero_notMem_read h

theorem zero_mem_bytes {l : Nat} (h : IsFirst (ZeroAt m s.start) s.length (some l)) :
    0 ∈ s.bytes m := by
  refine List.mem_iff_getElem.mpr ⟨l, by rw [length_bytes]; exact h.1, ?_⟩
  have hzero := h.2.1
  simpa [bytes, ZeroAt] using hzero

/-- The text in a slice that a string stands in. -/
theorem textOf_bytes_of_string {l : Nat} (h : StringAt m s.start.address l) (hl : l < s.length) :
    textOf (s.bytes m) = (m.read s.start.address l).toList :=
  textOf_read (isFirst_zeroAt h hl)

theorem length_textOf_bytes {l : Nat} (h : IsFirst (ZeroAt m s.start) s.length (some l)) :
    (textOf (s.bytes m)).length = l := by
  rw [bytes, textOf_read h]
  exact Memory.length_read _ _ _

theorem take_min (s : Slice) (n : Nat) : s.take (min n s.length) = s.take n := by
  simp [take]

/-- The text among the first `n` bytes of a slice. -/
theorem textOf_take_bytes {found : Option Nat}
    (h : IsFirst (ZeroAt m s.start) (min n s.length) found) :
    textOf ((s.bytes m).take n) =
      (m.read s.start.address (found.getD (min n s.length))).toList := by
  rw [← bytes_take]
  exact textOf_read h

/-- **A region within a slice that is replaced overwrites a part of its bytes.** -/
theorem bytes_of_replaced {new : List UInt8} {position : Nat}
    (h : m.Replaced m' (dest.start.address + position) 0 new.length f)
    (hnew : ∀ i (hi : i < new.length), new[i] = f i) (hfits : position + new.length ≤ dest.length) :
    dest.bytes m' = overwrite (dest.bytes m) position new := by
  refine List.ext_getElem? fun i => ?_
  rw [getElem?_overwrite (by rwa [length_bytes])]
  by_cases hin : position ≤ i ∧ i < position + new.length
  · obtain ⟨j, rfl⟩ : ∃ j, i = position + j := ⟨i - position, by omega⟩
    have hj : j < new.length := by omega
    rw [if_pos hin, getElem?_bytes, if_pos (by omega), Nat.add_sub_cancel_left,
      List.getElem?_eq_getElem hj, hnew j hj, ← Nat.add_assoc, h.inside j (Nat.zero_le j) hj]
  · rw [if_neg hin, getElem?_bytes, getElem?_bytes, h.outside (dest.start.address + i) (by omega)]

end Slice

end ByteRoutines
