import ByteRoutines.Slice.Write
import ByteRoutines.Proofs.Slice.Checked
import ByteRoutines.Proofs.Slice.Contract
import ByteRoutines.Proofs.Slice.Plan

/-!
# Writing to slices

Each wrapper that writes carries out its plan (`Plan.Follows`), over any table
that serves the buffer and the source: one lemma for each of the six, by the
steps of its definition.

The two that append share their first and their last steps, to look for the
end of the text in the buffer (`concludes_atEnd`) and to put another one there
if there is room (`concludes_place`).
-/

namespace ByteRoutines

open Exec Kernel

variable {table : RoutineTable} {dest src s : Slice} {m m' : Memory} {n : Nat}

/-! ### Plans that are carried out -/

/-- The outcome and the memory that a plan for the buffer `dest` leads to. -/
def Plan.Follows (plan : Plan) (dest : Slice) (m : Memory) (outcome : Except Refusal Nat)
    (m' : Memory) : Prop :=
  match plan with
  | .error refusal => outcome = .error refusal ∧ m' = m
  | .ok edit => outcome = .ok edit.answer ∧
      dest.bytes m' = overwrite (dest.bytes m) edit.position edit.bytes ∧
      ∀ a ∉ dest.region, m'.get a = m.get a

/-- Where a part of the buffer is replaced, nothing outside the buffer changes. -/
theorem get_eq_of_replaced {a : Nat} {f : Nat → UInt8} (position : Nat)
    (h : m.Replaced m' (dest.start.address + position) 0 n f) (hfits : position + n ≤ dest.length)
    (ha : a ∉ dest.region) : m'.get a = m.get a := by
  have hout : ¬ (dest.start.address ≤ a ∧ a < dest.start.address + dest.length) := ha
  exact h.outside a (by omega)

/-- A part of the buffer that is replaced carries out an edit. -/
theorem follows_of_replaced {bytes : List UInt8} {position answer : Nat} {f : Nat → UInt8}
    (h : m.Replaced m' (dest.start.address + position) 0 n f) (hlength : bytes.length = n)
    (hbytes : ∀ i (hi : i < bytes.length), bytes[i] = f i) (hfits : position + n ≤ dest.length) :
    Plan.Follows (.ok ⟨position, bytes, answer⟩) dest m (.ok answer) m' := by
  subst hlength
  exact ⟨rfl, Slice.bytes_of_replaced h hbytes hfits, fun _ => get_eq_of_replaced position h hfits⟩

/-- The same for a text and zeros behind it. -/
theorem follows_of_padded {p : Pointer} {copied answer : Nat} (position zeros : Nat)
    (h : m.Replaced m' (dest.start.address + position) 0 n (paddedCopy m p copied))
    (hlength : copied + zeros = n) (hfits : position + n ≤ dest.length) :
    Plan.Follows (.ok ⟨position, (m.read p.address copied).toList ++ List.replicate zeros 0,
      answer⟩) dest m (.ok answer) m' := by
  refine follows_of_replaced h ?_ (fun i hi => getElem_paddedCopy hi) hfits
  rw [List.length_append, Memory.length_read, List.length_replicate, hlength]

namespace Slice

theorem inside_region (s : Slice) : Region.Inside ⟨s.start.address, s.length⟩ s.region :=
  ⟨Nat.le_refl _, Nat.le_refl _⟩

theorem inside_part (s : Slice) {off n : Nat} (h : off + n ≤ s.length) :
    Region.Inside ⟨(s.start + off).address, n⟩ s.region := by
  rw [Region.inside_mk, Pointer.address_add]
  simp only [region]
  omega

theorem inside_take (s : Slice) (n : Nat) : (s.take n).region.Inside s.region :=
  s.inside_region.take (Nat.min_le_right n s.length)

/-- What a slice promises: it does not run past the last address, and it is at most half as long as
the address space. -/
structure Fits (s : Slice) : Prop where
  inSpace : s.start.address + s.length ≤ addressSpace
  length_le : s.length ≤ 0x7FFFFFFFFFFFFFFF

/-! ### What the wrappers find out first -/

theorem lowByte_toInt32 (byte : UInt8) : lowByte byte.toUInt32.toInt32 = byte := by
  simp [lowByte]

/-- What was found at a position from `start` lies that far from it. -/
theorem answers_indexFrom {ok : Event → Prop} {p : Nat → Prop} {n : Nat} {start : Pointer}
    {found : Option Nat} (h : IsFirst p n found) :
    Answers ok (indexFrom start (found.map (start + ·))) m (IsFirst p n) := by
  cases found with
  | none => exact answers_pure h
  | some i =>
    refine (runs_subSize (Nat.le_add_right _ _)).bind ?_
    rw [Nat.add_sub_cancel_left]
    exact answers_pure h

theorem answers_memchr {byte : UInt8} (hserves : table.Serves dest.region src.region)
    (hs : s.region.Inside dest.region ∨ s.region.Inside src.region) :
    Answers (fun _ => True) (memchr table s byte) m
      (IsFirst (fun i => m.get (s.start.address + i) = byte) s.length) := by
  unfold memchr RoutineTable.findIn
  rw [lowByte_toInt32]
  refine (hserves.memchr m s.start byte s.length hs).bind ?_
  rintro _ ⟨found, hfirst, rfl⟩
  exact answers_indexFrom hfirst

theorem answers_stringLength {found : Option Nat} (hserves : table.Serves dest.region src.region)
    (hs : s.region.Inside dest.region ∨ s.region.Inside src.region)
    (h : IsFirst (ZeroAt m s.start) s.length found) :
    Answers (fun _ => True) (stringLength table s) m
      fun length => length = found.getD s.length := by
  refine (answers_memchr hserves hs).bind fun found' hfirst => answers_pure ?_
  rw [h.unique hfirst]

/-- A slice that holds a zero holds a string. -/
theorem stringAt_of_found {l : Nat} (hfits : s.Fits)
    (h : IsFirst (ZeroAt m s.start) s.length (some l)) : StringAt m s.start.address l := by
  have hlt := h.1
  have hend := hfits.inSpace
  exact ⟨by omega, h.2.1, h.2.2⟩

/-- Two slices together are shorter than the address space. -/
theorem Fits.room {a b : Nat} (h : s.Fits) (ha : a < s.length) (h' : src.Fits)
    (hb : b ≤ src.length) : a + b + 1 < addressSpace := by
  have hlength := h.length_le
  have hlength' := h'.length_le
  simp only [addressSpace]
  omega

/-- The room that is asked for is that of a text with its terminator. -/
theorem concludes_requireRoom {op : Operation} {length added : Nat}
    (hfits : length + added + 1 < addressSpace) :
    Concludes (requireRoom op dest length added) m fun outcome m' => m' = m ∧
      outcome = if dest.length < length + added + 1 then
        .error (.tooShort op dest.length (length + added + 1)) else .ok (length + added) := by
  unfold requireRoom
  refine concludes_bind (runs_addSize (by omega)) ?_
  rintro _ _ ⟨rfl, rfl⟩
  split
  · rename_i hshort
    refine concludes_bind (runs_addSize hfits) ?_
    rintro _ _ ⟨rfl, rfl⟩
    refine concludes_throw_bind ⟨rfl, ?_⟩
    rw [if_pos (by omega)]
  · rename_i hroom
    refine concludes_pure ⟨rfl, ?_⟩
    rw [if_neg (by omega)]

/-! ### The wrappers -/

theorem concludes_memcpy (hserves : table.Serves dest.region src.region) :
    Concludes (memcpy table dest src) m
      ((Plan.memcpy (dest.bytes m) (src.bytes m)).Follows dest m) := by
  unfold memcpy Plan.memcpy
  simp only [length_bytes]
  split
  · exact concludes_throw_bind ⟨rfl, rfl⟩
  · rename_i hroom
    have hdest : Region.Inside ⟨dest.start.address, src.length⟩ dest.region :=
      dest.inside_region.take (by omega)
    refine concludes_bind (hserves.memcpy m _ _ _ hdest src.inside_region) fun _ m' hrep => ?_
    refine concludes_pure (follows_of_replaced hrep (length_bytes src m) ?_ (by omega))
    intro i hi
    simp [bytes]

theorem concludes_memmove {start stop position : Nat}
    (hserves : table.Serves dest.region src.region) :
    Concludes (memmove table dest start stop position) m
      ((Plan.memmove (dest.bytes m) start stop position).Follows dest m) := by
  unfold memmove Plan.memmove
  simp only [length_bytes]
  by_cases hrange : start ≤ stop ∧ stop ≤ dest.length
  · rw [if_neg (not_not_intro hrange), if_neg (by omega)]
    refine concludes_bind (runs_subSize hrange.1) ?_
    rintro _ _ ⟨rfl, rfl⟩
    refine concludes_bind (runs_subSize (by omega)) ?_
    rintro _ _ ⟨rfl, rfl⟩
    split
    · rename_i hshort
      rw [if_pos (by omega)]
      exact concludes_throw_bind ⟨rfl, rfl⟩
    · rename_i hroom
      rw [if_neg (by omega)]
      refine concludes_bind (hserves.memmove _ _ _ _ (dest.inside_part (by omega))
        (dest.inside_part (by omega))) fun _ m' hrep => ?_
      refine concludes_pure (follows_of_replaced hrep ?_ ?_ (by omega))
      · simp only [List.extract_eq_take_drop, List.length_take, List.length_drop, length_bytes]
        omega
      · intro i hi
        simp [bytes, List.extract_eq_take_drop, Nat.add_assoc]
  · rw [if_pos hrange, if_pos (by omega)]
    exact concludes_throw_bind ⟨rfl, rfl⟩

theorem concludes_strcpy {l : Nat} (hserves : table.Serves dest.region src.region)
    (hsrc : src.Fits) (hstring : StringAt m src.start.address l) (hl : l < src.length) :
    Concludes (strcpy table dest src.start) m
      ((Plan.strcpy (dest.bytes m) (src.bytes m)).Follows dest m) := by
  have hin : Region.Inside ⟨src.start.address, l + 1⟩ src.region := src.inside_region.take hl
  have hneed : l + 1 < addressSpace := by
    have hlength := hsrc.length_le
    simp only [addressSpace]
    omega
  unfold strcpy Plan.strcpy placeText
  rw [textOf_bytes_of_string hstring hl]
  simp only [length_bytes, Memory.length_read, Nat.zero_add]
  refine concludes_bind (hserves.strlen m _ l hstring hin) ?_
  rintro length _ ⟨rfl, heq⟩
  rw [heq]
  split
  · rename_i hshort
    rw [if_pos (by omega)]
    refine concludes_bind (runs_addSize hneed) ?_
    rintro _ _ ⟨rfl, rfl⟩
    exact concludes_throw_bind ⟨rfl, rfl⟩
  · rename_i hroom
    rw [if_neg (by omega)]
    have hdest : Region.Inside ⟨dest.start.address, l + 1⟩ dest.region :=
      dest.inside_region.take (by omega)
    refine concludes_bind (hserves.strcpy _ _ _ l hstring hdest hin) fun _ m' hrep => ?_
    exact concludes_pure (follows_of_padded 0 1 hrep rfl (by omega))

/-- What follows a copy that is completed by zeros from `bound` up to `n`. -/
theorem concludes_completed {bound : Nat} {f : Nat → UInt8} {y : Checked Nat} {m₁ : Memory}
    {post : Except Refusal Nat → Memory → Prop} (hserves : table.Serves dest.region src.region)
    (hcopy : m.Replaced m₁ dest.start.address 0 bound f) (hle : bound ≤ n)
    (hzeros : ∀ i, bound ≤ i → f i = 0) (hroom : n ≤ dest.length)
    (hy : ∀ m₂, m.Replaced m₂ dest.start.address 0 n f → Concludes y m₂ post) :
    Concludes (if bound < n then do
      let rest ← subSize n bound
      let _ ← table.fillWith (dest.start + bound) 0 rest
      y
    else y) m₁ post := by
  split
  · refine concludes_bind (runs_subSize hle) ?_
    rintro _ _ ⟨rfl, rfl⟩
    have hin : Region.Inside ⟨(dest.start + bound).address, n - bound⟩ dest.region :=
      dest.inside_part (by omega)
    refine concludes_bind (hserves.memset _ _ _ _ hin) fun _ m₂ hfill => hy m₂ ?_
    have hrest : Memory.Replaced _ m₂ dest.start.address bound (bound + (n - bound)) fun _ => 0 :=
      Memory.Replaced.of_part hfill
    exact hcopy.join (hrest.congr fun i hi _ => (hzeros i hi).symm) fun i => by omega
  · rename_i hall
    rw [Nat.le_antisymm hle (Nat.not_lt.mp hall)] at hcopy
    exact hy m₁ hcopy

/-- The copy of a text is completed by zeros up to `n`, and its length is answered. -/
theorem concludes_strncpy (hserves : table.Serves dest.region src.region)
    (hapart : Region.Apart dest.region src.region) :
    Concludes (strncpy table dest src n) m
      ((Plan.strncpy (dest.bytes m) (src.bytes m) n).Follows dest m) := by
  obtain ⟨found, hfirst⟩ := IsFirst.exists_found (ZeroAt m src.start) (min n src.length)
  have hpart := src.inside_take n
  unfold strncpy Plan.strncpy
  simp only [length_bytes, textOf_take_bytes hfirst, Memory.length_read, take_min]
  split
  · exact concludes_throw_bind ⟨rfl, rfl⟩
  · rename_i hroom
    have hdest : Region.Inside ⟨dest.start.address, min n src.length⟩ dest.region :=
      dest.inside_region.take (by omega)
    refine concludes_bind (hserves.strncpy m _ _ _ found hfirst hdest hpart) fun _ m₁ hrep => ?_
    have hcopied := hfirst.getD_le
    refine concludes_completed hserves hrep (Nat.min_le_left _ _)
      (fun i hi => if_neg (by omega)) (by omega) fun m₂ hall => ?_
    -- The length is found out after the copy, which has left the source as it was.
    have hkept : IsFirst (ZeroAt m₂ src.start) (min n src.length) found := by
      refine hfirst.congr fun i hi => ?_
      have hmem : src.start.address + i ∈ src.region := Region.add_mem (by omega)
      have hout : src.start.address + i ∉ dest.region := fun hin => hapart _ hin hmem
      rw [ZeroAt, ZeroAt, get_eq_of_replaced 0 hall (by omega) hout]
    refine concludes_lift (Ends.mono (answers_stringLength hserves (Or.inr hpart) hkept) ?_)
    rintro length _ ⟨rfl, rfl⟩
    exact follows_of_padded 0 _ hall (by omega) (by omega)

/-- **What is put where a text ends**, within the room that is asked for. -/
theorem concludes_place {op : Operation} {length copied : Nat} {p : Pointer} {x : Exec Pointer}
    (hneed : length + copied + 1 < addressSpace)
    (hx : length + copied + 1 ≤ dest.length → Ends (fun _ => True) x m fun _ m' =>
      m.Replaced m' (dest.start.address + length) 0 (copied + 1) (paddedCopy m p copied)) :
    Concludes (do
      let total ← requireRoom op dest length copied
      let _ ← x
      return total) m
      ((placeText op (dest.bytes m) (m.read p.address copied).toList length).Follows dest m) := by
  unfold placeText
  simp only [length_bytes, Memory.length_read]
  refine (concludes_requireRoom hneed).bind ?_ ?_
  · rintro total _ ⟨rfl, htotal⟩
    split at htotal
    · cases htotal
    · rename_i hroom
      cases htotal
      rw [if_neg hroom]
      have hroom := Nat.not_lt.mp hroom
      refine concludes_bind (hx hroom) fun _ m' hrep => ?_
      exact concludes_pure (follows_of_padded length 1 hrep rfl hroom)
  · rintro refusal _ ⟨rfl, hrefusal⟩
    split at hrefusal
    · rename_i hshort
      cases hrefusal
      rw [if_pos hshort]
      exact ⟨rfl, rfl⟩
    · cases hrefusal

/-- What is done at the end of the text in the buffer, if there is one. -/
theorem concludes_atEnd {op : Operation} {text : List UInt8} {y : Nat → Checked Nat}
    (hserves : table.Serves dest.region src.region)
    (hy : ∀ length, IsFirst (ZeroAt m dest.start) dest.length (some length) →
      Concludes (y length) m ((placeText op (dest.bytes m) text length).Follows dest m)) :
    Concludes (do
      match ← memchr table dest 0 with
      | none => throw (.unterminated op)
      | some length => y length) m
      ((appendText op (dest.bytes m) text).Follows dest m) := by
  unfold appendText
  refine concludes_bind (answers_memchr hserves (Or.inl dest.inside_region)) ?_
  rintro found _ ⟨rfl, hfirst⟩
  cases found with
  | none =>
    rw [if_neg (zero_notMem_bytes hfirst)]
    exact concludes_throw ⟨rfl, rfl⟩
  | some length =>
    rw [if_pos (zero_mem_bytes hfirst), length_textOf_bytes hfirst]
    exact hy length hfirst

theorem concludes_strcat {l : Nat} (hserves : table.Serves dest.region src.region)
    (hdest : dest.Fits) (hsrc : src.Fits) (hstring : StringAt m src.start.address l)
    (hl : l < src.length) :
    Concludes (strcat table dest src.start) m
      ((Plan.strcat (dest.bytes m) (src.bytes m)).Follows dest m) := by
  have hin : Region.Inside ⟨src.start.address, l + 1⟩ src.region := src.inside_region.take hl
  unfold strcat Plan.strcat
  rw [textOf_bytes_of_string hstring hl]
  refine concludes_atEnd hserves fun length hfirst => ?_
  refine concludes_bind (hserves.strlen _ _ l hstring hin) ?_
  rintro _ _ ⟨rfl, rfl⟩
  refine concludes_place (hdest.room hfirst.1 hsrc (Nat.le_of_lt hl)) fun hroom => ?_
  exact hserves.strcat _ _ _ length _ (stringAt_of_found hdest hfirst) hstring
    (dest.inside_region.take hroom) hin

theorem concludes_strncat (hserves : table.Serves dest.region src.region)
    (hdest : dest.Fits) (hsrc : src.Fits) :
    Concludes (strncat table dest src n) m
      ((Plan.strncat (dest.bytes m) (src.bytes m) n).Follows dest m) := by
  obtain ⟨found, hfound⟩ := IsFirst.exists_found (ZeroAt m src.start) (min n src.length)
  have hpart := src.inside_take n
  have hadded : found.getD (min n src.length) ≤ src.length :=
    Nat.le_trans hfound.getD_le (Nat.min_le_right _ _)
  unfold strncat Plan.strncat
  rw [textOf_take_bytes hfound]
  refine concludes_atEnd hserves fun length hfirst => ?_
  dsimp only
  rw [take_min]
  refine concludes_bind (answers_stringLength hserves (Or.inr hpart) hfound) ?_
  rintro _ _ ⟨rfl, rfl⟩
  refine concludes_place (hdest.room hfirst.1 hsrc hadded) fun hroom => ?_
  exact hserves.strncat _ _ _ _ length _ (stringAt_of_found hdest hfirst) hfound
    (dest.inside_region.take hroom) hpart

end Slice

end ByteRoutines
