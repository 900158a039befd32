import ByteRoutines.Memory.Transfer

/-!
# Regions

`Replaced m m' a lo hi f` says that `m'` is `m` with the bytes at the offsets
from `lo` up to `hi` of the region at `a` replaced by those of `f`.
`Replaced.join` puts two such steps together: a loop over a region replaces
one interval after the other, and the intervals may overlap.

`replaced_writePieces` is the fact that gathering and scattering rest on: where
spans cover a region (`Covers`) and every piece holds the bytes of `f` at its
place (`Piece.Holds`), writing the pieces replaces the region by `f`, however
the pieces overlap.
-/

namespace ByteRoutines

/-- The spans stay within the first `n` offsets and leave none of them out. -/
structure Covers (spans : List Span) (n : Nat) : Prop where
  within : ∀ span ∈ spans, span.offset + span.length ≤ n
  reached : ∀ i < n, ∃ span ∈ spans, span.offset ≤ i ∧ i < span.offset + span.length

/-- The bytes of a piece are those of `f` at the offsets of its span. -/
def Piece.Holds (f : Nat → UInt8) (piece : Piece) : Prop :=
  ∀ i (h : i < piece.span.length), piece.bytes[i] = f (piece.span.offset + i)

namespace Memory

/-- `m'` is `m` with the bytes at the offsets from `lo` up to `hi` of the region at `a` replaced
by those of `f`. -/
structure Replaced (m m' : Memory) (a lo hi : Nat) (f : Nat → UInt8) : Prop where
  inside : ∀ i, lo ≤ i → i < hi → m'.get (a + i) = f i
  outside : ∀ b, b < a + lo ∨ a + hi ≤ b → m'.get b = m.get b

variable {m m' m'' : Memory} {a n lo hi : Nat} {f : Nat → UInt8}

theorem get_write_inside {bytes : Bytes n} {i : Nat} (h : i < n) :
    (m.write a bytes.toList).get (a + i) = bytes[i] := by
  have hlist : bytes.toList[i]? = some bytes[i] := by
    rw [List.getElem?_eq_getElem (by simpa using h), Vector.getElem_toList]
  rw [get_write, if_pos (by omega), Nat.add_sub_cancel_left, hlist]
  rfl

theorem get_write_outside {bytes : Bytes n} {b : Nat} (h : b < a ∨ a + n ≤ b) :
    (m.write a bytes.toList).get b = m.get b := by
  rw [get_write]
  by_cases hle : a ≤ b
  · rw [if_pos hle, List.getElem?_eq_none (by simp only [Vector.length_toList]; omega)]
    rfl
  · rw [if_neg hle]

theorem get_writePieces_outside {pieces : List Piece} {b : Nat}
    (h : ∀ piece ∈ pieces,
      b < a + piece.span.offset ∨ a + (piece.span.offset + piece.span.length) ≤ b) :
    (m.writePieces a pieces).get b = m.get b := by
  induction pieces generalizing m with
  | nil => rfl
  | cons piece rest ih =>
    have hpiece := h piece (by simp)
    rw [writePieces, ih (fun p hp => h p (by simp [hp])), get_write_outside (by omega)]

theorem get_writePieces_inside {pieces : List Piece} {i : Nat}
    (hholds : ∀ piece ∈ pieces, piece.Holds f)
    (h : ∃ piece ∈ pieces, piece.span.offset ≤ i ∧ i < piece.span.offset + piece.span.length) :
    (m.writePieces a pieces).get (a + i) = f i := by
  induction pieces generalizing m with
  | nil => simp at h
  | cons piece rest ih =>
    rw [writePieces]
    by_cases hrest : ∃ p ∈ rest, p.span.offset ≤ i ∧ i < p.span.offset + p.span.length
    · exact ih (fun p hp => hholds p (by simp [hp])) hrest
    · -- No later piece reaches `i`, so the first one does, and its byte stays.
      have hfirst : piece.span.offset ≤ i ∧ i < piece.span.offset + piece.span.length := by
        obtain ⟨p, hp, hi⟩ := h
        rcases List.mem_cons.mp hp with rfl | hp
        · exact hi
        · exact absurd ⟨p, hp, hi⟩ hrest
      obtain ⟨j, rfl⟩ : ∃ j, i = piece.span.offset + j := ⟨_, (Nat.add_sub_of_le hfirst.1).symm⟩
      have hj : j < piece.span.length := by omega
      rw [get_writePieces_outside, ← Nat.add_assoc, get_write_inside hj]
      · exact hholds piece (by simp) j hj
      · intro p hp
        by_cases hlt : a + (piece.span.offset + j) < a + p.span.offset
        · exact Or.inl hlt
        · refine Or.inr (Nat.not_lt.mp fun hgt => hrest ⟨p, hp, ?_⟩)
          omega

theorem replaced_writePieces {pieces : List Piece} (hcover : Covers (pieces.map Piece.span) n)
    (hholds : ∀ piece ∈ pieces, piece.Holds f) : Replaced m (m.writePieces a pieces) a 0 n f where
  inside i _ hi := by
    obtain ⟨span, hspan, hreach⟩ := hcover.reached i hi
    obtain ⟨piece, hpiece, rfl⟩ := List.mem_map.mp hspan
    exact get_writePieces_inside hholds ⟨piece, hpiece, hreach⟩
  outside b hb := by
    apply get_writePieces_outside
    intro piece hpiece
    have := hcover.within piece.span (List.mem_map_of_mem hpiece)
    omega

theorem replaced_write {bytes : Bytes n} (h : ∀ i (hi : i < n), bytes[i] = f i) :
    Replaced m (m.write a bytes.toList) a 0 n f where
  inside i _ hi := by rw [get_write_inside hi, h i hi]
  outside b hb := get_write_outside (by omega)

/-- An empty interval is replaced by doing nothing. -/
theorem replaced_empty (h : hi ≤ lo) : Replaced m m a lo hi f where
  inside i hlo hhi := by omega
  outside _ _ := rfl

theorem Replaced.congr {g : Nat → UInt8} (h : Replaced m m' a lo hi f)
    (hfg : ∀ i, lo ≤ i → i < hi → f i = g i) : Replaced m m' a lo hi g where
  inside i hlo hhi := by rw [h.inside i hlo hhi, hfg i hlo hhi]
  outside := h.outside

/-- The interval of a region that is itself a region, seen from the larger one. -/
theorem Replaced.of_part {off : Nat} (h : Replaced m m' (a + off) 0 n fun i => f (off + i)) :
    Replaced m m' a off (off + n) f where
  inside i hlo hhi := by
    obtain ⟨j, rfl⟩ : ∃ j, i = off + j := ⟨i - off, by omega⟩
    rw [← Nat.add_assoc]
    exact h.inside j (Nat.zero_le j) (by omega)
  outside b hb := h.outside b (by omega)

/-- **Two replacements by the same bytes make one**, over an interval that is the union of the
two. -/
theorem Replaced.join {lo' hi' lo'' hi'' : Nat} (h : Replaced m m' a lo hi f)
    (h' : Replaced m' m'' a lo' hi' f)
    (hjoin : ∀ i, (lo'' ≤ i ∧ i < hi'') ↔ (lo ≤ i ∧ i < hi) ∨ (lo' ≤ i ∧ i < hi')) :
    Replaced m m'' a lo'' hi'' f where
  inside i hlo hhi := by
    by_cases hlate : lo' ≤ i ∧ i < hi'
    · exact h'.inside i hlate.1 hlate.2
    · have hearly : lo ≤ i ∧ i < hi := ((hjoin i).mp ⟨hlo, hhi⟩).resolve_right hlate
      rw [h'.outside (a + i) (by omega)]
      exact h.inside i hearly.1 hearly.2
  outside b hb := by
    have hout := hjoin (b - a)
    rw [h'.outside b (by omega), h.outside b (by omega)]

/-- Two memories that result from the same replacement are the same. -/
theorem Replaced.get_eq (h : Replaced m m' a lo hi f) (h' : Replaced m m'' a lo hi f) (b : Nat) :
    m'.get b = m''.get b := by
  by_cases hb : b < a + lo ∨ a + hi ≤ b
  · rw [h.outside b hb, h'.outside b hb]
  · obtain ⟨i, rfl⟩ : ∃ i, b = a + i := ⟨b - a, by omega⟩
    rw [h.inside i (by omega) (by omega), h'.inside i (by omega) (by omega)]

/-! ### Pieces read from memory -/

theorem map_span_readPieces (m : Memory) (a : Nat) (spans : List Span) :
    (m.readPieces a spans).map Piece.span = spans := by
  rw [readPieces, List.map_map]
  exact List.map_id spans

theorem holds_readPieces {spans : List Span} (h : ∀ span ∈ spans, ∀ i < span.length,
      m.get (a + (span.offset + i)) = f (span.offset + i)) :
    ∀ piece ∈ m.readPieces a spans, piece.Holds f := by
  intro piece hpiece
  obtain ⟨span, hspan, rfl⟩ := List.mem_map.mp hpiece
  intro i hi
  have hget := h span hspan i hi
  rw [← Nat.add_assoc] at hget
  simpa using hget

end Memory

/-! ### Spans that cover a region -/

theorem mem_spansAt {length : Nat} {offsets : List Nat} {span : Span} :
    span ∈ spansAt length offsets ↔ ∃ o ∈ offsets, span = ⟨o, length⟩ := by
  simp only [spansAt, List.mem_map, eq_comm]

theorem covers_spansAt {length n : Nat} {offsets : List Nat}
    (hwithin : ∀ o ∈ offsets, o + length ≤ n)
    (hreached : ∀ i < n, ∃ o ∈ offsets, o ≤ i ∧ i < o + length) :
    Covers (spansAt length offsets) n where
  within span hspan := by
    obtain ⟨o, ho, rfl⟩ := mem_spansAt.mp hspan
    exact hwithin o ho
  reached i hi := by
    obtain ⟨o, ho, hreach⟩ := hreached i hi
    exact ⟨⟨o, length⟩, mem_spansAt.mpr ⟨o, ho, rfl⟩, hreach⟩

theorem covers_whole (n : Nat) : Covers [⟨0, n⟩] n where
  within span hspan := by
    rw [List.mem_singleton.mp hspan]
    exact Nat.le_of_eq (Nat.zero_add n)
  reached i hi := ⟨⟨0, n⟩, by simp, by simpa using hi⟩

theorem covers_cascade {n : Nat} (h : n < 64) : Covers (cascade n) n := by
  unfold cascade
  repeat' split
  case isFalse =>
    obtain rfl : n = 0 := by omega
    exact ⟨by simp, by simp⟩
  all_goals apply covers_spansAt <;> simp <;> omega

end ByteRoutines
