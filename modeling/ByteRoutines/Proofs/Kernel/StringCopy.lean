import ByteRoutines.Kernel.StringCopy
import ByteRoutines.Proofs.Memory.Footprint
import ByteRoutines.Proofs.Kernel.Fill
import ByteRoutines.Proofs.Kernel.Scan

/-!
# Copies of strings

A copy of at most `n` bytes of a string ends where a search for its terminator
does: if `found` is the first position below `n` of a zero byte, the bytes that
are read and stored are the first `searched n found`
(`ends_copyString`). `MayCopyString` says so much about a source, and that the
part of the destination that is written lies apart from the part of the source
that is read. So a store leaves the source as it is, and the condition holds
again for what is left of it (`MayCopyString.after`).

A register of the source may hold bytes behind the last one that counts, and
these may have been overwritten. No mask depends on them, since its lowest bit
is the terminator or lies before it.
-/

namespace ByteRoutines.Kernel

open Exec Memory

/-- The byte at position `i` of the string at `p` is zero. -/
def ZeroAt (m : Memory) (p : Pointer) (i : Nat) : Prop := m.get (p.address + i) = 0

instance (m : Memory) (p : Pointer) : DecidablePred (ZeroAt m p) :=
  fun i => inferInstanceAs (Decidable (m.get (p.address + i) = 0))

/-- At most `n` bytes of the source may be copied, of which `found` is the first zero. -/
structure MayCopyString (ok : Event → Prop) (m : Memory) (dst src : Pointer) (n : Nat)
    (found : Option Nat) : Prop where
  isFirst : IsFirst (ZeroAt m src) n found
  apart : Region.Apart ⟨dst.address, searched n found⟩ ⟨src.address, searched n found⟩
  load : ∀ i < searched n found, MayLoadPage ok (src + i)
  store : ∀ mode, MayStore ok mode dst (searched n found)

variable {ok : Event → Prop} {k : RegisterKind} {m m' : Memory} {dst src : Pointer}
  {n off lo hi i l limit : Nat} {found : Option Nat} {f : Nat → UInt8}

theorem isFirst_zeroAt (h : StringAt m src.address l) (hl : l < n) :
    IsFirst (ZeroAt m src) n (some l) :=
  ⟨hl, h.ends, h.inside⟩

/-- A search for the terminator does not go beyond it. -/
theorem searched_le_of_string (h : StringAt m src.address l)
    (hfirst : IsFirst (ZeroAt m src) n found) : searched n found ≤ l + 1 := by
  by_cases hl : l < n
  · rw [hfirst.unique (isFirst_zeroAt h hl)]
    exact Nat.le_refl _
  · exact Nat.le_trans hfirst.searched_le (by omega)

/-- How many bytes before the terminator are copied: those of the string, but at most `n`. -/
theorem getD_eq_min (h : StringAt m src.address l) (hfirst : IsFirst (ZeroAt m src) n found) :
    found.getD n = min l n := by
  by_cases hl : l < n
  · rw [hfirst.unique (isFirst_zeroAt h hl)]
    exact (Nat.min_eq_left (Nat.le_of_lt hl)).symm
  · have hnone : IsFirst (ZeroAt m src) n none := fun i hi => h.inside i (by omega)
    rw [hfirst.unique hnone]
    exact (Nat.min_eq_right (Nat.not_lt.mp hl)).symm

/-! ### What a store leaves of the source -/

theorem MayCopyString.get_source (may : MayCopyString ok m dst src n found)
    (hrep : m.Replaced m' dst.address lo hi f) (hhi : hi ≤ searched n found)
    (hi' : i < searched n found) : m'.get (src.address + i) = m.get (src.address + i) := by
  refine hrep.outside _ (Decidable.or_iff_not_not_and_not.mpr fun ⟨hlow, hhigh⟩ => ?_)
  exact may.apart _ (Region.mem_mk.mpr (by omega)) (Region.add_mem hi')

theorem MayCopyString.after (may : MayCopyString ok m dst src n found)
    (hrep : m.Replaced m' dst.address lo hi f) (hhi : hi ≤ searched n found) :
    MayCopyString ok m' dst src n found where
  isFirst := may.isFirst.congr_searched fun i hi' => by
    rw [ZeroAt, ZeroAt, may.get_source hrep hhi hi']
  apart := may.apart
  load := may.load
  store := may.store

theorem MayCopyString.isFirst_after (may : MayCopyString ok m dst src n found)
    (hrep : m.Replaced m' dst.address lo hi f) (hhi : hi ≤ searched n found)
    (hnone : IsFirst (ZeroAt m src) off none) (hoff : off ≤ searched n found) :
    IsFirst (ZeroAt m' src) off none :=
  hnone.congr fun i hi' => by rw [ZeroAt, ZeroAt, may.get_source hrep hhi (by omega)]

/-! ### Registers of the source -/

/-- Bytes of the source that were stored at their place in the destination. -/
theorem replaced_of_source
    (hrep : m.Replaced m' (dst + off).address 0 limit fun i => m.get ((src + off).address + i)) :
    m.Replaced m' dst.address off (off + limit) fun i => m.get (src.address + i) := by
  simp only [Pointer.address_add, Nat.add_assoc] at hrep
  exact Replaced.of_part (f := fun i => m.get (src.address + i)) hrep

/-- The first zero in a register, where there is none before it. -/
theorem isFirst_zeroMask {v : Register k} (hlimit : limit ≤ k.width)
    (hv : Shows (fun i => m.get ((src + off).address + i)) limit v)
    (hnone : IsFirst (ZeroAt m src) off none) :
    IsFirst (ZeroAt m src) (off + limit)
      ((Mask.firstSet? (k.zeroMask v &&& Mask.low limit)).map (off + ·)) := by
  refine hnone.append (((k.marks_zeroMask v).low hlimit).isFirst.congr fun i hi => ?_)
  rw [hv i hi]
  simp only [ZeroAt, Pointer.address_add, Nat.add_assoc]

/-- The first `limit` bytes of a register are stored, up to the last byte that counts at most. -/
theorem MayCopyString.ends_storePrefix {v : Register k} (may : MayCopyString ok m dst src n found)
    (hpos : 0 < limit) (hlimit : limit ≤ k.width) (hoff : off + limit ≤ searched n found)
    (hv : Shows (fun i => m.get ((src + off).address + i)) limit v) :
    Ends ok (k.storePrefix (dst + off) v limit) m fun _ m' =>
      m.Replaced m' dst.address off (off + limit) fun i => m.get (src.address + i) :=
  (RegisterKind.ends_storePrefix hpos hlimit hv fun mode => (may.store mode).part hoff).mono
    fun _ _ hrep => replaced_of_source hrep

theorem MayCopyString.ends_store {v : Register k} (may : MayCopyString ok m dst src n found)
    (hoff : off + k.width ≤ searched n found)
    (hv : Shows (fun i => m.get ((src + off).address + i)) k.width v) :
    Ends ok (k.store (dst + off) v) m fun _ m' =>
      m.Replaced m' dst.address off (off + k.width) fun i => m.get (src.address + i) :=
  (RegisterKind.ends_store hv ((may.store .plain).part hoff)).mono
    fun _ _ hrep => replaced_of_source hrep

/-- The terminator is in the register, and is the last byte that is stored of it. -/
theorem MayCopyString.ends_last {v : Register k} (may : MayCopyString ok m dst src n found)
    (hfirst : IsFirst (ZeroAt m src) (off + limit) (some (off + i))) (hle : off + limit ≤ n)
    (hlimit : limit ≤ k.width)
    (hv : Shows (fun i => m.get ((src + off).address + i)) limit v) :
    Ends ok (k.storePrefix (dst + off) v (i + 1)) m fun _ m' => found = some (off + i) ∧
      m.Replaced m' dst.address off (searched n found) fun i => m.get (src.address + i) := by
  have hi := hfirst.1
  obtain rfl := may.isFirst.unique (hfirst.of_some (Nat.lt_of_lt_of_le hi hle))
  exact (may.ends_storePrefix (Nat.succ_pos i) (by omega) (Nat.le_refl _)
    (hv.take (by omega))).mono fun _ m' hrep => ⟨rfl, hrep⟩

/-- What is copied behind `mid`, or from a position before it, completes what was copied below. -/
theorem MayCopyString.join {m₁ m₂ : Memory} {mid : Nat} (may : MayCopyString ok m dst src n found)
    (hrep : m.Replaced m₁ dst.address lo mid fun i => m.get (src.address + i))
    (hmid : mid ≤ searched n found)
    (hrest : m₁.Replaced m₂ dst.address off (searched n found) fun i => m₁.get (src.address + i))
    (hlo : lo ≤ off) (hoff : off ≤ mid) :
    m.Replaced m₂ dst.address lo (searched n found) fun i => m.get (src.address + i) := by
  have hlater := hrest.congr fun i _ hi => may.get_source hrep hmid hi
  exact hrep.join hlater fun i => by omega

/-- The loop over aligned registers, after no zero was found below `off`. -/
theorem ends_copyStringFrom (halign : (src.address + off) % k.width = 0) (hoff : off < n)
    (hnone : IsFirst (ZeroAt m src) off none) (may : MayCopyString ok m dst src n found) :
    Ends ok (copyStringFrom k dst src n off) m fun copied m' => copied = found.getD n ∧
      m.Replaced m' dst.address off (searched n found) fun i => m.get (src.address + i) := by
  induction hleft : n - off using Nat.strongRecOn generalizing m off with
  | ind left ih =>
    have hpos := k.width_pos
    have hreach := may.isFirst.lt_searched hnone hoff
    rw [copyStringFrom]
    refine (RegisterKind.answers_loadAligned halign (may.load off hreach)).bind fun v hv => ?_
    have hfirst := isFirst_zeroMask (Nat.min_le_left k.width (n - off))
      (hv.take (Nat.min_le_left _ _)) hnone
    dsimp only
    cases hset : Mask.firstSet? (k.zeroMask v &&& Mask.low (min k.width (n - off))) with
    | some i =>
      rw [hset, Option.map_some] at hfirst
      refine (may.ends_last hfirst (by omega) (Nat.min_le_left _ _)
        (hv.take (Nat.min_le_left _ _))).bind ?_
      rintro _ m₁ ⟨rfl, hrep⟩
      exact ends_pure ⟨rfl, hrep⟩
    | none =>
      rw [hset, Option.map_none] at hfirst
      dsimp only
      split
      · rename_i hlast
        have hend : off + (n - off) = n := by omega
        rw [Nat.min_eq_right hlast, hend] at hfirst
        obtain rfl := may.isFirst.unique hfirst
        refine (may.ends_storePrefix (by omega) hlast (Nat.le_of_eq hend)
          (hv.take hlast)).bind fun _ m₁ hrep => ?_
        rw [hend] at hrep
        exact ends_pure ⟨rfl, hrep⟩
      · rename_i hmore
        rw [Nat.min_eq_left (by omega)] at hfirst
        have hwhole := may.isFirst.le_searched hfirst (by omega)
        refine (may.ends_store hwhole hv).bind fun _ m₁ hrep => ?_
        refine (ih _ (by omega) ?_ (by omega) (may.isFirst_after hrep hwhole hfirst hwhole)
          (may.after hrep hwhole) rfl).mono ?_
        · rw [← Nat.add_assoc]
          exact k.add_width_mod halign
        · rintro copied m₂ ⟨hcopied, hrest⟩
          exact ⟨hcopied, may.join hrep hwhole hrest (by omega) (Nat.le_refl _)⟩

/-- **A bounded copy of a string stores it up to its terminator**, or the first `n` bytes. -/
theorem ends_copyString (may : MayCopyString ok m dst src n found) :
    Ends ok (copyString k dst src n) m fun copied m' => copied = found.getD n ∧
      m.Replaced m' dst.address 0 (searched n found) fun i => m.get (src.address + i) := by
  unfold copyString
  split
  · rename_i hzero
    subst hzero
    obtain rfl := may.isFirst.unique IsFirst.zero
    exact ends_pure ⟨rfl, replaced_empty (Nat.le_refl 0)⟩
  · rename_i hn
    have hreach := may.isFirst.lt_searched IsFirst.zero (Nat.pos_of_ne_zero hn)
    have hpage : MayLoadPage ok src := may.load 0 hreach
    refine (RegisterKind.answers_loadHead hpage).bind ?_
    rintro ⟨v, valid⟩ ⟨hlow, hhigh, hv⟩
    have hboundary := k.toBoundary_pos src.address
    dsimp only at hlow hhigh hv ⊢
    have hv' : Shows (fun i => m.get ((src + 0).address + i)) (min valid n) v :=
      hv.take (Nat.min_le_left _ _)
    have hfirst := isFirst_zeroMask (by omega) hv' IsFirst.zero
    cases hset : Mask.firstSet? (k.zeroMask v &&& Mask.low (min valid n)) with
    | some i =>
      rw [hset, Option.map_some] at hfirst
      refine (may.ends_last hfirst (by omega) (by omega) hv').bind ?_
      rintro _ m₁ ⟨rfl, hrep⟩
      exact ends_pure ⟨(Nat.zero_add i).symm, hrep⟩
    | none =>
      simp only [hset, Option.map_none, Nat.zero_add] at hfirst
      have hlimit := may.isFirst.le_searched hfirst (Nat.min_le_right valid n)
      refine (may.ends_storePrefix (by omega) (by omega) (by omega) hv').bind
        fun _ m₁ hrep => ?_
      rw [Nat.zero_add] at hrep
      split
      · rename_i hle
        rw [Nat.min_eq_right hle] at hfirst hrep
        obtain rfl := may.isFirst.unique hfirst
        exact ends_pure ⟨rfl, hrep⟩
      · rename_i hmore
        rw [Nat.min_eq_left (by omega)] at hfirst hrep hlimit
        have hnone := may.isFirst_after hrep hlimit (hfirst.take hlow) (by omega)
        refine (ends_copyStringFrom (k.add_toBoundary_mod src.address) (by omega) hnone
          (may.after hrep hlimit)).mono ?_
        -- The bytes from the boundary up to `valid` are stored twice.
        rintro copied m₂ ⟨hcopied, hrest⟩
        exact ⟨hcopied, may.join hrep hlimit hrest (Nat.zero_le _) hlow⟩

/-! ### The routines -/

theorem ends_strcpy (may : MayCopyString ok m dst src maxLength found) :
    Ends ok (strcpy k dst src) m fun p m' => p = dst ∧
      m.Replaced m' dst.address 0 (searched maxLength found) fun i => m.get (src.address + i) := by
  unfold strcpy
  refine (ends_copyString may).bind fun copied m₁ ⟨_, hrep⟩ => ?_
  exact ends_pure ⟨rfl, hrep⟩

/-- What a bounded copy leaves, with zeros from the end of the string on. -/
def paddedCopy (m : Memory) (src : Pointer) (copied i : Nat) : UInt8 :=
  if i < copied then m.get (src.address + i) else 0

theorem eq_paddedCopy (hfirst : IsFirst (ZeroAt m src) n found) (hi : i < searched n found) :
    m.get (src.address + i) = paddedCopy m src (found.getD n) i := by
  unfold paddedCopy
  split
  · rfl
  · rename_i hge
    cases found with
    | none => exact absurd hi hge
    | some t =>
      obtain rfl : i = t := Nat.le_antisymm (Nat.le_of_lt_succ hi) (Nat.not_lt.mp hge)
      exact hfirst.2.1

/-- A copy of a string is completed by zeros from its terminator on. -/
theorem replaced_paddedCopy {m₁ m₂ : Memory} {length : Nat}
    (hfirst : IsFirst (ZeroAt m src) n found)
    (hcopy : m.Replaced m₁ dst.address 0 (searched n found) fun i => m.get (src.address + i))
    (hzeros : m₁.Replaced m₂ (dst + found.getD n).address 0 length fun _ => 0)
    (hlength : searched n found ≤ found.getD n + length) :
    m.Replaced m₂ dst.address 0 (found.getD n + length) (paddedCopy m src (found.getD n)) := by
  have hle := IsFirst.getD_le_searched n found
  have hlow := hcopy.congr fun i _ hi => eq_paddedCopy hfirst hi
  have hpart : m₁.Replaced m₂ dst.address (found.getD n) (found.getD n + length) fun _ => 0 :=
    Replaced.of_part (f := fun _ => 0) hzeros
  have hhigh : m₁.Replaced m₂ dst.address (found.getD n) (found.getD n + length)
      (paddedCopy m src (found.getD n)) :=
    hpart.congr fun i hi _ => (if_neg (Nat.not_lt.mpr hi)).symm
  exact hlow.join hhigh fun i => by omega

theorem ends_strncpy {policy : LoopPolicy} (may : MayCopyString ok m dst src n found)
    (mayFill : MayFill ok dst n) :
    Ends ok (strncpy k policy dst src n) m fun p m' => p = dst ∧
      m.Replaced m' dst.address 0 n (paddedCopy m src (found.getD n)) := by
  have hsearched := may.isFirst.searched_le
  unfold strncpy
  refine (ends_copyString may).bind ?_
  rintro copied m₁ ⟨rfl, hrep⟩
  dsimp only
  split
  · rename_i hshort
    have hlength : found.getD n + (n - found.getD n) = n := by omega
    refine (ends_memset (mayFill.part (Nat.le_of_eq hlength))).bind fun _ m₂ ⟨_, hzeros⟩ => ?_
    have hall := replaced_paddedCopy may.isFirst hrep hzeros (by omega)
    rw [hlength] at hall
    exact ends_pure ⟨rfl, hall⟩
  · rename_i hlong
    have hall := hrep.congr fun i _ hi => eq_paddedCopy may.isFirst hi
    have hle := IsFirst.getD_le_searched n found
    rw [Nat.le_antisymm hsearched (by omega : n ≤ searched n found)] at hall
    exact ends_pure ⟨rfl, hall⟩

theorem ends_strcat (hdst : StringAt m dst.address l) (mayScan : MayScan ok m .terminator dst)
    (may : MayCopyString ok m (dst + l) src maxLength found) :
    Ends ok (strcat k dst src) m fun p m' => p = dst ∧
      m.Replaced m' (dst + l).address 0 (searched maxLength found)
        fun i => m.get (src.address + i) := by
  unfold strcat
  refine (answers_strlen hdst mayScan).bind ?_
  rintro length rfl
  refine (ends_copyString may).bind fun copied m₁ ⟨_, hrep⟩ => ?_
  exact ends_pure ⟨rfl, hrep⟩

theorem ends_strncat (hdst : StringAt m dst.address l) (mayScan : MayScan ok m .terminator dst)
    (may : MayCopyString ok m (dst + l) src n found)
    (hstore : ok (.store .plain (dst + l + found.getD n) 1)) :
    Ends ok (strncat k dst src n) m fun p m' => p = dst ∧
      m.Replaced m' (dst + l).address 0 (found.getD n + 1)
        (paddedCopy m src (found.getD n)) := by
  unfold strncat
  refine (answers_strlen hdst mayScan).bind ?_
  rintro length rfl
  refine (ends_copyString may).bind ?_
  rintro copied m₁ ⟨rfl, hrep⟩
  refine (ends_storeByte hstore).bind fun _ m₂ hzero => ends_pure ⟨rfl, ?_⟩
  exact replaced_paddedCopy may.isFirst hrep hzero (IsFirst.searched_le_succ_getD n found)

end ByteRoutines.Kernel
