import ByteRoutines.Proofs.Routine.Find

/-!
# Comparing and searching regions

Comparing two regions of `n` bytes orders them as lists of unsigned bytes: the
first position at which they differ decides (`memcmp_compares`). The search of
a region points at the first place of a byte (`memchr_finds`).

Both load registers that reach beyond the region, and bytes that the registers
share; neither is seen in the answer. The order of the regions is stated of
their contents as they are read, and `read_lt_read_iff` is what connects it to
the first difference.
-/

namespace ByteRoutines

open Exec Kernel

variable {ok : Event → Prop} {m m' : Memory} {s : Machine} {a b p : Pointer} {k : RegisterKind}
  {n : Nat} {found : Option Nat}

theorem mayLoadRegion_anything (k : RegisterKind) (p : Pointer) (n : Nat) :
    MayLoadRegion (fun _ => True) k p n where
  load _ _ _ _ := trivial
  page _ _ _ _ _ _ := trivial

/-! ### The order of regions -/

theorem Differs.symm_iff (i : Nat) : Differs m a b i ↔ Differs m b a i := ne_comm

/-- One region precedes another if the first bytes that differ do. -/
theorem read_lt_read_iff : m.read a.address n < m.read b.address n ↔
    ∃ i, IsFirst (Differs m a b) n (some i) ∧ m.get (a.address + i) < m.get (b.address + i) := by
  rw [Vector.lt_iff_exists]
  constructor
  · rintro ⟨i, hi, hbelow, hlt⟩
    rw [Memory.getElem_read, Memory.getElem_read] at hlt
    refine ⟨i, ⟨hi, UInt8.ne_of_lt hlt, fun j hj hdiffers => hdiffers ?_⟩, hlt⟩
    have hsame := hbelow j hj
    rwa [Memory.getElem_read, Memory.getElem_read] at hsame
  · rintro ⟨i, ⟨hi, _, hbelow⟩, hlt⟩
    refine ⟨i, hi, fun j hj => ?_, ?_⟩
    · rw [Memory.getElem_read, Memory.getElem_read]
      exact Decidable.not_not.mp (hbelow j hj)
    · rw [Memory.getElem_read, Memory.getElem_read]
      exact hlt

theorem read_eq_read_iff : m.read a.address n = m.read b.address n ↔
    IsFirst (Differs m a b) n none := by
  rw [Vector.ext_iff]
  constructor
  · intro hsame i hi hdiffers
    have hbyte := hsame i hi
    rw [Memory.getElem_read, Memory.getElem_read] at hbyte
    exact hdiffers hbyte
  · intro hnone i hi
    rw [Memory.getElem_read, Memory.getElem_read]
    exact Decidable.not_not.mp (hnone i hi)

theorem differenceAt_swap (m : Memory) (a b : Nat) (found : Option Nat) :
    differenceAt m b a found = -differenceAt m a b found := by
  cases found with
  | none => rfl
  | some i => exact (Int.neg_sub _ _).symm

theorem differenceAt_neg_iff (h : IsFirst (Differs m a b) n found) :
    differenceAt m a.address b.address found < 0 ↔
      m.read a.address n < m.read b.address n := by
  rw [read_lt_read_iff]
  constructor
  · intro hneg
    cases found with
    | none => exact absurd hneg (Int.lt_irrefl 0)
    | some i =>
      refine ⟨i, h, UInt8.lt_iff_toNat_lt.mpr ?_⟩
      exact Int.ofNat_lt.mp (Int.lt_of_sub_neg hneg)
  · rintro ⟨i, hfirst, hlt⟩
    rw [h.unique hfirst]
    exact Int.sub_neg_of_lt (Int.ofNat_lt.mpr (UInt8.lt_iff_toNat_lt.mp hlt))

theorem differenceAt_pos_iff (h : IsFirst (Differs m a b) n found) :
    0 < differenceAt m a.address b.address found ↔
      m.read b.address n < m.read a.address n := by
  have hswap : IsFirst (Differs m b a) n found := h.congr fun i _ => Differs.symm_iff i
  rw [← differenceAt_neg_iff hswap, differenceAt_swap, Int.neg_pos]

theorem differenceAt_eq_zero_iff (h : IsFirst (Differs m a b) n found) :
    differenceAt m a.address b.address found = 0 ↔
      m.read a.address n = m.read b.address n := by
  rw [read_eq_read_iff]
  constructor
  · intro hzero
    cases found with
    | none => exact h
    | some i =>
      refine absurd ?_ h.2.1
      exact UInt8.toNat_inj.mp (Int.ofNat_inj.mp (Int.eq_of_sub_eq_zero hzero))
  · intro hnone
    rw [h.unique hnone]
    rfl

/-- What a region is compared by lies within it. -/
theorem differenceAt_congr (h : IsFirst (Differs m a b) n found)
    (ha : ∀ i < n, m'.get (a.address + i) = m.get (a.address + i))
    (hb : ∀ i < n, m'.get (b.address + i) = m.get (b.address + i)) :
    IsFirst (Differs m' a b) n found ∧
      differenceAt m' a.address b.address found = differenceAt m a.address b.address found := by
  constructor
  · refine h.congr fun i hi => ?_
    simp only [Differs, ha i hi, hb i hi]
  · cases found with
    | none => rfl
    | some i => simp only [differenceAt, ha i h.1, hb i h.1]

/-! ### Comparing -/

/-- Run from `s`, `x` answers the difference of the bytes at the first position below `n` at which
the regions differ, 0 if there is none, and leaves memory as it is. -/
def ComparesRegions (x : Exec Int) (s : Machine) (a b : Pointer) (n : Nat) : Prop :=
  ∃ found, IsFirst (Differs s.memory a b) n found ∧
    Returns x s (differenceAt s.memory a.address b.address found)

theorem memcmp_kernel_compares (k : RegisterKind) (s : Machine) (a b : Pointer) (n : Nat) :
    ComparesRegions (Kernel.memcmp k a b n) s a b n := by
  obtain ⟨value, hreturns, found, hfirst, rfl⟩ :=
    (answers_memcmp (k := k) (m := s.memory) (mayLoadRegion_anything k a n)
      (mayLoadRegion_anything k b n)).returns
  exact ⟨found, hfirst, hreturns⟩

/-- **Comparing regions is the lexicographic order of unsigned bytes**, in every width and with
every variant's kernel, wherever the regions lie and however long they are. The answer is the same
in any two memories that agree on both regions, and in all widths. -/
theorem memcmp_compares (s : Machine) (a b : Pointer) (n : Nat) :
    (∀ k, ComparesRegions (Kernel.memcmp k a b n) s a b n) ∧
      (∀ variant t, ComparesRegions (RoutineTable.ofVariant variant t .memcmp a b n) s a b n) ∧
      (∀ k value, Returns (Kernel.memcmp k a b n) s value →
        (value < 0 ↔ s.memory.read a.address n < s.memory.read b.address n) ∧
          (value = 0 ↔ s.memory.read a.address n = s.memory.read b.address n) ∧
          (0 < value ↔ s.memory.read b.address n < s.memory.read a.address n)) ∧
      ∀ s' : Machine,
        (∀ i < n, s'.memory.get (a.address + i) = s.memory.get (a.address + i)) →
        (∀ i < n, s'.memory.get (b.address + i) = s.memory.get (b.address + i)) →
        ∀ k k' value, Returns (Kernel.memcmp k a b n) s value →
          Returns (Kernel.memcmp k' a b n) s' value := by
  refine ⟨fun k => memcmp_kernel_compares k s a b n,
    fun variant _ => memcmp_kernel_compares variant.registers s a b n, ?_, ?_⟩
  · intro k value hvalue
    obtain ⟨found, hfirst, hreturns⟩ := memcmp_kernel_compares k s a b n
    rw [hvalue.unique hreturns]
    exact ⟨differenceAt_neg_iff hfirst, differenceAt_eq_zero_iff hfirst,
      differenceAt_pos_iff hfirst⟩
  · intro s' ha hb k k' value hvalue
    obtain ⟨found, hfirst, hreturns⟩ := memcmp_kernel_compares k s a b n
    obtain ⟨found', hfirst', hreturns'⟩ := memcmp_kernel_compares k' s' a b n
    obtain ⟨hsame, hdifference⟩ := differenceAt_congr hfirst ha hb
    rw [hvalue.unique hreturns, ← hdifference, hsame.unique hfirst']
    exact hreturns'

/-- Three regions of three bytes, of which the second starts in the next page. -/
def overlongRegions (last : UInt8) : Memory :=
  ⟨4093, #[7, 0x80, 1, 7, 0x7F, last], fun _ => last⟩

/-- The second bytes decide, as unsigned numbers, and what follows them has no say. -/
theorem memcmp_compares_overlongRegions :
    Returns (Kernel.memcmp .gpr ⟨.first, 4093⟩ ⟨.second, 4096⟩ 2) ⟨overlongRegions 2, []⟩ 1 ∧
      (overlongRegions 2).read 4096 2 < (overlongRegions 2).read 4093 2 ∧
      Returns (Kernel.memcmp .zmm ⟨.first, 4093⟩ ⟨.second, 4096⟩ 2) ⟨overlongRegions 0, []⟩ 1 := by
  obtain ⟨hkernel, _, horder, hagree⟩ :=
    memcmp_compares ⟨overlongRegions 2, []⟩ ⟨.first, 4093⟩ ⟨.second, 4096⟩ 2
  obtain ⟨found, hfirst, hreturns⟩ := hkernel .gpr
  obtain rfl : found = some 1 := hfirst.unique (by decide)
  have hone : Returns (Kernel.memcmp .gpr ⟨.first, 4093⟩ ⟨.second, 4096⟩ 2)
      ⟨overlongRegions 2, []⟩ 1 := hreturns
  refine ⟨hone, (horder .gpr 1 hone).2.2.mp (by decide), ?_⟩
  exact hagree ⟨overlongRegions 0, []⟩ (by decide) (by decide) .gpr .zmm 1 hone

/-! ### Searching -/

theorem memchr_kernel_finds (k : RegisterKind) (s : Machine) (p : Pointer) (byte : UInt8)
    (n : Nat) :
    Finds (Kernel.memchr k p byte n) s p (fun i => s.memory.get (p.address + i) = byte) n :=
  finds_of_answers (answers_memchr (mayLoadRegion_anything k p n))

/-- **The search of a region finds the first place of a byte**, in every width and with every
variant's kernel; an entry point takes the low byte of the number it is given. The answer is the
same in any two memories that agree on the region, and in all widths. -/
theorem memchr_finds (s : Machine) (p : Pointer) (n : Nat) :
    (∀ k byte, Finds (Kernel.memchr k p byte n) s p
        (fun i => s.memory.get (p.address + i) = byte) n) ∧
      (∀ variant t byte, Finds (RoutineTable.ofVariant variant t .memchr p byte n) s p
        (fun i => s.memory.get (p.address + i) = byte) n) ∧
      (∀ (dispatch : Dispatch) c, Finds (dispatch.table.findIn p c n) s p
        (fun i => ((s.memory.get (p.address + i)).toNat : Int) = c.toInt % 256) n) ∧
      ∀ s' : Machine,
        (∀ i < n, s'.memory.get (p.address + i) = s.memory.get (p.address + i)) →
        ∀ k k' byte result, Returns (Kernel.memchr k p byte n) s result →
          Returns (Kernel.memchr k' p byte n) s' result := by
  refine ⟨fun k byte => memchr_kernel_finds k s p byte n,
    fun variant _ byte => memchr_kernel_finds variant.registers s p byte n, ?_, ?_⟩
  · intro dispatch c
    exact (memchr_kernel_finds (dispatch.bindings .memchr).registers s p (lowByte c) n).congr
      fun _ _ => eq_lowByte_iff _ c
  · intro s' hagree k k' byte result hresult
    obtain ⟨found, hfirst, hreturns⟩ := memchr_kernel_finds k s p byte n
    have hsame : Finds (Kernel.memchr k' p byte n) s' p
        (fun i => s.memory.get (p.address + i) = byte) n :=
      (memchr_kernel_finds k' s' p byte n).congr fun i hi => by rw [hagree i hi]
    rw [hresult.unique hreturns]
    exact hsame.returns hfirst

/-- The byte stands right behind the region, in the register that is loaded, and is not found. -/
theorem memchr_finds_overlongRegions :
    Returns (Kernel.memchr .xmm ⟨.first, 4096⟩ 0 2) ⟨overlongRegions 0, []⟩ none ∧
      Returns (Kernel.memchr .zmm ⟨.first, 4096⟩ 0 2) ⟨overlongRegions 2, []⟩ none := by
  obtain ⟨hkernel, _, _, hagree⟩ := memchr_finds ⟨overlongRegions 0, []⟩ ⟨.first, 4096⟩ 2
  have hfirst : IsFirst (fun i => (overlongRegions 0).get (4096 + i) = 0) 2 none := by decide
  have hnone : Returns (Kernel.memchr .xmm ⟨.first, 4096⟩ 0 2) ⟨overlongRegions 0, []⟩ none :=
    (hkernel .xmm 0).returns hfirst
  exact ⟨hnone, hagree ⟨overlongRegions 2, []⟩ (by decide) .xmm .zmm 0 none hnone⟩

end ByteRoutines
