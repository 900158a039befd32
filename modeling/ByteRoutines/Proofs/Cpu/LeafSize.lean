import Mathlib.Algebra.Order.Ring.Nat
import Mathlib.Tactic.Positivity
import ByteRoutines.Proofs.Cpu.Cache

/-!
# When the size of a cache is exact

A leaf spells the size of a cache as the product of four numbers, each one more
than a field of bits (`capacity`). The largest of them are 2^10, 2^10, 2^12 and
2^32, so that the product never exceeds 2^64, and reaches it only where every
bit of the fields is set (`capacity_eq_iff`). That one product is no 64-bit
word any more: `CacheLeaf.size` is then 0, and exact in all other cases
(`size_exact`).
-/

namespace ByteRoutines.Cpu

/-- The number in the bits of a register from `low` up to `high`. -/
def field (register : UInt32) (high low : Nat) : Nat :=
  (register.toBitVec.extractLsb high low).toNat

theorem field_eq (register : UInt32) (high low : Nat) :
    field register high low = register.toNat / 2 ^ low % 2 ^ (high - low + 1) := by
  rw [field, BitVec.extractLsb_toNat, Nat.shiftRight_eq_div_pow]
  rfl

/-- A field is cut out by a shift and a mask. -/
theorem toNat_shiftRight_and (register shift mask : UInt32) (high low : Nat)
    (hshift : shift.toNat % 32 = low) (hmask : mask.toNat = 2 ^ (high - low + 1) - 1) :
    ((register >>> shift) &&& mask).toNat = field register high low := by
  rw [UInt32.toNat_and, UInt32.toNat_shiftRight, hshift, hmask, Nat.and_two_pow_sub_one_eq_mod,
    field_eq, Nat.shiftRight_eq_div_pow]

theorem toNat_toUInt64_add_one (n : UInt32) : (n.toUInt64 + 1).toNat = n.toNat + 1 := by
  have hlt := n.toNat_lt
  rw [UInt64.toNat_add, UInt32.toNat_toUInt64]
  show (n.toNat + 1) % 2 ^ 64 = n.toNat + 1
  exact Nat.mod_eq_of_lt (by omega)

namespace CacheLeaf

variable (leaf : CacheLeaf)

/-- The size that the fields of a leaf spell: places in a set, partitions, bytes in a line and
sets, each one more than its field. -/
def capacity : Nat :=
  (field leaf.ebx 31 22 + 1) * (field leaf.ebx 21 12 + 1) * (field leaf.ebx 11 0 + 1) *
    (leaf.ecx.toNat + 1)

/-- Every bit of the four fields is set. -/
def AllOnes : Prop := leaf.ebx = 0xFFFFFFFF ∧ leaf.ecx = 0xFFFFFFFF

theorem toNat_ways : leaf.ways.toNat = field leaf.ebx 31 22 + 1 := by
  rw [ways, toNat_toUInt64_add_one, toNat_shiftRight_and _ _ _ 31 22 rfl rfl]

theorem toNat_partitions : leaf.partitions.toNat = field leaf.ebx 21 12 + 1 := by
  rw [partitions, toNat_toUInt64_add_one, toNat_shiftRight_and _ _ _ 21 12 rfl rfl]

theorem toNat_lineSize : leaf.lineSize.toNat = field leaf.ebx 11 0 + 1 := by
  rw [lineSize, toNat_toUInt64_add_one, ← toNat_shiftRight_and _ 0 0xFFF 11 0 rfl rfl,
    UInt32.shiftRight_zero]

theorem toNat_sets : leaf.sets.toNat = leaf.ecx.toNat + 1 := toNat_toUInt64_add_one leaf.ecx

/-- The product of words keeps the lowest 64 bits of the size. -/
theorem toNat_size : leaf.size.toNat = leaf.capacity % 2 ^ 64 := by
  rw [size, UInt64.toNat_mul, UInt64.toNat_mul, UInt64.toNat_mul, Nat.mod_mul_mod, Nat.mul_assoc,
    Nat.mod_mul_mod, toNat_ways, toNat_partitions, toNat_lineSize, toNat_sets, ← Nat.mul_assoc]
  rfl

theorem capacity_pos : 0 < leaf.capacity := by
  rw [capacity]
  positivity

theorem factors_le : field leaf.ebx 31 22 + 1 ≤ 2 ^ 10 ∧ field leaf.ebx 21 12 + 1 ≤ 2 ^ 10 ∧
    field leaf.ebx 11 0 + 1 ≤ 2 ^ 12 ∧ leaf.ecx.toNat + 1 ≤ 2 ^ 32 := by
  have hecx := leaf.ecx.toNat_lt
  rw [field_eq, field_eq, field_eq]
  omega

theorem capacity_le : leaf.capacity ≤ 2 ^ 64 := by
  obtain ⟨hways, hpartitions, hline, hsets⟩ := leaf.factors_le
  calc
    leaf.capacity ≤ 2 ^ 10 * 2 ^ 10 * 2 ^ 12 * 2 ^ 32 :=
      Nat.mul_le_mul (Nat.mul_le_mul (Nat.mul_le_mul hways hpartitions) hline) hsets
    _ = 2 ^ 64 := by decide

/-- The size is 2^64 only where every field is as large as it can be. -/
theorem capacity_eq_iff : leaf.capacity = 2 ^ 64 ↔ leaf.AllOnes := by
  obtain ⟨hways, hpartitions, hline, hsets⟩ := leaf.factors_le
  have hplaces := Nat.mul_le_mul hways hpartitions
  have hset := Nat.mul_le_mul hplaces hline
  -- Of bounded factors a product is largest only where each of them is.
  rw [capacity, show (2 : Nat) ^ 64 = 2 ^ 10 * 2 ^ 10 * 2 ^ 12 * 2 ^ 32 by decide,
    mul_eq_mul_iff_eq_and_eq_of_pos hset hsets (by positivity) (by positivity),
    mul_eq_mul_iff_eq_and_eq_of_pos hplaces hline (by positivity) (by positivity),
    mul_eq_mul_iff_eq_and_eq_of_pos hways hpartitions (by positivity) (by positivity)]
  have hebx := leaf.ebx.toNat_lt
  rw [field_eq, field_eq, field_eq, AllOnes, ← UInt32.toNat_inj, ← UInt32.toNat_inj]
  show _ ↔ leaf.ebx.toNat = 4294967295 ∧ leaf.ecx.toNat = 4294967295
  omega

theorem capacity_lt_iff : leaf.capacity < 2 ^ 64 ↔ ¬ leaf.AllOnes := by
  have hle := leaf.capacity_le
  rw [← leaf.capacity_eq_iff]
  omega

theorem size_ne_zero_iff : leaf.size ≠ 0 ↔ ¬ leaf.AllOnes := by
  have hpos := leaf.capacity_pos
  have hle := leaf.capacity_le
  rw [← leaf.capacity_eq_iff, ne_eq, ← UInt64.toNat_inj, toNat_size]
  show ¬ leaf.capacity % 2 ^ 64 = 0 ↔ _
  omega

end CacheLeaf

namespace CacheSizes

theorem standard_size_ne_zero (level : CacheLevel) : standard.size level ≠ 0 := by
  cases level <;> decide

/-- The size of the level is that of this leaf. -/
def DecidingLeaf (leaves : List CacheLeaf) (level : CacheLevel) (leaf : CacheLeaf) : Prop :=
  ∃ front, BeforeNull leaves front ∧ IsLast (·.Describes level) front (some leaf)

/-- **Sizes are exact, and not 0, but for one value of the registers.** The product of the four
numbers of a leaf is a 64-bit word, and is what is computed, if and only if not all bits of their
fields are set. So no level has the size 0 if and only if no such leaf decides the size of one. -/
theorem size_exact (leaf : CacheLeaf) (leaves : List CacheLeaf) :
    ((leaf.capacity < 2 ^ 64 ∧ leaf.size.toNat = leaf.capacity) ↔ ¬ leaf.AllOnes) ∧
      ((∀ level, (ofLeaves leaves).size level ≠ 0) ↔
        ∀ level leaf, DecidingLeaf leaves level leaf → ¬ leaf.AllOnes) := by
  constructor
  · rw [← leaf.capacity_lt_iff, and_iff_left_iff_imp, leaf.toNat_size]
    exact Nat.mod_eq_of_lt
  constructor
  · rintro hsizes level leaf ⟨front, hfront, hlast⟩
    have hsize := hsizes level
    rw [size_ofLeaves hfront hlast] at hsize
    exact leaf.size_ne_zero_iff.mp hsize
  · intro hleaves level
    obtain ⟨front, hfront⟩ := exists_beforeNull leaves
    obtain ⟨found, hfound⟩ := exists_isLast (·.Describes level) front
    rw [size_ofLeaves hfront hfound]
    cases found with
    | none => exact standard_size_ne_zero level
    | some leaf => exact leaf.size_ne_zero_iff.mpr (hleaves level leaf ⟨front, hfront, hfound⟩)

/-- Registers whose bits are all set spell a size of 2^64 bytes, and it is taken for 0. -/
theorem size_allOnes :
    (CacheLeaf.mk 33 0xFFFFFFFF 0xFFFFFFFF).capacity = 2 ^ 64 ∧
      (CacheLeaf.mk 33 0xFFFFFFFF 0xFFFFFFFF).size = 0 ∧
      (ofLeaves [⟨33, 0xFFFFFFFF, 0xFFFFFFFF⟩]).size .l1d = 0 := by
  decide

end CacheSizes

end ByteRoutines.Cpu
