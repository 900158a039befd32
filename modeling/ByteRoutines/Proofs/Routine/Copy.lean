import ByteRoutines.Routine.Table
import ByteRoutines.Proofs.Kernel.Copy

/-!
# Copying and moving

What callers may rely on: `Copies` says that a routine ends, that the
destination then holds what the source held before the call, and that no other
byte of memory has changed. Moves do so for any two regions (`memmove_copies`)
and copies for two that do not overlap (`memcpy_copies`), whatever the
variant, the thresholds and the alignment. So neither the variant nor the
thresholds can be told from the memory that a copy leaves.
-/

namespace ByteRoutines

open Exec Kernel

/-- Run from `s`, `x` ends with this value; the `n` bytes at `dst` are then those that stood at
`src` before, and every other byte is as it was. -/
def Copies (x : Exec Pointer) (s : Machine) (value : Pointer) (dst src n : Nat) : Prop :=
  ∃ s', x s = .ok value s' ∧ (∀ i < n, s'.memory.get (dst + i) = s.memory.get (src + i)) ∧
    ∀ a, a < dst ∨ dst + n ≤ a → s'.memory.get a = s.memory.get a

theorem copies_of_ends {ok : Event → Prop} {x : Exec Pointer} {s : Machine} {value : Pointer}
    {dst src n : Nat} (h : Ends ok x s.memory fun p m' =>
      p = value ∧ s.memory.Replaced m' dst 0 n fun i => s.memory.get (src + i)) :
    Copies x s value dst src n :=
  h.writes

theorem Copies.replaced {x : Exec Pointer} {s s' : Machine} {v p : Pointer} {dst src n : Nat}
    (h : Copies x s v dst src n) (hrun : x s = .ok p s') :
    s.memory.Replaced s'.memory dst 0 n fun i => s.memory.get (src + i) := by
  obtain ⟨s₁, hx, hin, hout⟩ := h
  cases hrun.symm.trans hx
  exact ⟨fun i _ hi => hin i hi, hout⟩

/-- Two copies of one region to another leave the same memory. -/
theorem Copies.get_eq {x y : Exec Pointer} {s s₁ s₂ : Machine} {v w p q : Pointer}
    {dst src n : Nat} (hx : Copies x s v dst src n) (hy : Copies y s w dst src n)
    (hrun : x s = .ok p s₁) (hrun' : y s = .ok q s₂) (a : Nat) :
    s₁.memory.get a = s₂.memory.get a :=
  (hx.replaced hrun).get_eq (hy.replaced hrun') a

/-- A copy that nobody watches may do anything. -/
theorem mayCopy_anything (apart : Prop) (dst src : Pointer) (n : Nat) :
    MayCopy (fun _ => True) apart dst src n where
  load _ _ _ _ _ := trivial
  store _ _ _ _ _ := trivial
  prefetch _ := trivial
  fence := trivial

/-- **Moves are right for any two regions that do not run past the last address**, in every
width, for every policy, and with every variant's kernel for all thresholds. -/
theorem memmove_copies (s : Machine) (dst src : Pointer) (n : Nat)
    (hdst : dst.address + n ≤ addressSpace) (hsrc : src.address + n ≤ addressSpace) :
    (∀ k policy, Copies (Kernel.memmove k policy dst src n) s dst dst.address src.address n) ∧
      ∀ variant t, Copies (RoutineTable.ofVariant variant t .memmove dst src n) s dst
        dst.address src.address n := by
  have hkernel : ∀ k policy,
      Copies (Kernel.memmove k policy dst src n) s dst dst.address src.address n :=
    fun k policy => copies_of_ends (ends_memmove hdst hsrc (mayCopy_anything _ dst src n))
  exact ⟨hkernel, fun variant t => hkernel variant.registers (variant.copyPolicy t)⟩

/-- A move of 1000 bytes one address up, where the regions share all but two bytes. -/
theorem memmove_copies_one_up :
    (101 + 1000 ≤ addressSpace ∧ 100 + 1000 ≤ addressSpace) ∧
      Copies (RoutineTable.ofVariant .avx2 .baseline .memmove ⟨.first, 101⟩ ⟨.second, 100⟩ 1000)
        ⟨⟨0, #[], UInt8.ofNat⟩, []⟩ ⟨.first, 101⟩ 101 100 1000 :=
  ⟨by decide, (memmove_copies _ ⟨.first, 101⟩ ⟨.second, 100⟩ 1000 (by decide) (by decide)).2
    .avx2 .baseline⟩

/-- **The breakpoints choose a loop, and never the result.** On regions that do not overlap every
variant's copy does the same for all thresholds, and so does the copy that answers the end; of any
two of them, the memory is the same afterwards. -/
theorem memcpy_copies (s : Machine) (dst src : Pointer) (n : Nat)
    (hapart : Apart dst.address src.address n) :
    (∀ variant t, Copies (RoutineTable.ofVariant variant t .memcpy dst src n) s dst
        dst.address src.address n) ∧
      (∀ variant t, Copies (RoutineTable.ofVariant variant t .mempcpy dst src n) s (dst + n)
        dst.address src.address n) ∧
      ∀ variant t variant' t' p q s₁ s₂,
        (RoutineTable.ofVariant variant t .memcpy dst src n s = .ok p s₁ ∨
          RoutineTable.ofVariant variant t .mempcpy dst src n s = .ok p s₁) →
        (RoutineTable.ofVariant variant' t' .memcpy dst src n s = .ok q s₂ ∨
          RoutineTable.ofVariant variant' t' .mempcpy dst src n s = .ok q s₂) →
        ∀ a, s₁.memory.get a = s₂.memory.get a := by
  have hcopy : ∀ variant t, Copies (RoutineTable.ofVariant variant t .memcpy dst src n) s dst
      dst.address src.address n := fun variant t =>
    copies_of_ends (ends_memcpy hapart (mayCopy_anything _ dst src n))
  have hcopyEnd : ∀ variant t, Copies (RoutineTable.ofVariant variant t .mempcpy dst src n) s
      (dst + n) dst.address src.address n := fun variant t =>
    copies_of_ends (ends_mempcpy hapart (mayCopy_anything _ dst src n))
  refine ⟨hcopy, hcopyEnd, ?_⟩
  intro variant t variant' t' p q s₁ s₂ hrun hrun'
  rcases hrun with hrun | hrun <;> rcases hrun' with hrun' | hrun'
  · exact (hcopy variant t).get_eq (hcopy variant' t') hrun hrun'
  · exact (hcopy variant t).get_eq (hcopyEnd variant' t') hrun hrun'
  · exact (hcopyEnd variant t).get_eq (hcopy variant' t') hrun hrun'
  · exact (hcopyEnd variant t).get_eq (hcopyEnd variant' t') hrun hrun'

/-- A copy of 1000 bytes to the region right above, with string instructions. -/
theorem memcpy_copies_adjacent :
    Apart 1100 100 1000 ∧
      Copies (RoutineTable.ofVariant .erms .baseline .mempcpy ⟨.first, 1100⟩ ⟨.second, 100⟩ 1000)
        ⟨⟨0, #[], UInt8.ofNat⟩, []⟩ ⟨.first, 2100⟩ 1100 100 1000 :=
  ⟨by decide, (memcpy_copies _ ⟨.first, 1100⟩ ⟨.second, 100⟩ 1000 (by decide)).2.1
    .erms .baseline⟩

end ByteRoutines
