import ByteRoutines.Routine.Table
import ByteRoutines.Proofs.Memory.Footprint
import ByteRoutines.Proofs.Kernel.Copy
import ByteRoutines.Proofs.Kernel.Fill

/-!
# The extent of a copy

A copy, a move or a fill never needs a byte that it was not given: what it
loads lies in the source and what it stores in the destination, in each single
access and not only in the memory that it leaves (`copies_confined`). This is
so for every path through a routine, in every register width, and wherever the
two regions lie, also where they overlap.
-/

namespace ByteRoutines

open Exec Event Kernel

theorem mayCopy_confined (apart : Prop) (dst src n : Nat) :
    MayCopy (fun e => e.LoadsWithin (.of .empty ⟨src, n⟩) ∧ e.StoresWithin (.of ⟨dst, n⟩ .empty))
      apart ⟨.first, dst⟩ ⟨.second, src⟩ n where
  load _ _ off length hle :=
    ⟨mayLoad_within (fun _ hi => Region.add_mem hi) off length hle, storesWithin_load⟩
  store _ _ off length hle :=
    ⟨loadsWithin_store, mayStore_within (fun _ hi => Region.add_mem hi) off length hle⟩
  prefetch _ := ⟨loadsWithin_prefetch, storesWithin_prefetch⟩
  fence := ⟨loadsWithin_fence, storesWithin_fence⟩

variable (k : RegisterKind) (policy : LoopPolicy) (s : Machine) (dst src n : Nat)

theorem memcpy_confined :
    Confined (Kernel.memcpy k policy ⟨.first, dst⟩ ⟨.second, src⟩ n) s ⟨dst, n⟩ ⟨src, n⟩ :=
  (ends_memcpy_anywhere (mayCopy_confined _ dst src n)).does

theorem mempcpy_confined :
    Confined (Kernel.mempcpy k policy ⟨.first, dst⟩ ⟨.second, src⟩ n) s ⟨dst, n⟩ ⟨src, n⟩ :=
  (ends_mempcpy_anywhere (mayCopy_confined _ dst src n)).does

/-- Which way a move takes has no influence on what it accesses. -/
theorem memmove_confined :
    Confined (Kernel.memmove k policy ⟨.first, dst⟩ ⟨.second, src⟩ n) s ⟨dst, n⟩ ⟨src, n⟩ :=
  (ends_memmove_anywhere (fun _ _ => trivial) (mayCopy_confined True dst src n)).does

theorem memset_confined (value : UInt8) :
    Confined (Kernel.memset k policy ⟨.first, dst⟩ value n) s ⟨dst, n⟩ .empty := by
  have may : MayFill (fun e => e.LoadsWithin (.of .empty .empty) ∧
      e.StoresWithin (.of ⟨dst, n⟩ .empty)) ⟨.first, dst⟩ n :=
    { store := fun _ off length hle =>
        ⟨loadsWithin_store, mayStore_within (fun _ hi => Region.add_mem hi) off length hle⟩
      fence := ⟨loadsWithin_fence, storesWithin_fence⟩ }
  exact (ends_memset may).does

/-- **Copies, moves and fills access their two regions and nothing else**, with every variant's
kernel and for all thresholds. Of no bytes they do nothing. -/
theorem copies_confined (variant : Variant) (t : Thresholds) (s : Machine) (dst src : Nat)
    (value : UInt8) :
    (∀ n, Confined (RoutineTable.ofVariant variant t .memcpy ⟨.first, dst⟩ ⟨.second, src⟩ n) s
          ⟨dst, n⟩ ⟨src, n⟩ ∧
        Confined (RoutineTable.ofVariant variant t .mempcpy ⟨.first, dst⟩ ⟨.second, src⟩ n) s
          ⟨dst, n⟩ ⟨src, n⟩ ∧
        Confined (RoutineTable.ofVariant variant t .memmove ⟨.first, dst⟩ ⟨.second, src⟩ n) s
          ⟨dst, n⟩ ⟨src, n⟩ ∧
        Confined (RoutineTable.ofVariant variant t .memset ⟨.first, dst⟩ value n) s
          ⟨dst, n⟩ .empty) ∧
      Idles (RoutineTable.ofVariant variant t .memcpy ⟨.first, dst⟩ ⟨.second, src⟩ 0) s ∧
      Idles (RoutineTable.ofVariant variant t .mempcpy ⟨.first, dst⟩ ⟨.second, src⟩ 0) s ∧
      Idles (RoutineTable.ofVariant variant t .memmove ⟨.first, dst⟩ ⟨.second, src⟩ 0) s ∧
      Idles (RoutineTable.ofVariant variant t .memset ⟨.first, dst⟩ value 0) s := by
  refine ⟨fun n => ⟨?_, ?_, ?_, ?_⟩, ?_, ?_, ?_, ?_⟩
  · exact memcpy_confined variant.registers (variant.copyPolicy t) s dst src n
  · exact mempcpy_confined variant.registers (variant.copyPolicy t) s dst src n
  · exact memmove_confined variant.registers (variant.copyPolicy t) s dst src n
  · exact memset_confined variant.registers (variant.fillPolicy t) s dst n value
  · exact (memcpy_confined variant.registers (variant.copyPolicy t) s dst src 0).idles rfl rfl
  · exact (mempcpy_confined variant.registers (variant.copyPolicy t) s dst src 0).idles rfl rfl
  · exact (memmove_confined variant.registers (variant.copyPolicy t) s dst src 0).idles rfl rfl
  · exact (memset_confined variant.registers (variant.fillPolicy t) s dst 0 value).idles rfl rfl

end ByteRoutines
