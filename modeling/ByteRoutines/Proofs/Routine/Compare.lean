import ByteRoutines.Routine.Table
import ByteRoutines.Proofs.Kernel.Lockstep

/-!
# Comparing strings

`Compares` says that a routine answers what a walk over both strings, byte by
byte, answers: the difference of the bytes at the first position at which the
first string ends or the two differ, and 0 if there is none below the bound.
-/

namespace ByteRoutines

open Exec Kernel

/-- Run from `s`, `x` answers the difference of the bytes at the first position below `n` that
decides the comparison, 0 if none does, and leaves memory as it is. -/
def Compares (x : Exec Int) (s : Machine) (a b : Pointer) (n : Nat) : Prop :=
  ∃ found, IsFirst (Decides s.memory a b) n found ∧
    Returns x s (differenceAt s.memory a.address b.address found)

/-- **Bounded comparisons are right for any bound**, and those without a bound for any two strings
whose comparison is decided at a position that has an address in both, as it always is where both
are terminated (`decides_of_strings`). -/
theorem strncmp_compares (s : Machine) (a b : Pointer) :
    (∀ n, (∀ k, Compares (Kernel.strncmp k a b n) s a b n) ∧
        ∀ variant t, Compares (RoutineTable.ofVariant variant t .strncmp a b n) s a b n) ∧
      ∀ i, Decides s.memory a b i → a.address + i < addressSpace → b.address + i < addressSpace →
        (∀ k, Compares (Kernel.strcmp k a b) s a b (i + 1)) ∧
          ∀ variant t, Compares (RoutineTable.ofVariant variant t .strcmp a b) s a b (i + 1) := by
  have hbounded : ∀ n k, Compares (Kernel.strncmp k a b n) s a b n := by
    intro n k
    obtain ⟨value, hreturns, found, hfirst, rfl⟩ :=
      (answers_strncmp (k := k) (mayCompare_anything s.memory a b n)).returns
    exact ⟨found, hfirst, hreturns⟩
  have hunbounded : ∀ i, Decides s.memory a b i → a.address + i < addressSpace →
      b.address + i < addressSpace → ∀ k, Compares (Kernel.strcmp k a b) s a b (i + 1) := by
    intro i hdecides ha hb k
    obtain ⟨value, hreturns, found, hfirst, rfl⟩ := (answers_strcmp (k := k) hdecides ha hb
      (mayCompare_anything s.memory a b (i + 1))).returns
    exact ⟨some found, hfirst, hreturns⟩
  refine ⟨fun n => ⟨hbounded n, ?_⟩, fun i hdecides ha hb => ⟨hunbounded i hdecides ha hb, ?_⟩⟩
  · exact fun variant _ => hbounded n variant.registers
  · exact fun variant _ => hunbounded i hdecides ha hb variant.registers

/-- Two strings of three bytes, one behind the other and the first across the end of a page. -/
def adjacentStrings : Memory := ⟨4094, #[97, 98, 99, 0, 97, 98, 100, 0], fun _ => 1⟩

/-- Their comparison is decided at the last byte before the terminators. -/
theorem strcmp_compares_adjacentStrings :
    (StringAt adjacentStrings 4094 3 ∧ StringAt adjacentStrings 4098 3) ∧
      Compares (RoutineTable.ofVariant .avx512 .baseline .strcmp ⟨.first, 4094⟩ ⟨.second, 4098⟩)
        ⟨adjacentStrings, []⟩ ⟨.first, 4094⟩ ⟨.second, 4098⟩ 4 := by
  have ha : StringAt adjacentStrings 4094 3 := ⟨by decide, by decide, by decide⟩
  have hb : StringAt adjacentStrings 4098 3 := ⟨by decide, by decide, by decide⟩
  have hdecides : Decides adjacentStrings ⟨.first, 4094⟩ ⟨.second, 4098⟩ (min 3 3) :=
    decides_of_strings ha hb
  refine ⟨⟨ha, hb⟩, ?_⟩
  exact ((strncmp_compares ⟨adjacentStrings, []⟩ ⟨.first, 4094⟩ ⟨.second, 4098⟩).2 3 hdecides
    (by decide) (by decide)).2 .avx512 .baseline

end ByteRoutines
