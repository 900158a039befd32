import ByteRoutines.Proofs.Memory.Footprint
import ByteRoutines.Proofs.Routine.Copy

/-!
# Which loop a move takes

A move of more than eight registers' worth of bytes decides by two distances
modulo 2^64 in which direction it runs. For two regions that do not run past
the last address these are three cases of how the regions lie
(`choose_eq_downward_iff`, `choose_eq_upward_iff`), up to regions that touch and
regions at either end of the address space.

String instructions and streaming stores are for regions that have no byte in
common. A move of other regions keeps away from them at every size, whatever
the breakpoints (`does_memmove_of_overlap`).
-/

namespace ByteRoutines

open Exec Kernel

variable {k : RegisterKind} {policy : LoopPolicy} {direction : Direction} {dst src : Pointer}
  {n : Nat}

/-- The event accesses memory by a string instruction or a streaming store. -/
def Event.Fast : Event → Prop
  | load mode _ _ | store mode _ _ => mode = .repeated ∨ mode = .streaming
  | _ => False

/-- The regime needs regions that have no byte in common. -/
def Kernel.CopyRegime.Fast (regime : CopyRegime) : Prop :=
  regime = .repeated ∨ regime = .streaming

/-- The move decides for this direction, and leaves all of its bytes to the loop that runs in it.
The upward loop runs in a regime that opens the fast paths only if `disjoint` is true
(`fast_choose_iff`). -/
inductive TakesLoop (k : RegisterKind) (policy : LoopPolicy) (dst src : Pointer) (n : Nat) :
    Direction → Prop
  | downward (chosen : Direction.choose dst.address src.address n = .downward)
      (run : memmove k policy dst src n = do
        copyDownward k dst src n
        return dst) : TakesLoop k policy dst src n .downward
  | upward {disjoint : Bool}
      (chosen : Direction.choose dst.address src.address n = .upward disjoint)
      (run : memmove k policy dst src n = do
        copyUpward k (.choose k policy disjoint dst.address src.address n) dst src n
        return dst) : TakesLoop k policy dst src n (.upward disjoint)

/-! ### Distances and regions -/

section

variable {dst src : Nat} {disjoint : Bool}

/-- A copy runs downwards where the destination starts within the source. -/
theorem choose_eq_downward_iff (hn : 0 < n) (hdst : dst + n ≤ addressSpace)
    (hsrc : src + n ≤ addressSpace) :
    Direction.choose dst src n = .downward ↔ src ≤ dst ∧ dst < src + n := by
  have hbelow := le_distance_iff hn hdst hsrc
  rw [Direction.choose]
  split
  · simp only [reduceCtorEq, false_iff]
    omega
  · simp only [true_iff]
    omega

/-- Elsewhere it runs upwards, and is told whether the regions have a byte in common. -/
theorem choose_eq_upward_iff (hn : 0 < n) (hdst : dst + n ≤ addressSpace)
    (hsrc : src + n ≤ addressSpace) :
    Direction.choose dst src n = .upward disjoint ↔
      (dst < src ∨ src + n ≤ dst) ∧ (disjoint = true ↔ Apart dst src n) := by
  have hbelow := le_distance_iff hn hdst hsrc
  have habove := le_distance_iff hn hsrc hdst
  rw [Direction.choose]
  split
  · have hdir : dst < src ∨ src + n ≤ dst := by omega
    have hdisjoint : decide (n ≤ distance src dst) = true ↔ Apart dst src n := by
      rw [decide_eq_true_iff, habove, Apart]
      omega
    rw [Direction.upward.injEq, ← hdisjoint, Bool.eq_iff_iff]
    exact ⟨fun h => ⟨hdir, h.symm⟩, fun h => h.2.symm⟩
  · simp only [reduceCtorEq, false_iff]
    omega

end

/-! ### The fast paths -/

/-- An upward copy that is told of a common byte has no fast path, and one that is told of none
has those that its breakpoints ask for. -/
theorem fast_choose_iff {dst src : Nat} {disjoint : Bool} :
    (CopyRegime.choose k policy disjoint dst src n).Fast ↔
      disjoint = true ∧ (policy.repeats n = true ∨ policy.streams n = true) := by
  cases disjoint with
  | false =>
    simp only [Bool.false_eq_true, false_and, iff_false]
    exact fun hfast => Bool.false_ne_true (disjoint_of_choose k hfast)
  | true =>
    simp only [CopyRegime.choose, Bool.true_and, true_and]
    by_cases hrep : policy.repeats n = true
    · simp [hrep, CopyRegime.Fast]
    by_cases hstream : policy.streams n = true
    · simp [hrep, hstream, CopyRegime.Fast]
    rw [if_neg hrep, if_neg hstream]
    simp only [hrep, hstream, or_self]
    split
    · simp [CopyRegime.Fast]
    · split <;> simp [CopyRegime.Fast]

theorem mayCopy_slowly (dst src : Pointer) (n : Nat) :
    MayCopy (fun e => ¬ e.Fast) False dst src n where
  load _ hslow _ _ _ := hslow
  store _ hslow _ _ _ := hslow
  prefetch _ := id
  fence := id

/-- **A move of regions that have a byte in common uses neither string instructions nor streaming
stores**, at any size and for all breakpoints. -/
theorem does_memmove_of_overlap (s : Machine) (hdst : dst.address + n ≤ addressSpace)
    (hsrc : src.address + n ≤ addressSpace) (h : ¬ Apart dst.address src.address n) :
    Does (fun e => ¬ e.Fast) (memmove k policy dst src n) s := by
  refine (ends_memmove_anywhere (fun hn hdir => ?_) (mayCopy_slowly dst src n)).does
  exact h (((choose_eq_upward_iff hn hdst hsrc).mp hdir).2.mp rfl)

/-! ### The three cases -/

theorem TakesLoop.chosen (h : TakesLoop k policy dst src n direction) :
    Direction.choose dst.address src.address n = direction := by
  cases h with
  | downward hchosen _ => exact hchosen
  | upward hchosen _ => exact hchosen

theorem memmove_of_large (hn : 8 * k.width < n) (hne : dst.address ≠ src.address) :
    memmove k policy dst src n = do
      copyBulk k policy (.choose dst.address src.address n) dst src n
      return dst := by
  rw [memmove, if_neg (by omega), if_neg (by omega)]

/-- Of a large move between different addresses, the direction decides alone. -/
theorem takesLoop_iff (hn : 8 * k.width < n) (hne : dst.address ≠ src.address) :
    TakesLoop k policy dst src n direction ↔
      Direction.choose dst.address src.address n = direction := by
  have hrun : memmove k policy dst src n = _ := memmove_of_large hn hne
  refine ⟨TakesLoop.chosen, fun hchosen => ?_⟩
  rw [hchosen] at hrun
  cases direction with
  | downward => exact .downward hchosen hrun
  | upward disjoint => exact .upward hchosen hrun

/-- **The choice of a loop is exact.** Of two regions that do not run past the last address, and
for all breakpoints, a move of more than eight registers' worth of bytes runs downwards just if the
destination starts within the source, upwards without the fast paths just if the source starts
within the destination, and upwards with those that the breakpoints ask for just if the regions have
no byte in common. So at no size does a move of overlapping regions use a string instruction or a
streaming store, in any width and with every variant's kernel. -/
theorem memmove_takesLoop (dst src : Pointer) (n : Nat) (hdst : dst.address + n ≤ addressSpace)
    (hsrc : src.address + n ≤ addressSpace) :
    (∀ k policy, 8 * k.width < n → dst.address ≠ src.address →
      (TakesLoop k policy dst src n .downward ↔
        src.address < dst.address ∧ dst.address < src.address + n) ∧
      (TakesLoop k policy dst src n (.upward false) ↔
        dst.address < src.address ∧ src.address < dst.address + n) ∧
      (TakesLoop k policy dst src n (.upward true) ↔
        Apart dst.address src.address n)) ∧
      (∀ k policy disjoint,
        (CopyRegime.choose k policy disjoint dst.address src.address n).Fast ↔
          disjoint = true ∧ (policy.repeats n = true ∨ policy.streams n = true)) ∧
      (¬ Apart dst.address src.address n → ∀ s,
        (∀ k policy, Does (fun e => ¬ e.Fast) (memmove k policy dst src n) s) ∧
          ∀ variant t,
            Does (fun e => ¬ e.Fast) (RoutineTable.ofVariant variant t .memmove dst src n) s) := by
  refine ⟨fun k policy hn hne => ?_, fun k policy disjoint => fast_choose_iff, fun h s => ?_⟩
  · have hpos : 0 < n := by omega
    rw [takesLoop_iff hn hne, takesLoop_iff hn hne, takesLoop_iff hn hne,
      choose_eq_downward_iff hpos hdst hsrc, choose_eq_upward_iff hpos hdst hsrc,
      choose_eq_upward_iff hpos hdst hsrc]
    simp only [Apart, Bool.false_eq_true, false_iff, true_iff]
    omega
  · have hkernel : ∀ k policy, Does (fun e => ¬ e.Fast) (memmove k policy dst src n) s :=
      fun k policy => does_memmove_of_overlap s hdst hsrc h
    exact ⟨hkernel, fun variant t => hkernel variant.registers (variant.copyPolicy t)⟩

/-- A move of 600 bytes between the last regions there are, one byte up, runs downwards; with string
instructions asked for at every size, it uses none. The same bytes are moved to a region right below
them by the fast paths. -/
theorem memmove_takesLoop_lastAddresses :
    (addressSpace - 600 + 600 ≤ addressSpace ∧ addressSpace - 601 + 600 ≤ addressSpace ∧
        addressSpace - 1200 + 600 ≤ addressSpace ∧ 8 * RegisterKind.zmm.width < 600) ∧
      TakesLoop .zmm ⟨0, Config.unbounded, 0, 0⟩ ⟨.first, addressSpace - 600⟩
        ⟨.second, addressSpace - 601⟩ 600 .downward ∧
      Does (fun e => ¬ e.Fast) (memmove .zmm ⟨0, Config.unbounded, 0, 0⟩
        ⟨.first, addressSpace - 600⟩ ⟨.second, addressSpace - 601⟩ 600)
        ⟨⟨0, #[], UInt8.ofNat⟩, []⟩ ∧
      TakesLoop .zmm ⟨0, Config.unbounded, 0, 0⟩ ⟨.first, addressSpace - 1200⟩
        ⟨.second, addressSpace - 600⟩ 600 (.upward true) := by
  have hshift := memmove_takesLoop ⟨.first, addressSpace - 600⟩ ⟨.second, addressSpace - 601⟩ 600
    (by decide) (by decide)
  have hbelow := memmove_takesLoop ⟨.first, addressSpace - 1200⟩ ⟨.second, addressSpace - 600⟩ 600
    (by decide) (by decide)
  refine ⟨by decide, ?_, ?_, ?_⟩
  · exact (hshift.1 _ _ (by decide) (by decide)).1.mpr (by decide)
  · exact (hshift.2.2 (by decide) _).1 _ _
  · exact (hbelow.1 _ _ (by decide) (by decide)).2.2.mpr (by decide)

end ByteRoutines
