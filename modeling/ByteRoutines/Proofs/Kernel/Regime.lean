import ByteRoutines.Kernel.Regime
import ByteRoutines.Proofs.Register.Kind

/-!
# Directions and offsets

Distances modulo 2^64 tell how two regions lie to each other, as long as the
regions do not run past the last address: `le_distance_iff`. So the direction
that is chosen for a copy is one in which it can run (`upwardSafe_of_choose`,
`le_of_choose_downward`).

The loops start and stop at offsets where the destination is aligned.
-/

namespace ByteRoutines.Kernel

/-- The regions have no byte in common. -/
def Apart (a b n : Nat) : Prop := a + n ≤ b ∨ b + n ≤ a

instance (a b n : Nat) : Decidable (Apart a b n) :=
  inferInstanceAs (Decidable (a + n ≤ b ∨ b + n ≤ a))

/-- No byte of the source is overwritten before it is read, if bytes are copied from the lowest
address on. -/
def UpwardSafe (dst src n : Nat) : Prop := dst ≤ src ∨ src + n ≤ dst

theorem Apart.upwardSafe {dst src n : Nat} (h : Apart dst src n) : UpwardSafe dst src n := by
  simp only [Apart, UpwardSafe] at *
  omega

theorem distance_eq {a b : Nat} (ha : a < addressSpace) (hb : b < addressSpace) :
    distance a b = if b ≤ a then a - b else addressSpace - b + a := by
  simp only [addressSpace] at *
  simp only [distance, BitVec.toNat_sub, BitVec.toNat_ofNat]
  split <;> omega

/-- Of two regions below the end of the address space, one starts `n` bytes or more after the
other, going upwards around the circle of addresses, where it starts below it or past its end. -/
theorem le_distance_iff {a b n : Nat} (hn : 0 < n) (ha : a + n ≤ addressSpace)
    (hb : b + n ≤ addressSpace) : n ≤ distance a b ↔ a < b ∨ b + n ≤ a := by
  rw [distance_eq (by omega) (by omega)]
  split <;> omega

variable {dst src n : Nat}

theorem upwardSafe_of_choose {disjoint : Bool} (hn : 0 < n) (hdst : dst + n ≤ addressSpace)
    (hsrc : src + n ≤ addressSpace) (h : Direction.choose dst src n = .upward disjoint) :
    UpwardSafe dst src n ∧ (disjoint = true → Apart dst src n) := by
  simp only [Direction.choose, le_distance_iff hn hdst hsrc, le_distance_iff hn hsrc hdst] at h
  split at h
  · cases h
    simp only [UpwardSafe, Apart, decide_eq_true_eq]
    omega
  · cases h

theorem le_of_choose_downward (hn : 0 < n) (hdst : dst + n ≤ addressSpace)
    (hsrc : src + n ≤ addressSpace) (h : Direction.choose dst src n = .downward) : src ≤ dst := by
  simp only [Direction.choose, le_distance_iff hn hdst hsrc] at h
  split at h
  · cases h
  · omega

/-! ### Which instructions a copy uses -/

variable (k : RegisterKind)

/-- String instructions and streaming stores are for regions that have no byte in common. -/
theorem disjoint_of_choose {policy : LoopPolicy} {disjoint : Bool}
    (h : CopyRegime.choose k policy disjoint dst src n = .repeated ∨
      CopyRegime.choose k policy disjoint dst src n = .streaming) : disjoint = true := by
  cases disjoint with
  | true => rfl
  | false =>
    simp only [CopyRegime.choose, Bool.false_and, Bool.false_eq_true, if_false] at h
    split at h
    · simp at h
    · split at h <;> simp at h

/-- Loads are aligned only where source and destination are equally misaligned. -/
theorem mod_eq_of_choose {policy : LoopPolicy} {disjoint : Bool}
    (h : (CopyRegime.choose k policy disjoint dst src n).loadMode.needsAlignment = true) :
    src % k.width = dst % k.width := by
  unfold CopyRegime.choose at h
  split at h
  · cases h
  split at h
  · cases h
  split at h
  · cases h
  split at h
  · assumption
  · cases h

/-- Of the regimes with a loop, only streaming uses more than plain and aligned accesses. -/
theorem eq_streaming_of_mode {regime : CopyRegime} {mode : Mode} (hregime : regime ≠ .repeated)
    (hmode : mode = regime.loadMode ∨ mode = regime.storeMode)
    (hkind : mode = .repeated ∨ mode = .streaming) : regime = .streaming := by
  rcases hmode with rfl | rfl <;> cases regime <;>
    simp_all [CopyRegime.loadMode, CopyRegime.storeMode]

theorem add_mod_eq_zero_of_congruent {a b off w : Nat} (h : a % w = b % w)
    (hb : (b + off) % w = 0) : (a + off) % w = 0 := by
  rw [Nat.add_mod, h, ← Nat.add_mod, hb]

/-! ### Where the loops start and stop -/

theorem alignedStart_le (dst : Nat) : alignedStart k dst ≤ k.blockSize := Nat.sub_le _ _

theorem add_alignedStart_mod (dst : Nat) : (dst + alignedStart k dst) % k.width = 0 := by
  cases k <;> simp only [alignedStart, RegisterKind.blockSize, RegisterKind.width] <;> omega

theorem alignedStop_le (dst n : Nat) : alignedStop k dst n ≤ n := Nat.sub_le _ _

theorem lt_alignedStop_add (dst n : Nat) : n < alignedStop k dst n + k.width := by
  have := Nat.mod_lt (dst + n) k.width_pos
  simp only [alignedStop]
  omega

theorem add_alignedStop_mod (h : k.width ≤ n) : (dst + alignedStop k dst n) % k.width = 0 := by
  cases k <;> simp only [alignedStop, RegisterKind.width] at * <;> omega

end ByteRoutines.Kernel
