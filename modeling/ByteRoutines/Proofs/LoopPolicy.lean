import ByteRoutines.LoopPolicy
import ByteRoutines.Dispatch
import ByteRoutines.Proofs.Config.BulkRanges
import ByteRoutines.Proofs.Config.Overrides

/-!
# Regimes that lie apart

The kernels ask first whether a size is one for string instructions, and then
whether it is one for streaming. The answers never disagree: whatever the
caches are, and whatever is asked for, the range of string instructions is
empty or ends where streaming starts (`Thresholds.Separate`).

Three things give the breakpoints: the caches (`separate_ofCache`), a
threshold text, which is only accepted in order (`separate_withRanges`), and
the policies that replace the range (`repeats_lt_streamStart`). The caches that
count are the processor's own where nothing is asked for and the standard ones
elsewhere (`chooseThresholds_of_nothing` and its neighbours); of whichever
caches, none of the words overflows (`exact_ofCache`).
-/

namespace ByteRoutines

open Cpu (CacheSizes Features)
open Config (BulkRanges Overrides unbounded)

namespace Thresholds

variable {t : Thresholds} {ranges : BulkRanges} {n : Nat}

/-- The policies that the kernels are given. -/
def policies (t : Thresholds) : List LoopPolicy :=
  [.forCopies t, .forRepCopies t, .forFills t, .forRepFills t]

/-- The ranges of string instructions are empty, or end where streaming starts at the latest. -/
structure Separate (t : Thresholds) : Prop where
  copies : t.repCopyStop ≤ t.repCopyStart ∨ t.repCopyStop ≤ t.copyStreamStart
  fills : t.repFillStop ≤ t.repFillStart ∨ t.repFillStop ≤ t.fillStreamStart

theorem separate_ofCache (cache : CacheSizes) (fastRep : Bool) :
    (ofCache cache fastRep).Separate := by
  have hrange : (ofCache cache fastRep).repCopyStop ≤ (ofCache cache fastRep).repCopyStart ∨
      (ofCache cache fastRep).repCopyStop ≤ (ofCache cache fastRep).copyStreamStart := by
    cases fastRep with
    | true => exact Or.inr (UInt64.le_refl (cache.l3 / 4 * 3))
    | false => exact Or.inl (UInt64.le_refl unbounded)
  exact ⟨hrange, hrange⟩

theorem separate_withRanges (h : ranges.repStop ≤ ranges.streamStart) :
    (t.withRanges ranges).Separate := ⟨Or.inr h, Or.inr h⟩

/-- A size is not left to string instructions where their range is empty. -/
theorem repeats_lt_streamStart {policy : LoopPolicy}
    (h : policy.repStop ≤ policy.repStart ∨ policy.repStop ≤ policy.streamStart)
    (hn : policy.repeats n = true) : n < policy.streamStart.toNat := by
  rw [LoopPolicy.repeats, Bool.and_eq_true, decide_eq_true_eq, decide_eq_true_eq] at hn
  rw [UInt64.le_iff_toNat_le, UInt64.le_iff_toNat_le] at h
  omega

theorem Separate.repeats_lt_streamStart (h : t.Separate) {policy : LoopPolicy}
    (hpolicy : policy ∈ t.policies) (hn : policy.repeats n = true) :
    n < policy.streamStart.toNat := by
  refine Thresholds.repeats_lt_streamStart ?_ hn
  simp only [policies, List.mem_cons, List.not_mem_nil, or_false] at hpolicy
  rcases hpolicy with rfl | rfl | rfl | rfl
  · exact h.copies
  · exact Or.inr (UInt64.le_refl _)
  · exact h.fills
  · exact Or.inr (UInt64.le_refl _)

/-- The breakpoints for the caches are what the numbers give, with no word overflowing on the
way. -/
structure Exact (t : Thresholds) (cache : CacheSizes) (fastRep : Bool) : Prop where
  margin : (cache.l2 / 2 + repMargin).toNat = cache.l2.toNat / 2 + 2048
  streamStart : t.copyStreamStart.toNat = cache.l3.toNat / 4 * 3
  prefetchStart : t.prefetchStart = cache.l2
  repStart : t.repCopyStart.toNat =
    if fastRep then cache.l2.toNat / 2 + 2048 else unbounded.toNat
  repStop : t.repCopyStop.toNat = if fastRep then cache.l3.toNat / 4 * 3 else unbounded.toNat
  fills : t.repFillStart = t.repCopyStart ∧ t.repFillStop = t.repCopyStop ∧
    t.fillStreamStart = t.copyStreamStart

theorem toNat_margin (l2 : UInt64) : (l2 / 2 + repMargin).toNat = l2.toNat / 2 + 2048 := by
  have hlt := l2.toNat_lt
  rw [UInt64.toNat_add, UInt64.toNat_div]
  show (l2.toNat / 2 + 2048) % 2 ^ 64 = _
  exact Nat.mod_eq_of_lt (by omega)

theorem toNat_threeQuarters (l3 : UInt64) : (l3 / 4 * 3).toNat = l3.toNat / 4 * 3 := by
  have hlt := l3.toNat_lt
  rw [UInt64.toNat_mul, UInt64.toNat_div]
  show l3.toNat / 4 * 3 % 2 ^ 64 = _
  exact Nat.mod_eq_of_lt (by omega)

theorem exact_ofCache (cache : CacheSizes) (fastRep : Bool) :
    (ofCache cache fastRep).Exact cache fastRep where
  margin := toNat_margin cache.l2
  streamStart := toNat_threeQuarters cache.l3
  prefetchStart := rfl
  repStart := by
    cases fastRep with
    | true => exact toNat_margin cache.l2
    | false => rfl
  repStop := by
    cases fastRep with
    | true => exact toNat_threeQuarters cache.l3
    | false => rfl
  fills := ⟨rfl, rfl, rfl⟩

end Thresholds

/-! ### Which caches count -/

section

variable {features : Features} {overrides : Overrides}

theorem chooseThresholds_of_operations (h : overrides.hasOperations = true) :
    chooseThresholds features overrides = .ofCache .standard features.hasFastRep := by
  rw [chooseThresholds, if_pos h]

theorem chooseThresholds_of_text {ranges : BulkRanges} (h : overrides.hasOperations = false)
    (hranges : overrides.threshold = some ranges) : chooseThresholds features overrides =
      (Thresholds.ofCache .standard features.hasFastRep).withRanges ranges := by
  simp only [chooseThresholds, h, hranges, Bool.false_eq_true, if_false]

theorem chooseThresholds_of_nothing (h : overrides.hasOperations = false)
    (hnone : overrides.threshold = none) :
    chooseThresholds features overrides = .ofCache features.cache features.hasFastRep := by
  simp only [chooseThresholds, h, hnone, Bool.false_eq_true, if_false]

/-- Unless a threshold text counts, the thresholds are those of some caches. -/
theorem exists_cache_of_no_text (h : overrides.hasOperations = true ∨ overrides.threshold = none) :
    ∃ cache, chooseThresholds features overrides = .ofCache cache features.hasFastRep := by
  cases hoperations : overrides.hasOperations with
  | true => exact ⟨_, chooseThresholds_of_operations hoperations⟩
  | false =>
    have hnone : overrides.threshold = none := by simpa [hoperations] using h
    exact ⟨_, chooseThresholds_of_nothing hoperations hnone⟩

theorem separate_chooseThresholds
    (h : ∀ ranges, overrides.threshold = some ranges → ranges.repStop ≤ ranges.streamStart) :
    (chooseThresholds features overrides).Separate := by
  by_cases htext : overrides.hasOperations = true ∨ overrides.threshold = none
  · obtain ⟨cache, hcache⟩ : ∃ cache,
        chooseThresholds features overrides = .ofCache cache features.hasFastRep :=
      exists_cache_of_no_text htext
    rw [hcache]
    exact Thresholds.separate_ofCache cache features.hasFastRep
  · obtain ⟨hoperations, hsome⟩ := not_or.mp htext
    obtain ⟨ranges, hranges⟩ := Option.ne_none_iff_exists'.mp hsome
    rw [chooseThresholds_of_text (Bool.eq_false_iff.mpr hoperations) hranges]
    exact Thresholds.separate_withRanges (h ranges hranges)

end

/-- What a user has asked for in the two settings, and for single operations after that. -/
def askedFor (operations threshold : Option String) (later : List (Operation × Variant)) :
    Overrides :=
  (Overrides.ofValues operations threshold).1.setAll later

/-- What the thresholds of a process say about the sizes for string instructions, and which caches
they come from. Whichever these are, no word overflows on the way (`Exact`). -/
structure RegimesApart (features : Features) (overrides : Overrides) (t : Thresholds) : Prop where
  /-- A size for string instructions is none for streaming. -/
  apart : ∀ policy ∈ t.policies, ∀ n, policy.repeats n = true → n < policy.streamStart.toNat
  copies : ∀ n, (LoopPolicy.forCopies t).repeats n = t.repCopies n
  fills : ∀ n, (LoopPolicy.forFills t).repeats n = t.repFills n
  /-- Where string instructions are slow, they are left out unless a threshold text counts. -/
  slow : features.hasFastRep = false →
    overrides.hasOperations = true ∨ overrides.threshold = none →
      ∀ n, (LoopPolicy.forCopies t).repeats n = false ∧ (LoopPolicy.forFills t).repeats n = false
  /-- Under an operation override, the breakpoints are those of the standard caches. -/
  pinned : overrides.hasOperations = true →
    t = .ofCache .standard features.hasFastRep ∧ t.Exact .standard features.hasFastRep
  /-- A threshold text puts its ranges in their place. -/
  replaced : overrides.hasOperations = false → ∀ ranges, overrides.threshold = some ranges →
    t = (Thresholds.ofCache .standard features.hasFastRep).withRanges ranges ∧
      (Thresholds.ofCache .standard features.hasFastRep).Exact .standard features.hasFastRep
  /-- Where nothing is asked for, they are those of the caches that the processor has. -/
  measured : overrides.hasOperations = false → overrides.threshold = none →
    t = .ofCache features.cache features.hasFastRep ∧ t.Exact features.cache features.hasFastRep

theorem repeats_eq_false_of_slow (cache : CacheSizes) (n : Nat) :
    (LoopPolicy.forCopies (.ofCache cache false)).repeats n = false ∧
      (LoopPolicy.forFills (.ofCache cache false)).repeats n = false := by
  -- The range starts where it stops, so that not even the largest word lies in it.
  have hempty : (decide (unbounded.toNat ≤ n) && decide (n < unbounded.toNat)) = false := by
    rw [Bool.and_eq_false_iff, decide_eq_false_iff_not, decide_eq_false_iff_not]
    omega
  exact ⟨hempty, hempty⟩

/-- **The sizes for string instructions and those for streaming lie apart**, for every processor,
any two settings and whatever is asked for after them. -/
theorem regimes_apart (features : Features) (operations threshold : Option String)
    (later : List (Operation × Variant)) :
    RegimesApart features (askedFor operations threshold later)
      (chooseThresholds features (askedFor operations threshold later)) where
  apart policy hpolicy n hn := by
    refine (separate_chooseThresholds fun ranges hranges => ?_).repeats_lt_streamStart hpolicy hn
    rw [askedFor, Overrides.threshold_setAll] at hranges
    obtain ⟨text, hparse⟩ := Overrides.exists_text_of_threshold hranges
    exact (BulkRanges.ordered_of_parse hparse).2
  copies _ := rfl
  fills _ := rfl
  slow hslow hasked n := by
    obtain ⟨cache, hcache⟩ := exists_cache_of_no_text hasked
    rw [hcache, hslow]
    exact repeats_eq_false_of_slow cache n
  pinned hoperations := by
    rw [chooseThresholds_of_operations hoperations]
    exact ⟨rfl, Thresholds.exact_ofCache _ _⟩
  replaced hoperations ranges hranges :=
    ⟨chooseThresholds_of_text hoperations hranges, Thresholds.exact_ofCache _ _⟩
  measured hoperations hnone := by
    rw [chooseThresholds_of_nothing hoperations hnone]
    exact ⟨rfl, Thresholds.exact_ofCache _ _⟩

/-- A threshold text makes string instructions count where they are slow, up to the size at which
streaming starts. Without it they count for no size, not even the largest. -/
theorem regimes_apart_baseline :
    (LoopPolicy.forCopies (chooseThresholds .baseline (askedFor none
        (some " [0,2048):[2048,1048576):[1048576,-1)") []))).repeats 1048575 = true ∧
      1048575 < (LoopPolicy.forCopies (chooseThresholds .baseline (askedFor none
        (some " [0,2048):[2048,1048576):[1048576,-1)") []))).streamStart.toNat ∧
      (LoopPolicy.forFills (chooseThresholds .baseline (askedFor none none
        [(.memset, .avx2)]))).repeats 0xFFFFFFFFFFFFFFFF = false := by
  have hrepeats : (LoopPolicy.forCopies (chooseThresholds .baseline (askedFor none
      (some " [0,2048):[2048,1048576):[1048576,-1)") []))).repeats 1048575 = true := by decide
  have hread := regimes_apart .baseline none (some " [0,2048):[2048,1048576):[1048576,-1)") []
  have hset := regimes_apart .baseline none none [(.memset, .avx2)]
  refine ⟨hrepeats, hread.apart _ List.mem_cons_self 1048575 hrepeats, ?_⟩
  exact (hset.slow (by decide) (Or.inl (by decide)) 0xFFFFFFFFFFFFFFFF).2

end ByteRoutines
