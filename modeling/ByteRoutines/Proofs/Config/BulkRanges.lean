import ByteRoutines.Config.BulkRanges
import ByteRoutines.Proofs.Config.Reading

/-!
# Ranges that are in order

A threshold text is only accepted if its ranges follow one another, the last
one without an end. What is left of it keeps this order: string instructions
stop, at the latest, where streaming starts.
-/

namespace ByteRoutines.Config

theorem inOrder_iff {vector rep streaming : SizeRange} : inOrder vector rep streaming = true ↔
    vector.start ≤ vector.stop ∧ vector.stop ≤ rep.start ∧ rep.start ≤ rep.stop ∧
      rep.stop ≤ streaming.start := by
  simp only [inOrder, Bool.and_eq_true, decide_eq_true_eq, and_assoc]

/-- What is accepted consists of three ranges, and says where two of them start and stop. -/
theorem BulkRanges.parse_ok {raw : String} {ranges : BulkRanges}
    (h : BulkRanges.parse raw = .ok ranges) : ∃ vector rep streaming,
      ((raw.toList.splitOn ':').take 3).mapM (readRange raw) = .ok [vector, rep, streaming] ∧
        (raw.toList.splitOn ':').drop 3 = [] ∧ streaming.stop = unbounded ∧
        inOrder vector rep streaming = true ∧
        ranges = ⟨rep.start, rep.stop, streaming.start⟩ := by
  obtain ⟨list, hread, h⟩ := exists_of_bind_ok h
  split at h
  · rename_i vector rep streaming hrest
    split at h
    · cases h
    · rename_i hstop
      split at h
      · rename_i horder
        cases h
        exact ⟨vector, rep, streaming, hread, hrest, Decidable.not_not.mp hstop, horder, rfl⟩
      · cases h
  · cases h

/-- **The ranges of an accepted text are in order.** -/
theorem BulkRanges.ordered_of_parse {raw : String} {ranges : BulkRanges}
    (h : BulkRanges.parse raw = .ok ranges) :
    ranges.repStart ≤ ranges.repStop ∧ ranges.repStop ≤ ranges.streamStart := by
  obtain ⟨vector, rep, streaming, _, _, _, horder, rfl⟩ := BulkRanges.parse_ok h
  exact (inOrder_iff.mp horder).2.2

end ByteRoutines.Config
