import ByteRoutines.Register.Access
import ByteRoutines.Proofs.Register.Kind
import ByteRoutines.Proofs.Register.Compare

/-!
# Loading registers

A loaded register shows the bytes of memory from its address on. What is
loaded from one page is allowed by `MayLoadPage`: aligned registers are, and
so is the head of a region (`answers_loadHead`).
-/

namespace ByteRoutines

namespace RegisterKind

open Exec

variable {k : RegisterKind} {ok : Event → Prop} {m : Memory} {mode : Mode} {p : Pointer}
  {n : Nat} {f : Nat → UInt8}

theorem shows_read (m : Memory) (a n : Nat) : Shows (fun i => m.get (a + i)) n (m.read a n) := by
  intro i hi
  rw [lane_eq _ hi, Memory.getElem_read]

theorem answers_load_register (halign : Aligned mode p k.width)
    (hok : ok (.load mode p k.width)) :
    Answers ok (Exec.load mode p k.width) m
      (Shows (fun i => m.get (p.address + i)) k.width) :=
  (runs_load halign hok).ends ⟨rfl, shows_read m p.address k.width⟩

/-- A register that lies in one page. -/
theorem load_of_mayLoadPage (hroom : k.width ≤ roomInPage p.address) (hok : MayLoadPage ok p) :
    ok (.load mode p k.width) :=
  hok mode 0 k.width (by omega)

theorem answers_load (hroom : k.width ≤ roomInPage p.address) (hok : MayLoadPage ok p) :
    Answers ok (k.load p) m (Shows (fun i => m.get (p.address + i)) k.width) :=
  answers_load_register (aligned_of_not_needsAlignment rfl) (load_of_mayLoadPage hroom hok)

theorem answers_load_add {off : Nat} (hroom : off + k.width ≤ roomInPage p.address)
    (hok : MayLoadPage ok p) :
    Answers ok (k.load (p + off)) m (Shows (fun i => m.get ((p + off).address + i)) k.width) := by
  have hin : off < roomInPage p.address := by
    have := k.width_pos
    omega
  refine answers_load ?_ (hok.add hin)
  rw [Pointer.address_add, roomInPage_add hin]
  omega

theorem answers_loadAligned (halign : p.address % k.width = 0) (hok : MayLoadPage ok p) :
    Answers ok (k.loadAligned p) m (Shows (fun i => m.get (p.address + i)) k.width) :=
  answers_load_register (fun _ => halign)
    (load_of_mayLoadPage (k.width_le_roomInPage halign) hok)

/-! ### Parts of a register -/

theorem partMode_needsAlignment (k : RegisterKind) : k.partMode.needsAlignment = false := by
  cases k <;> rfl

theorem covers_shortSpans (k : RegisterKind) {n : Nat} (h : n < k.width) :
    Covers (k.shortSpans n) n := by
  have hle := k.width_le
  cases k with
  | gpr => exact covers_cascade (by omega)
  | xmm => exact covers_cascade (by omega)
  | ymm =>
    simp only [shortSpans, width] at *
    split
    · apply covers_spansAt <;> simp <;> omega
    · exact covers_cascade (by omega)
  | zmm => exact covers_whole n

theorem covers_partSpans (k : RegisterKind) {n : Nat} (h : n < k.width) :
    Covers (k.partSpans n) n := by
  have hle := k.width_le
  cases k with
  | zmm => exact covers_whole n
  | gpr => exact covers_cascade (by omega)
  | xmm => exact covers_cascade (by omega)
  | ymm => exact covers_cascade (by omega)

theorem shows_assemble {pieces : List Piece} (hn : n < k.width)
    (hsnap : Snapshot (k.partSpans n) f pieces) : Shows f n (k.assemble pieces) := by
  have hcover : Covers (pieces.map Piece.span) n := hsnap.map_span ▸ k.covers_partSpans hn
  have hrep := Memory.replaced_writePieces (m := Memory.zeroed 0 64) (a := 0) hcover hsnap.holds
  intro i hi
  rw [assemble, shows_read _ _ _ i (by omega)]
  exact hrep.inside i (Nat.zero_le i) hi

/-- A part of a register is loaded exactly: nothing beyond its `n` bytes is accessed. -/
theorem answers_loadPartial (hn : n < k.width) (hok : MayLoad ok k.partMode p n) :
    Answers ok (k.loadPartial p n) m (Shows (fun i => m.get (p.address + i)) n) := by
  rw [loadPartial, requireLength_of (by simpa using hn)]
  refine (answers_gather (k.covers_partSpans hn)
    (fun _ _ => aligned_of_not_needsAlignment k.partMode_needsAlignment) hok
    fun _ _ => rfl).bind fun pieces hsnap => ?_
  exact answers_pure (shows_assemble hn hsnap)

theorem snapshot_disassemble {v : Register k} {spans : List Span} (hcover : Covers spans n)
    (hn : n ≤ k.width) (hv : Shows f n v) : Snapshot spans f (k.disassemble v spans) := by
  refine ⟨Memory.map_span_readPieces _ _ _, Memory.holds_readPieces fun span hspan i hi => ?_⟩
  have hin := hcover.within span hspan
  rw [Memory.get_write_inside (by omega), ← lane_eq v]
  exact hv _ (by omega)

theorem ends_store {v : Register k} (hv : Shows f k.width v) (hok : MayStore ok .plain p k.width) :
    Ends ok (k.store p v) m fun _ m' => m.Replaced m' p.address 0 k.width f := by
  refine (runs_store (aligned_of_not_needsAlignment rfl) (hok 0 k.width (by omega))).ends ?_
  exact Memory.replaced_write fun i hi => by rw [← lane_eq v hi, hv i hi]

theorem ends_storePartial {v : Register k} (hn : n < k.width) (hv : Shows f n v)
    (hok : MayStore ok k.partMode p n) :
    Ends ok (k.storePartial p v n) m fun _ m' => m.Replaced m' p.address 0 n f := by
  rw [storePartial, requireLength_of (by simpa using hn)]
  refine (runs_pure ()).bind ?_
  exact ends_scatter (snapshot_disassemble (k.covers_partSpans hn) (Nat.le_of_lt hn) hv)
    (k.covers_partSpans hn) (fun _ _ => aligned_of_not_needsAlignment k.partMode_needsAlignment) hok

/-- The first `n` bytes of a register replace those in memory, and no other. -/
theorem ends_storePrefix {v : Register k} (hpos : 0 < n) (hn : n ≤ k.width) (hv : Shows f n v)
    (hok : ∀ mode, MayStore ok mode p n) :
    Ends ok (k.storePrefix p v n) m fun _ m' => m.Replaced m' p.address 0 n f := by
  have hlength : (decide (1 ≤ n) && decide (n ≤ k.width)) = true := by
    rw [Bool.and_eq_true, decide_eq_true_eq, decide_eq_true_eq]
    exact ⟨hpos, hn⟩
  rw [storePrefix, requireLength_of hlength]
  refine (runs_pure ()).bind ?_
  split
  · rename_i hwhole
    subst hwhole
    exact ends_store hv (hok .plain)
  · rename_i hpart
    exact ends_storePartial (by omega) hv (hok k.partMode)

/-- A copy of fewer bytes than a register holds. -/
theorem ends_copyShort {dst src : Pointer} (hn : n < k.width) (hload : MayLoad ok k.partMode src n)
    (hstore : MayStore ok k.partMode dst n) :
    Ends ok (k.copyShort dst src n) m fun _ m' =>
      m.Replaced m' dst.address 0 n fun i => m.get (src.address + i) := by
  rw [copyShort, requireLength_of (by simpa using hn)]
  exact ends_transfer (k.covers_shortSpans hn) k.partMode_needsAlignment hload hstore

theorem ends_setShort {value : UInt8} (hn : n < k.width) (hok : MayStore ok k.partMode p n) :
    Ends ok (k.setShort p value n) m fun _ m' => m.Replaced m' p.address 0 n fun _ => value := by
  rw [setShort, requireLength_of (by simpa using hn)]
  exact ends_fill (k.covers_shortSpans hn)
    (fun _ _ => aligned_of_not_needsAlignment k.partMode_needsAlignment) hok

/-- The head of a region shows the bytes up to the next boundary at least, and stays in the page
of the first one. -/
theorem answers_loadHead (hok : MayLoadPage ok p) :
    Answers ok (k.loadHead p) m fun head => k.toBoundary p.address ≤ head.2 ∧
      head.2 ≤ k.width ∧ Shows (fun i => m.get (p.address + i)) head.2 head.1 := by
  unfold loadHead
  split
  · rename_i hroom
    refine (answers_load hroom hok).bind fun v hv => ?_
    exact answers_pure ⟨k.toBoundary_le p.address, Nat.le_refl _, hv⟩
  · rename_i hroom
    have hmod : p.address % k.width ≠ 0 := fun hzero => hroom (k.width_le_roomInPage hzero)
    have hlt : k.toBoundary p.address < k.width := by
      have := k.width_pos
      simp only [toBoundary]
      omega
    refine (answers_loadPartial hlt ((hok k.partMode).take
      (k.toBoundary_le_roomInPage p.address))).bind fun v hv => ?_
    exact answers_pure ⟨Nat.le_refl _, by omega, hv⟩

end RegisterKind

end ByteRoutines
