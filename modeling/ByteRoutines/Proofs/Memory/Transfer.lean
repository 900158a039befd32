import ByteRoutines.Proofs.Memory.Region
import ByteRoutines.Proofs.Run

/-!
# Moving regions

`MayLoad` and `MayStore` allow all accesses within a region. Under them,
`answers_gather` says that gathering spans takes a snapshot of the region, and
`ends_scatter` that scattering a snapshot whose spans cover a region replaces
that region by it. The two together make a copy between any two regions
(`ends_transfer`), since every load is made before the first store.

A scan does not know how far it may read, and keeps to the page of a byte that
it has come to. `MayLoadPage` allows that.

`Writes` is what a caller sees of a run that replaces a region: the bytes of
the region afterwards, and that no other byte has changed.
-/

namespace ByteRoutines.Exec

variable {ok : Event → Prop} {m : Memory} {mode : Mode} {p dst src : Pointer} {n : Nat}
  {spans : List Span} {f : Nat → UInt8}

/-- Every load in this mode that stays within the `n` bytes at `p` is allowed. -/
def MayLoad (ok : Event → Prop) (mode : Mode) (p : Pointer) (n : Nat) : Prop :=
  ∀ off length, off + length ≤ n → ok (.load mode (p + off) length)

/-- Every store in this mode that stays within the `n` bytes at `p` is allowed. -/
def MayStore (ok : Event → Prop) (mode : Mode) (p : Pointer) (n : Nat) : Prop :=
  ∀ off length, off + length ≤ n → ok (.store mode (p + off) length)

theorem MayLoad.part {off n' : Nat} (h : MayLoad ok mode p n) (hle : off + n' ≤ n) :
    MayLoad ok mode (p + off) n' := by
  intro off' length hlen
  rw [Pointer.add_add]
  exact h _ _ (by omega)

theorem MayStore.part {off n' : Nat} (h : MayStore ok mode p n) (hle : off + n' ≤ n) :
    MayStore ok mode (p + off) n' := by
  intro off' length hlen
  rw [Pointer.add_add]
  exact h _ _ (by omega)

theorem MayLoad.take {n' : Nat} (h : MayLoad ok mode p n) (hle : n' ≤ n) : MayLoad ok mode p n' :=
  fun off length hlen => h off length (by omega)

theorem MayStore.take {n' : Nat} (h : MayStore ok mode p n) (hle : n' ≤ n) :
    MayStore ok mode p n' :=
  fun off length hlen => h off length (by omega)

/-- The pieces stand at these spans and hold the bytes of `f`. -/
structure Snapshot (spans : List Span) (f : Nat → UInt8) (pieces : List Piece) : Prop where
  map_span : pieces.map Piece.span = spans
  holds : ∀ piece ∈ pieces, piece.Holds f

theorem runs_gather (halign : ∀ span ∈ spans, Aligned mode (src + span.offset) span.length)
    (hok : ∀ span ∈ spans, ok (.load mode (src + span.offset) span.length)) :
    Runs ok (gather mode src spans) m (m.readPieces src.address spans) m := by
  induction spans with
  | nil => exact runs_pure _
  | cons span rest ih =>
    rw [gather]
    refine (runs_load (halign span (by simp)) (hok span (by simp))).bind ?_
    refine (ih (fun s hs => halign s (by simp [hs])) (fun s hs => hok s (by simp [hs]))).bind ?_
    exact runs_pure _

theorem runs_scatter {pieces : List Piece}
    (halign : ∀ piece ∈ pieces, Aligned mode (dst + piece.span.offset) piece.span.length)
    (hok : ∀ piece ∈ pieces, ok (.store mode (dst + piece.span.offset) piece.span.length)) :
    Runs ok (scatter mode dst pieces) m () (m.writePieces dst.address pieces) := by
  induction pieces generalizing m with
  | nil => exact runs_pure _
  | cons piece rest ih =>
    rw [scatter]
    refine (runs_store (halign piece (by simp)) (hok piece (by simp))).bind ?_
    exact ih (fun p hp => halign p (by simp [hp])) (fun p hp => hok p (by simp [hp]))

/-- Gathering takes a snapshot: `f` says what the memory holds at the spans. -/
theorem answers_gather (hcover : Covers spans n)
    (halign : ∀ span ∈ spans, Aligned mode (src + span.offset) span.length)
    (hok : MayLoad ok mode src n) (hf : ∀ i < n, m.get (src.address + i) = f i) :
    Answers ok (gather mode src spans) m (Snapshot spans f) := by
  refine (runs_gather halign fun span hspan => hok _ _ (hcover.within span hspan)).ends ⟨rfl, ?_⟩
  refine ⟨Memory.map_span_readPieces m _ spans, Memory.holds_readPieces ?_⟩
  intro span hspan i hi
  have := hcover.within span hspan
  exact hf _ (by omega)

/-- Scattering a snapshot replaces the region that its spans cover. -/
theorem ends_scatter {pieces : List Piece} (hsnap : Snapshot spans f pieces)
    (hcover : Covers spans n)
    (halign : ∀ span ∈ spans, Aligned mode (dst + span.offset) span.length)
    (hok : MayStore ok mode dst n) :
    Ends ok (scatter mode dst pieces) m fun _ m' => m.Replaced m' dst.address 0 n f := by
  obtain ⟨rfl, hholds⟩ := hsnap
  have hmem : ∀ piece ∈ pieces, piece.span ∈ pieces.map Piece.span := fun piece hpiece =>
    List.mem_map_of_mem hpiece
  refine (runs_scatter (fun piece hpiece => halign _ (hmem piece hpiece))
    (fun piece hpiece => hok _ _ (hcover.within _ (hmem piece hpiece)))).ends ?_
  exact Memory.replaced_writePieces hcover hholds

theorem ends_fill {value : UInt8} (hcover : Covers spans n)
    (halign : ∀ span ∈ spans, Aligned mode (dst + span.offset) span.length)
    (hok : MayStore ok mode dst n) :
    Ends ok (fill mode dst value spans) m fun _ m' =>
      m.Replaced m' dst.address 0 n fun _ => value := by
  refine ends_scatter ⟨?_, ?_⟩ hcover halign hok
  · rw [List.map_map]
    exact List.map_id spans
  · intro piece hpiece i hi
    obtain ⟨span, _, rfl⟩ := List.mem_map.mp hpiece
    exact Vector.getElem_replicate hi

/-- **A transfer copies between any two regions**, overlapping or not. -/
theorem ends_transfer (hcover : Covers spans n) (hmode : mode.needsAlignment = false)
    (hload : MayLoad ok mode src n) (hstore : MayStore ok mode dst n) :
    Ends ok (transfer mode dst src spans) m fun _ m' =>
      m.Replaced m' dst.address 0 n fun i => m.get (src.address + i) := by
  refine (answers_gather hcover (fun _ _ => aligned_of_not_needsAlignment hmode) hload
    fun _ _ => rfl).bind fun pieces hsnap => ?_
  exact ends_scatter hsnap hcover (fun _ _ => aligned_of_not_needsAlignment hmode) hstore

theorem ends_storeByte {byte : UInt8} (hok : ok (.store .plain p 1)) :
    Ends ok (storeByte p byte) m fun _ m' => m.Replaced m' p.address 0 1 fun _ => byte := by
  refine (runs_store (aligned_of_not_needsAlignment rfl) hok).ends ?_
  refine Memory.replaced_write fun i hi => ?_
  obtain rfl : i = 0 := by omega
  rfl

/-! ### Pages -/

/-- Every load that starts at `p` or later and stays in the page of `p` is allowed. -/
def MayLoadPage (ok : Event → Prop) (p : Pointer) : Prop :=
  ∀ mode, MayLoad ok mode p (roomInPage p.address)

theorem roomInPage_add {a off : Nat} (hoff : off < roomInPage a) :
    roomInPage (a + off) = roomInPage a - off := by
  simp only [roomInPage, pageSize] at *
  omega

theorem MayLoadPage.add {off : Nat} (h : MayLoadPage ok p) (hoff : off < roomInPage p.address) :
    MayLoadPage ok (p + off) := by
  intro mode off' length hlen
  rw [Pointer.address_add, roomInPage_add hoff] at hlen
  rw [Pointer.add_add]
  exact h mode (off + off') length (by omega)

theorem MayLoadPage.loadByte (h : MayLoadPage ok p) : ok (.load .plain p 1) :=
  h .plain 0 1 (roomInPage_pos p.address)

/-! ### Results -/

/-- Run from `s`, `x` ends with this value; the `n` bytes at `a` are then those of `f`, and every
other byte is as it was. -/
def Writes (x : Exec Pointer) (s : Machine) (value : Pointer) (a n : Nat) (f : Nat → UInt8) :
    Prop :=
  ∃ s', x s = .ok value s' ∧ (∀ i < n, s'.memory.get (a + i) = f i) ∧
    ∀ b, b < a ∨ a + n ≤ b → s'.memory.get b = s.memory.get b

theorem Ends.writes {x : Exec Pointer} {s : Machine} {value : Pointer} {a : Nat}
    (h : Ends ok x s.memory fun p m' => p = value ∧ s.memory.Replaced m' a 0 n f) :
    Writes x s value a n f := by
  obtain ⟨p, s', hrun, rfl, hrep⟩ := h.exists_run
  exact ⟨s', hrun, fun i hi => hrep.inside i (Nat.zero_le i) hi, hrep.outside⟩

end ByteRoutines.Exec
