import ByteRoutines.Proofs.Kernel.AtOnce

/-!
# Copies of overlapping regions

A small copy makes every load before its first store (`LoadsFirst`), so no byte
of the source is overwritten before it has been read, wherever the destination
lies. That leaves two things to ask of a class of sizes: that its accesses stay
within the region, and that together they leave no byte of it out.

`smallCopies_moveAtOnce` says so of each way in which a region of up to eight
registers is copied: by scalar accesses, by parts of a register, and by whole
registers from both ends.
-/

namespace ByteRoutines

open Exec Kernel

namespace Event

def IsLoad : Event → Prop
  | load _ _ _ => True
  | _ => False

def IsStore : Event → Prop
  | store _ _ _ => True
  | _ => False

end Event

namespace Exec

variable {α β : Type} {x : Exec α} {f : α → Exec β} {s : Machine} {m' : Memory} {mode : Mode}
  {dst src : Pointer} {n : Nat} {spans : List Span}

/-- Run from `s`, `x` ends, and all that it does is to load, and then to store. The events of a
machine stand in the opposite order. -/
def LoadsFirst (x : Exec α) (s : Machine) : Prop :=
  ∃ v s' loads stores, x s = .ok v s' ∧ s'.events = stores ++ (loads ++ s.events) ∧
    (∀ e ∈ loads, e.IsLoad) ∧ ∀ e ∈ stores, e.IsStore

/-- Run from `s`, `x` ends. It makes every load before its first store; the `n` bytes at `dst` are
then those that stood at `src` before, and every other byte is as it was. -/
structure MovesAtOnce (x : Exec Unit) (s : Machine) (dst src n : Nat) : Prop where
  order : LoadsFirst x s
  result : ∃ s', x s = .ok () s' ∧ (∀ i < n, s'.memory.get (dst + i) = s.memory.get (src + i)) ∧
    ∀ a, a < dst ∨ dst + n ≤ a → s'.memory.get a = s.memory.get a

/-- A step that loads, followed by one that stores. -/
theorem Runs.loadsFirst {value : α} {post : β → Memory → Prop}
    (hx : Runs Event.IsLoad x s.memory value m') (hf : Ends Event.IsStore (f value) m' post) :
    LoadsFirst (x >>= f) s := by
  obtain ⟨_, _, loads, hloadRun, hloads, rfl, rfl⟩ := hx s.events
  obtain ⟨w, m'', stores, hstoreRun, hstores, _⟩ := hf (loads ++ s.events)
  refine ⟨w, ⟨m'', stores ++ (loads ++ s.events)⟩, loads, stores, ?_, rfl, hloads, hstores⟩
  have hfirst : x s = _ := hloadRun
  rw [bind_apply, hfirst]
  exact hstoreRun

/-- A transfer gathers all spans before it scatters any, whether or not they overlap. -/
theorem loadsFirst_transfer (hmode : mode.needsAlignment = false) :
    LoadsFirst (transfer mode dst src spans) s := by
  have halign : ∀ p length, Aligned mode p length := fun _ _ =>
    aligned_of_not_needsAlignment hmode
  have hgather : Runs Event.IsLoad (gather mode src spans) s.memory
      (s.memory.readPieces src.address spans) s.memory :=
    runs_gather (fun _ _ => halign _ _) fun _ _ => trivial
  exact hgather.loadsFirst (runs_scatter (fun _ _ => halign _ _) fun _ _ => trivial)

theorem movesAtOnce_transfer (hcover : Covers spans n) (hmode : mode.needsAlignment = false) :
    MovesAtOnce (transfer mode dst src spans) s dst.address src.address n where
  order := loadsFirst_transfer hmode
  result := by
    have hends : Ends (fun _ => True) (transfer mode dst src spans) s.memory fun _ m' =>
        s.memory.Replaced m' dst.address 0 n fun i => s.memory.get (src.address + i) :=
      ends_transfer hcover hmode (fun _ _ _ => trivial) fun _ _ _ => trivial
    obtain ⟨_, s', hrun, hrep⟩ := hends.exists_run
    exact ⟨s', hrun, fun i hi => hrep.inside i (Nat.zero_le i) hi, hrep.outside⟩

end Exec

namespace Kernel

variable {k : RegisterKind} {s : Machine} {dst src : Pointer} {n : Nat}

theorem movesAtOnce_copyShort (hn : n < k.width) :
    MovesAtOnce (k.copyShort dst src n) s dst.address src.address n := by
  rw [RegisterKind.copyShort, requireLength_of (by simpa using hn)]
  exact movesAtOnce_transfer (k.covers_shortSpans hn) k.partMode_needsAlignment

theorem movesAtOnce_copyAtOnce (hn : n ≤ 8 * k.width) :
    MovesAtOnce (copyAtOnce k dst src n) s dst.address src.address n := by
  unfold copyAtOnce
  split
  · rename_i hshort
    exact movesAtOnce_copyShort hshort
  · exact movesAtOnce_transfer (covers_coverSpans (by omega) hn) rfl

/-- **Small copies are right for any two regions, however they overlap**: scalar copies of fewer
than 64 bytes, and in every width copies of less than a register and of up to eight of them. -/
theorem smallCopies_moveAtOnce (s : Machine) (dst src : Pointer) (n : Nat) :
    (n < 64 → MovesAtOnce (transfer .plain dst src (cascade n)) s dst.address src.address n) ∧
      (∀ k : RegisterKind, n < k.width →
        MovesAtOnce (k.copyShort dst src n) s dst.address src.address n) ∧
      ∀ k : RegisterKind, n ≤ 8 * k.width →
        MovesAtOnce (copyAtOnce k dst src n) s dst.address src.address n := by
  refine ⟨?_, ?_, ?_⟩
  · intro hn
    exact movesAtOnce_transfer (covers_cascade hn) rfl
  · intro k hn
    exact movesAtOnce_copyShort hn
  · intro k hn
    exact movesAtOnce_copyAtOnce hn

/-- One address up, where all but one byte of the source lies in the destination: 31 bytes by
scalars, by two registers of half the width and by a byte mask, and 500 bytes by eight registers. -/
theorem smallCopies_moveAtOnce_one_up :
    (31 < 64 ∧ 31 < RegisterKind.ymm.width ∧ 31 < RegisterKind.zmm.width ∧
        500 ≤ 8 * RegisterKind.zmm.width) ∧
      MovesAtOnce (transfer .plain ⟨.first, 101⟩ ⟨.second, 100⟩ (cascade 31))
        ⟨⟨0, #[], UInt8.ofNat⟩, []⟩ 101 100 31 ∧
      MovesAtOnce (RegisterKind.ymm.copyShort ⟨.first, 101⟩ ⟨.second, 100⟩ 31)
        ⟨⟨0, #[], UInt8.ofNat⟩, []⟩ 101 100 31 ∧
      MovesAtOnce (RegisterKind.zmm.copyShort ⟨.first, 101⟩ ⟨.second, 100⟩ 31)
        ⟨⟨0, #[], UInt8.ofNat⟩, []⟩ 101 100 31 ∧
      MovesAtOnce (copyAtOnce .zmm ⟨.first, 101⟩ ⟨.second, 100⟩ 500)
        ⟨⟨0, #[], UInt8.ofNat⟩, []⟩ 101 100 500 := by
  have hshort := smallCopies_moveAtOnce ⟨⟨0, #[], UInt8.ofNat⟩, []⟩ ⟨.first, 101⟩ ⟨.second, 100⟩ 31
  have hwhole := smallCopies_moveAtOnce ⟨⟨0, #[], UInt8.ofNat⟩, []⟩ ⟨.first, 101⟩ ⟨.second, 100⟩ 500
  refine ⟨by decide, hshort.1 (by decide), ?_, ?_, ?_⟩
  · exact hshort.2.1 .ymm (by decide)
  · exact hshort.2.1 .zmm (by decide)
  · exact hwhole.2.2 .zmm (by decide)

end Kernel

end ByteRoutines
