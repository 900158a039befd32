import ByteRoutines.Proofs.Memory.Transfer

/-!
# Footprints

`e.Loads o x` says that the event loads the byte at address `x` through a
pointer derived from the operand `o`, and `e.Stores o x` that it stores there.
A prefetch and a fence do neither.

`Does ok x s` says that `x`, run from `s`, ends, and that everything it does on
the way is `ok`. What is asked of the events is that they keep to a region for
each operand. Within it, a load may touch its bytes only (`ReadsWithin`), or
all bytes of a page that holds one of them (`ReadsNear`). An operand whose
region is empty has no such page, and is not read at all
(`LoadsNear.not_loads`).
-/

namespace ByteRoutines

/-- The addresses from `start` on, `length` of them. -/
structure Region where
  start : Nat
  length : Nat

namespace Region

instance : Membership Nat Region where
  mem r x := r.start ≤ x ∧ x < r.start + r.length

def empty : Region := ⟨0, 0⟩

/-- The address lies in a page that holds a byte of the region. -/
def Near (r : Region) (x : Nat) : Prop := ∃ y ∈ r, y / pageSize = x / pageSize

def Apart (r r' : Region) : Prop := ∀ x ∈ r, x ∉ r'

variable {r : Region} {a n i x : Nat}

theorem mem_mk : x ∈ Region.mk a n ↔ a ≤ x ∧ x < a + n := Iff.rfl

theorem add_mem (h : i < n) : a + i ∈ Region.mk a n := mem_mk.mpr (by omega)

theorem apart_of_le {b n' : Nat} (h : a + n ≤ b ∨ b + n' ≤ a) :
    Apart (.mk a n) (.mk b n') := by
  intro x hx hx'
  rw [mem_mk] at hx hx'
  omega

/-- Regions stay apart where both end earlier. -/
theorem Apart.take {b i : Nat} (h : Apart (.mk a n) (.mk b n)) (hle : i ≤ n) :
    Apart (.mk a i) (.mk b i) := by
  intro x hx hx'
  rw [mem_mk] at hx hx'
  exact h x (mem_mk.mpr (by omega)) (mem_mk.mpr (by omega))

theorem exists_of_mem (h : x ∈ Region.mk a n) : ∃ i < n, x = a + i := by
  have hx := mem_mk.mp h
  exact ⟨x - a, by omega, by omega⟩

theorem near_of_mem (h : x ∈ r) : r.Near x := ⟨x, h, rfl⟩

theorem not_near_of_length_eq_zero (h : r.length = 0) : ¬ r.Near x := by
  rintro ⟨y, ⟨hlow, hhigh⟩, _⟩
  omega

end Region

/-- A region for each operand. -/
abbrev Bounds := Operand → Region

def Bounds.of (first second : Region) : Bounds
  | .first => first
  | .second => second

namespace Event

/-- The event loads the byte at address `x`, through a pointer derived from the operand. -/
def Loads (o : Operand) (x : Nat) : Event → Prop
  | load _ p length => p.operand = o ∧ x ∈ Region.mk p.address length
  | _ => False

/-- The event stores the byte at address `x`, through a pointer derived from the operand. -/
def Stores (o : Operand) (x : Nat) : Event → Prop
  | store _ p length => p.operand = o ∧ x ∈ Region.mk p.address length
  | _ => False

/-- Every byte that is loaded is one of its operand's region. -/
def LoadsWithin (bounds : Bounds) (e : Event) : Prop := ∀ o x, e.Loads o x → x ∈ bounds o

/-- Every byte that is stored is one of its operand's region. -/
def StoresWithin (bounds : Bounds) (e : Event) : Prop := ∀ o x, e.Stores o x → x ∈ bounds o

/-- Every byte that is loaded lies in a page that holds a byte of its operand's region. -/
def LoadsNear (bounds : Bounds) (e : Event) : Prop := ∀ o x, e.Loads o x → (bounds o).Near x

variable {bounds : Bounds} {e : Event} {o : Operand} {x : Nat}

theorem loadsWithin_store {mode : Mode} {p : Pointer} {n : Nat} :
    (store mode p n).LoadsWithin bounds :=
  fun _ _ hloads => hloads.elim

theorem storesWithin_load {mode : Mode} {p : Pointer} {n : Nat} :
    (load mode p n).StoresWithin bounds :=
  fun _ _ hstores => hstores.elim

theorem loadsWithin_prefetch {p : Pointer} : (prefetch p).LoadsWithin bounds :=
  fun _ _ hloads => hloads.elim

theorem storesWithin_prefetch {p : Pointer} : (prefetch p).StoresWithin bounds :=
  fun _ _ hstores => hstores.elim

theorem loadsWithin_fence : fence.LoadsWithin bounds := fun _ _ hloads => hloads.elim

theorem storesWithin_fence : fence.StoresWithin bounds := fun _ _ hstores => hstores.elim

theorem LoadsWithin.near (h : e.LoadsWithin bounds) : e.LoadsNear bounds :=
  fun o x hx => Region.near_of_mem (h o x hx)

/-- Nothing is read of an operand whose region is empty. -/
theorem LoadsNear.not_loads (h : e.LoadsNear bounds) (hempty : (bounds o).length = 0) :
    ¬ e.Loads o x :=
  fun hx => Region.not_near_of_length_eq_zero hempty (h o x hx)

theorem StoresWithin.not_stores (h : e.StoresWithin bounds) (hempty : (bounds o).length = 0) :
    ¬ e.Stores o x :=
  fun hx => Region.not_near_of_length_eq_zero hempty (Region.near_of_mem (h o x hx))

end Event

namespace Exec

open Event

variable {α : Type} {ok ok' : Event → Prop} {x : Exec α} {s : Machine} {mode : Mode} {p : Pointer}
  {n : Nat} {bounds : Bounds}

/-- Run from `s`, `x` ends, and everything it does on the way is `ok`. -/
def Does (ok : Event → Prop) (x : Exec α) (s : Machine) : Prop :=
  ∃ v s' done, x s = .ok v s' ∧ s'.events = done ++ s.events ∧ ∀ e ∈ done, ok e

theorem Ends.does {post : α → Memory → Prop} (h : Ends ok x s.memory post) : Does ok x s := by
  obtain ⟨v, m', done, hrun, hok, _⟩ := h s.events
  exact ⟨v, ⟨m', done ++ s.events⟩, done, hrun, rfl, hok⟩

theorem Does.mono (h : Does ok x s) (himp : ∀ e, ok e → ok' e) : Does ok' x s := by
  obtain ⟨v, s', done, hrun, hdone, hok⟩ := h
  exact ⟨v, s', done, hrun, hdone, fun e he => himp e (hok e he)⟩

/-- Run from `s`, `x` ends, and every byte that it loads is one of its operand's region. -/
def ReadsWithin (x : Exec α) (s : Machine) (first second : Region) : Prop :=
  Does (LoadsWithin (.of first second)) x s

/-- Run from `s`, `x` ends, and every byte that it loads lies in a page that holds a byte of its
operand's region. -/
def ReadsNear (x : Exec α) (s : Machine) (first second : Region) : Prop :=
  Does (LoadsNear (.of first second)) x s

/-- Run from `s`, `x` ends, and it loads no byte through a pointer derived from the operand. -/
def LeavesUnread (o : Operand) (x : Exec α) (s : Machine) : Prop :=
  Does (fun e => ∀ a, ¬ e.Loads o a) x s

/-- Run from `s`, `x` ends; what it loads are bytes of `read`, through its second operand, and what
it stores are bytes of `written`, through its first. -/
def Confined (x : Exec α) (s : Machine) (written read : Region) : Prop :=
  Does (fun e => e.LoadsWithin (.of .empty read) ∧ e.StoresWithin (.of written .empty)) x s

/-- Run from `s`, `x` ends, and it neither loads nor stores a byte. -/
def Idles (x : Exec α) (s : Machine) : Prop :=
  Does (fun e => ∀ o a, ¬ e.Loads o a ∧ ¬ e.Stores o a) x s

theorem ReadsNear.leavesUnread_first {a : Nat} {second : Region}
    (h : ReadsNear x s ⟨a, 0⟩ second) : LeavesUnread .first x s :=
  Does.mono h fun _ hnear _ => hnear.not_loads rfl

theorem ReadsNear.leavesUnread_second {a : Nat} {first : Region}
    (h : ReadsNear x s first ⟨a, 0⟩) : LeavesUnread .second x s :=
  Does.mono h fun _ hnear _ => hnear.not_loads rfl

/-- What is confined to two empty regions does not access memory. -/
theorem Confined.idles {written read : Region} (h : Confined x s written read)
    (hwritten : written.length = 0) (hread : read.length = 0) : Idles x s := by
  refine Does.mono h ?_
  rintro e ⟨hloads, hstores⟩ o a
  have hread' : (Bounds.of .empty read o).length = 0 := by
    cases o with
    | first => rfl
    | second => exact hread
  have hwritten' : (Bounds.of written .empty o).length = 0 := by
    cases o with
    | first => exact hwritten
    | second => rfl
  exact ⟨hloads.near.not_loads hread', hstores.not_stores hwritten'⟩

/-! ### What keeps to the bounds -/

theorem mayLoad_within (h : ∀ i < n, p.address + i ∈ bounds p.operand) :
    MayLoad (LoadsWithin bounds) mode p n := by
  rintro off length hle o x ⟨rfl, hx⟩
  obtain ⟨i, hi, rfl⟩ := Region.exists_of_mem hx
  rw [Pointer.address_add, Nat.add_assoc]
  exact h (off + i) (by omega)

theorem mayStore_within (h : ∀ i < n, p.address + i ∈ bounds p.operand) :
    MayStore (StoresWithin bounds) mode p n := by
  rintro off length hle o x ⟨rfl, hx⟩
  obtain ⟨i, hi, rfl⟩ := Region.exists_of_mem hx
  rw [Pointer.address_add, Nat.add_assoc]
  exact h (off + i) (by omega)

theorem mayLoadPage_near (h : p.address ∈ bounds p.operand) :
    MayLoadPage (LoadsNear bounds) p := by
  rintro mode off length hle o x ⟨rfl, hx⟩
  obtain ⟨i, hi, rfl⟩ := Region.exists_of_mem hx
  rw [Pointer.address_add, Nat.add_assoc]
  exact ⟨p.address, h, (div_pageSize_of_lt_roomInPage (by omega)).symm⟩

theorem mayLoad_near (h : ∀ i < n, p.address + i ∈ bounds p.operand) :
    MayLoad (LoadsNear bounds) mode p n :=
  fun off length hle => (mayLoad_within h off length hle).near

/-- Where only loads are looked at, anything may be stored. -/
theorem mayStore_near : MayStore (LoadsNear bounds) mode p n :=
  fun _ _ _ => loadsWithin_store.near

end Exec

end ByteRoutines
