/-!
# Memory

A memory gives a byte to every address. It is held as an array on one window
of addresses, where access is quick, and as a function everywhere else; `get`
is the view through which it is reasoned about. `get_set` and `get_write` say
what a write does to that view: the written bytes where they were written,
and the old ones elsewhere.
-/

namespace ByteRoutines

/-- The number of addresses, 2^64: those in use are the numbers below it. -/
def addressSpace : Nat := 0x10000000000000000

abbrev Bytes (n : Nat) := Vector UInt8 n

/-- A byte for every address. -/
structure Memory where
  base : Nat
  window : Array UInt8
  outside : Nat → UInt8

namespace Memory

def get (m : Memory) (a : Nat) : UInt8 :=
  if m.base ≤ a then m.window[a - m.base]?.getD (m.outside a) else m.outside a

def set (m : Memory) (a : Nat) (value : UInt8) : Memory :=
  if m.base ≤ a ∧ a - m.base < m.window.size then
    { m with window := m.window.setIfInBounds (a - m.base) value }
  else
    { m with outside := fun b => if b = a then value else m.outside b }

def read (m : Memory) (a : Nat) (n : Nat) : Bytes n :=
  Vector.ofFn fun i => m.get (a + i)

def write (m : Memory) (a : Nat) : List UInt8 → Memory
  | [] => m
  | byte :: rest => (m.set a byte).write (a + 1) rest

/-- Zero everywhere, with a window of `size` bytes at `base`. -/
def zeroed (base size : Nat) : Memory where
  base := base
  window := Array.replicate size 0
  outside := fun _ => 0

theorem get_set (m : Memory) (a b : Nat) (value : UInt8) :
    (m.set a value).get b = if b = a then value else m.get b := by
  by_cases hin : m.base ≤ a ∧ a - m.base < m.window.size
  · obtain ⟨hbase, hsize⟩ := hin
    simp only [set, hbase, hsize, and_self, if_true, get]
    by_cases hb : m.base ≤ b
    · by_cases hab : b = a
      · subst hab
        simp [hb, hsize]
      · have hne : a - m.base ≠ b - m.base := by omega
        simp [hb, hab, Array.getElem?_setIfInBounds_ne hne]
    · have hab : b ≠ a := by omega
      simp [hb, hab]
  · simp only [set, hin, if_false, get]
    by_cases hb : m.base ≤ b
    · by_cases hab : b = a
      · subst hab
        have hnone : m.window[b - m.base]? = none := Array.getElem?_eq_none (by omega)
        simp [hnone]
      · simp [hb, hab]
    · by_cases hab : b = a
      · subst hab
        simp [hb]
      · simp [hb, hab]

theorem get_write (m : Memory) (a b : Nat) (bytes : List UInt8) :
    (m.write a bytes).get b = if a ≤ b then bytes[b - a]?.getD (m.get b) else m.get b := by
  induction bytes generalizing m a with
  | nil => simp [write]
  | cons byte rest ih =>
    rw [write, ih, get_set]
    by_cases hlt : a + 1 ≤ b
    · have hle : a ≤ b := by omega
      have hne : b ≠ a := by omega
      have hsub : b - a = b - (a + 1) + 1 := by omega
      simp [hlt, hle, hne, hsub]
    · by_cases hab : b = a
      · subst hab
        have hle : ¬ b + 1 ≤ b := by omega
        simp [hle]
      · have hle : ¬ a ≤ b := by omega
        simp [hlt, hle, hab]

@[simp] theorem getElem_read (m : Memory) (a : Nat) (n i : Nat) (h : i < n) :
    (m.read a n)[i] = m.get (a + i) := by
  simp [read]

end Memory

end ByteRoutines
