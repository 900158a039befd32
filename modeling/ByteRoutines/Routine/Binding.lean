import ByteRoutines.Routine.Table

/-!
# Binding

How a process starts. The operations are bound one after the other: the routine
of an operation is taken from the table of the variant chosen for it, the
variant is noted in the place of the operation, and both are reported. No
choice looks at what has been bound before.

What is kept of it are the variants. The table of the process is read off them
again (`Dispatch.table`).
-/

namespace ByteRoutines

open Cpu (Features)
open Config (Overrides)

/-- Takes the routine of one operation from another table. -/
def RoutineTable.bind (table : RoutineTable) (op : Operation) (source : RoutineTable) :
    RoutineTable :=
  fun other => if other = op then source other else table other

/-- A table that is being bound, with the variant that each of its routines comes from. -/
structure BoundTable where
  routines : RoutineTable
  variants : Vector Variant Operation.count

namespace BoundTable

/-- The table of a process before any operation is bound. -/
def portable (t : Thresholds) : BoundTable where
  routines := .ofVariant .portable t
  variants := .replicate Operation.count .portable

/-- The variant of an operation, from its place. -/
def variantOf (table : BoundTable) (op : Operation) : Variant :=
  table.variants.get ⟨op.index, op.index_lt_count⟩

def bind (table : BoundTable) (t : Thresholds) (op : Operation) (variant : Variant) :
    BoundTable where
  routines := table.routines.bind op (.ofVariant variant t)
  variants := table.variants.set op.index variant op.index_lt_count

end BoundTable

namespace Dispatch

/-- Binds one more operation to the variant that is chosen for it, and reports it. -/
def bindNext (features : Features) (overrides : Overrides) (t : Thresholds)
    (state : BoundTable × List Log.Entry) (op : Operation) : BoundTable × List Log.Entry :=
  let (variant, entries) := chooseVariant features overrides op
  (state.1.bind t op variant, state.2 ++ entries)

/-- Binds the operations of a list in turn. -/
def bindAll (features : Features) (overrides : Overrides) (t : Thresholds)
    (ops : List Operation) : BoundTable × List Log.Entry :=
  ops.foldl (bindNext features overrides t) (.portable t, [.thresholdsComputed t])

/-- Decides for a processor and a user, and reports each decision. -/
def new (features : Features) (overrides : Overrides) : Dispatch × List Log.Entry :=
  let thresholds := chooseThresholds features overrides
  let (bound, log) := bindAll features overrides thresholds Operation.all
  ({ features, overrides, thresholds, bindings := bound.variantOf }, log)

/-- Reads the two settings and decides, with everything that is reported on the way. -/
def configure (features : Features) (operations threshold : Option String) :
    Dispatch × List Log.Entry :=
  let (overrides, log) := Overrides.ofValues operations threshold
  let (dispatch, more) := new features overrides
  (dispatch, log ++ more)

end Dispatch

end ByteRoutines
