import ByteRoutines.Routine.Binding

/-!
# Every operation is bound to a variant that it can use

Binding is a loop over the operations. A step gives one of them a routine and a
variant and leaves all others as they are (`variantOf_bind`), and it reports
what was chosen. So after a run every operation that it came to has what was
chosen for it, and the log has grown by the entries of each in turn
(`view_foldl_bindNext`, `log_foldl_bindNext`).

What is chosen is the variant that was asked for, if the operation can use it,
and the first of all variants that it can use otherwise (`find?_usable`). None
of it depends on what was asked for elsewhere.

* `new_binds_usable`: what a process ends up with, for any processor and any
  overrides.
-/

namespace ByteRoutines

open Cpu (Features)
open Config (Overrides)

variable {features : Features} {overrides : Overrides} {t : Thresholds} {op : Operation}
  {variant : Variant}

/-! ### The choice of a variant -/

/-- A ladder holds the variants that have a kernel for the family, widest first. -/
theorem ladder_eq_filter (op : Operation) :
    Variant.ladder op.family = Variant.all.filter (Variant.serves · op) := by
  cases op <;> decide

theorem usable_portable (features : Features) (op : Operation) :
    Variant.portable.usable features op = true := by
  cases op <;> rfl

/-- **The ladder gives the first of all variants that can be used.** -/
theorem find?_usable (features : Features) (op : Operation) :
    Variant.all.find? (Variant.usable · features op) = some (bestVariant features op) := by
  have hfind : (Variant.ladder op.family).find? (Variant.supportedBy features) =
      Variant.all.find? (Variant.usable · features op) := by
    rw [ladder_eq_filter, List.find?_filter]
    congr 1
    funext variant
    rw [Variant.usable, Bool.and_comm]
    simp
  rw [bestVariant, hfind]
  cases hfirst : Variant.all.find? (Variant.usable · features op) with
  | some variant => rfl
  | none =>
    have hnone := List.find?_eq_none.mp hfirst .portable (Variant.mem_all .portable)
    exact absurd (usable_portable features op) hnone

theorem usable_bestVariant (features : Features) (op : Operation) :
    (bestVariant features op).usable features op = true := by
  have hfirst := List.find?_some (find?_usable features op)
  exact hfirst

/-- The variant asked for, if the operation cannot use it. -/
def droppedOverride? (features : Features) (overrides : Overrides) (op : Operation) :
    Option Variant :=
  (overrides.operations op).filter fun variant => !variant.usable features op

theorem chooseVariant_of_usable (hasked : overrides.operations op = some variant)
    (husable : variant.usable features op = true) :
    (chooseVariant features overrides op).1 = variant := by
  rw [chooseVariant, hasked]
  dsimp only
  rw [if_pos husable]

theorem chooseVariant_of_not_usable (hunusable : ∀ variant,
      overrides.operations op = some variant → variant.usable features op = false) :
    (chooseVariant features overrides op).1 = bestVariant features op := by
  rw [chooseVariant]
  cases hasked : overrides.operations op with
  | none => rfl
  | some variant =>
    dsimp only
    rw [if_neg (by rw [hunusable variant hasked]; exact Bool.false_ne_true)]

theorem usable_chooseVariant (features : Features) (overrides : Overrides) (op : Operation) :
    (chooseVariant features overrides op).1.usable features op = true := by
  rw [chooseVariant]
  cases overrides.operations op with
  | none => exact usable_bestVariant features op
  | some variant =>
    dsimp only
    split
    · rename_i husable
      exact husable
    · exact usable_bestVariant features op

/-- A choice is reported, after the override that was dropped for it. -/
theorem entries_chooseVariant (features : Features) (overrides : Overrides) (op : Operation) :
    (chooseVariant features overrides op).2 =
      (droppedOverride? features overrides op).toList.map (.overrideUnusable op) ++
        [.bound op (chooseVariant features overrides op).1] := by
  rw [chooseVariant, droppedOverride?]
  cases overrides.operations op with
  | none => rfl
  | some variant =>
    dsimp only
    cases husable : variant.usable features op with
    | true => simp [Option.filter, husable]
    | false => simp [Option.filter, husable]

/-! ### The loop -/

/-- One step changes the variant of one operation. -/
theorem variantOf_bind (table : BoundTable) (t : Thresholds) (op other : Operation)
    (variant : Variant) : (table.bind t other variant).variantOf op =
      if op = other then variant else table.variantOf op := by
  have hop := op.index_lt_count
  have hother := other.index_lt_count
  show (table.variants.set other.index variant)[op.index] = _
  rw [Vector.getElem_set]
  by_cases h : op = other
  · rw [if_pos h, if_pos (by rw [h])]
  · rw [if_neg h, if_neg fun heq => h (Operation.index_inj heq).symm]
    rfl

/-- What is seen of a table of which each step changes one operation: after a run, what was chosen
for the operation, if the run came to it. -/
theorem view_foldl_bindNext {α : Type} (see : BoundTable → α) (value : Variant → α)
    (hsee : ∀ table other variant, see (table.bind t other variant) =
      if op = other then value variant else see table)
    (ops : List Operation) (state : BoundTable × List Log.Entry) :
    see (ops.foldl (Dispatch.bindNext features overrides t) state).1 =
      if op ∈ ops then value (chooseVariant features overrides op).1 else see state.1 := by
  induction ops generalizing state with
  | nil => rfl
  | cons other rest ih =>
    rw [List.foldl_cons, ih, Dispatch.bindNext]
    dsimp only
    rw [hsee]
    by_cases hrest : op ∈ rest
    · rw [if_pos hrest, if_pos (List.mem_cons_of_mem other hrest)]
    · rw [if_neg hrest]
      by_cases hother : op = other
      · rw [if_pos hother, if_pos (List.mem_cons.mpr (Or.inl hother)), hother]
      · have hnot : op ∉ other :: rest := fun hmem =>
          (List.mem_cons.mp hmem).elim hother hrest
        rw [if_neg hother, if_neg hnot]

theorem log_foldl_bindNext (ops : List Operation) (state : BoundTable × List Log.Entry) :
    (ops.foldl (Dispatch.bindNext features overrides t) state).2 =
      state.2 ++ ops.flatMap fun op => (chooseVariant features overrides op).2 := by
  induction ops generalizing state with
  | nil => exact (List.append_nil state.2).symm
  | cons op rest ih =>
    rw [List.foldl_cons, ih, Dispatch.bindNext, List.flatMap_cons, List.append_assoc]

theorem variantOf_bindAll (features : Features) (overrides : Overrides) (t : Thresholds)
    (op : Operation) : (Dispatch.bindAll features overrides t Operation.all).1.variantOf op =
      (chooseVariant features overrides op).1 := by
  rw [Dispatch.bindAll, view_foldl_bindNext (BoundTable.variantOf · op) id
    (fun table other variant => variantOf_bind table t op other variant), if_pos op.mem_all]
  rfl

/-- The routines are bound along with the variants. -/
theorem routines_bindAll (features : Features) (overrides : Overrides) (t : Thresholds)
    (op : Operation) : (Dispatch.bindAll features overrides t Operation.all).1.routines op =
      RoutineTable.ofVariant (chooseVariant features overrides op).1 t op := by
  rw [Dispatch.bindAll, view_foldl_bindNext (BoundTable.routines · op)
    (RoutineTable.ofVariant · t op) (fun _ _ _ => rfl), if_pos op.mem_all]

/-! ### The process -/

theorem bindings_new (features : Features) (overrides : Overrides) (op : Operation) :
    (Dispatch.new features overrides).1.bindings op = (chooseVariant features overrides op).1 :=
  variantOf_bindAll features overrides _ op

/-- What is reported about one operation: the override that was dropped, if any, and then the
variant it is bound to. -/
def reports (features : Features) (overrides : Overrides) (variant : Variant) (op : Operation) :
    List Log.Entry :=
  (droppedOverride? features overrides op).toList.map (.overrideUnusable op) ++ [.bound op variant]

theorem log_new (features : Features) (overrides : Overrides) :
    (Dispatch.new features overrides).2 =
      .thresholdsComputed (chooseThresholds features overrides) :: Operation.all.flatMap fun op =>
        reports features overrides ((Dispatch.new features overrides).1.bindings op) op := by
  show (Dispatch.bindAll features overrides _ Operation.all).2 = _
  rw [Dispatch.bindAll, log_foldl_bindNext, List.singleton_append]
  congr 2
  funext op
  rw [entries_chooseVariant, reports, bindings_new]

theorem filter_reports_info (features : Features) (overrides : Overrides) (variant : Variant)
    (op : Operation) :
    (reports features overrides variant op).filter (·.level = .info) = [.bound op variant] := by
  rw [reports]
  cases droppedOverride? features overrides op with
  | none => rfl
  | some asked => rfl

theorem filter_reports_warn (features : Features) (overrides : Overrides) (variant : Variant)
    (op : Operation) :
    (reports features overrides variant op).filter (·.level = .warn) =
      (droppedOverride? features overrides op).toList.map (.overrideUnusable op) := by
  rw [reports]
  cases droppedOverride? features overrides op with
  | none => rfl
  | some asked => rfl

/-- One entry of the level `INFO` for each operation, in order. -/
theorem infos_new (features : Features) (overrides : Overrides) :
    (Dispatch.new features overrides).2.filter (·.level = .info) = Operation.all.map fun op =>
      .bound op ((Dispatch.new features overrides).1.bindings op) := by
  rw [log_new, List.filter_cons_of_neg Bool.false_ne_true, List.filter_flatMap,
    List.map_eq_flatMap]
  congr 1
  funext op
  rw [filter_reports_info]

theorem warnings_new (features : Features) (overrides : Overrides) :
    (Dispatch.new features overrides).2.filter (·.level = .warn) = Operation.all.flatMap fun op =>
      (droppedOverride? features overrides op).toList.map (.overrideUnusable op) := by
  rw [log_new, List.filter_cons_of_neg Bool.false_ne_true, List.filter_flatMap]
  congr 1
  funext op
  rw [filter_reports_warn]

/-- What a process has decided for a processor and a user, and what it has reported of it. -/
structure Dispatch.Decides (features : Features) (overrides : Overrides) (dispatch : Dispatch)
    (log : List Log.Entry) : Prop where
  /-- What is asked for counts where it can be used. -/
  asked : ∀ op variant, overrides.operations op = some variant →
    variant.usable features op = true → dispatch.bindings op = variant
  /-- Elsewhere the first variant of all counts that can be used. -/
  first : ∀ op, (∀ variant, overrides.operations op = some variant →
    variant.usable features op = false) →
      Variant.all.find? (Variant.usable · features op) = some (dispatch.bindings op)
  supported : ∀ op, (dispatch.bindings op).supportedBy features = true
  serves : ∀ op, (dispatch.bindings op).serves op = true
  thresholds : dispatch.thresholds = chooseThresholds features overrides
  reported : log = .thresholdsComputed dispatch.thresholds ::
    Operation.all.flatMap fun op => reports features overrides (dispatch.bindings op) op
  infos : log.filter (·.level = .info) =
    Operation.all.map fun op => .bound op (dispatch.bindings op)
  /-- The same entries as they are written. -/
  written : (log.filter (·.level = .info)).map (fun entry => (entry.message, entry.fields)) =
    Operation.all.map fun op =>
      ("bound", [("operation", op.name), ("variant", (dispatch.bindings op).name)])
  warnings : log.filter (·.level = .warn) = Operation.all.flatMap fun op =>
    (droppedOverride? features overrides op).toList.map (.overrideUnusable op)

theorem decides_new (features : Features) (overrides : Overrides) :
    Dispatch.Decides features overrides (Dispatch.new features overrides).1
      (Dispatch.new features overrides).2 where
  asked op variant hasked husable := by
    rw [bindings_new]
    exact chooseVariant_of_usable hasked husable
  first op hunusable := by
    rw [bindings_new, chooseVariant_of_not_usable hunusable]
    exact find?_usable features op
  supported op := by
    rw [bindings_new]
    exact (Bool.and_eq_true_iff.mp (usable_chooseVariant features overrides op)).1
  serves op := by
    rw [bindings_new]
    exact (Bool.and_eq_true_iff.mp (usable_chooseVariant features overrides op)).2
  thresholds := rfl
  reported := log_new features overrides
  infos := infos_new features overrides
  written := by
    rw [infos_new, List.map_map]
    rfl
  warnings := warnings_new features overrides

/-- **A process binds every operation to a variant that it can use**, for any processor and any
overrides: the one that was asked for, or the first of all. The table that it puts together holds
the operation's own routine of that variant, and what is asked for one operation has no influence
on the others. -/
theorem new_binds_usable (features : Features) (overrides : Overrides) :
    Dispatch.Decides features overrides (Dispatch.new features overrides).1
        (Dispatch.new features overrides).2 ∧
      (∀ op, (Dispatch.bindAll features overrides (chooseThresholds features overrides)
          Operation.all).1.routines op =
        RoutineTable.ofVariant ((Dispatch.new features overrides).1.bindings op)
          (chooseThresholds features overrides) op) ∧
      (Dispatch.bindAll features overrides (chooseThresholds features overrides)
          Operation.all).1.routines = (Dispatch.new features overrides).1.table ∧
      ∀ overrides' op, overrides'.operations op = overrides.operations op →
        (Dispatch.new features overrides').1.bindings op =
          (Dispatch.new features overrides).1.bindings op := by
  have hroutines : ∀ op, (Dispatch.bindAll features overrides (chooseThresholds features overrides)
      Operation.all).1.routines op =
        RoutineTable.ofVariant ((Dispatch.new features overrides).1.bindings op)
          (chooseThresholds features overrides) op := by
    intro op
    rw [routines_bindAll, bindings_new]
  refine ⟨decides_new features overrides, hroutines, funext hroutines, ?_⟩
  intro overrides' op hsame
  rw [bindings_new, bindings_new, chooseVariant, chooseVariant, hsame]

/-- A processor with 16-byte registers and fast string instructions. -/
def fastRepProcessor : Features :=
  { Features.baseline with flags := { sse2 := true, fsrm := true } }

/-- Asks for a variant that can be used, for one that has no such kernel and for one that the
processor does not support. -/
def mixedOverrides : Overrides :=
  Overrides.empty.setAll [(.memcpy, .portable), (.strlen, .erms), (.memset, .avx512)]

/-- Only the first of the three counts and the other two are reported. The length of a string is
computed by the same kernels where nothing else is asked for. -/
theorem new_binds_usable_mixedOverrides :
    (Dispatch.new fastRepProcessor mixedOverrides).1.bindings .memcpy = .portable ∧
      (Dispatch.new fastRepProcessor mixedOverrides).1.bindings .strlen = .sse2 ∧
      (Dispatch.new fastRepProcessor mixedOverrides).1.bindings .memset = .erms ∧
      (Dispatch.new fastRepProcessor mixedOverrides).2.filter (·.level = .warn) =
        [.overrideUnusable .memset .avx512, .overrideUnusable .strlen .erms] ∧
      (Dispatch.new fastRepProcessor (Overrides.empty.setOperation .strlen .erms)).1.bindings
        .strlen = .sse2 := by
  obtain ⟨hdecides, _, _, hsame⟩ := new_binds_usable fastRepProcessor mixedOverrides
  have hstrlen : (Dispatch.new fastRepProcessor mixedOverrides).1.bindings .strlen = .sse2 := by
    have hfirst := hdecides.first .strlen (by decide)
    exact (Option.some.inj hfirst).symm
  have hmemset : (Dispatch.new fastRepProcessor mixedOverrides).1.bindings .memset = .erms := by
    have hfirst := hdecides.first .memset (by decide)
    exact (Option.some.inj hfirst).symm
  refine ⟨hdecides.asked .memcpy .portable (by decide) (by decide), hstrlen, hmemset, ?_, ?_⟩
  · rw [hdecides.warnings]
    decide
  · rw [hsame (Overrides.empty.setOperation .strlen .erms) .strlen (by decide)]
    exact hstrlen

end ByteRoutines
