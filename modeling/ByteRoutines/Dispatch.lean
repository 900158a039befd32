import ByteRoutines.Config.Overrides

/-!
# Dispatch

What a process decides once, before the first call: its thresholds, and for
each operation the variant it is bound to. An override counts where the
processor supports the variant and the variant serves the operation;
elsewhere it is reported and the ladder decides. No operation's binding
depends on another operation.
-/

namespace ByteRoutines

open Cpu (Features)
open Config (Overrides)

/-- The thresholds for a processor and what a user asks for. An operation override pins the
standard caches; a threshold text replaces the breakpoints it names, over the standard caches
too. -/
def chooseThresholds (features : Features) (overrides : Overrides) : Thresholds :=
  if overrides.hasOperations then .ofCache .standard features.hasFastRep
  else
    match overrides.threshold with
    | some ranges => (Thresholds.ofCache .standard features.hasFastRep).withRanges ranges
    | none => .ofCache features.cache features.hasFastRep

/-- The processor can run the variant, and the variant serves the operation. -/
def Variant.usable (variant : Variant) (features : Features) (op : Operation) : Bool :=
  variant.supportedBy features && variant.serves op

/-- The variant an operation is bound to, and what is reported about it. -/
def chooseVariant (features : Features) (overrides : Overrides) (op : Operation) :
    Variant × List Log.Entry :=
  match overrides.operations op with
  | some variant =>
    if variant.usable features op then (variant, [.bound op variant])
    else
      let fallback := bestVariant features op
      (fallback, [.overrideUnusable op variant, .bound op fallback])
  | none =>
    let variant := bestVariant features op
    (variant, [.bound op variant])

/-- What a process has decided, and on what grounds. -/
structure Dispatch where
  features : Features
  overrides : Overrides
  thresholds : Thresholds
  bindings : Operation → Variant

end ByteRoutines
