import ByteRoutines.Config.Assignment
import ByteRoutines.Thresholds

/-!
# Log entries

What is reported while overrides are read and operations are bound. An entry
is a value; its level, its message and its named fields are read off it.
-/

namespace ByteRoutines.Log

inductive Level
  | debug
  | info
  | warn
  deriving DecidableEq

def Level.name : Level → String
  | debug => "DEBUG"
  | info => "INFO"
  | warn => "WARN"

/-- The two texts that can override a decision. -/
inductive Setting
  | operations
  | threshold
  deriving DecidableEq

def Setting.variable : Setting → String
  | operations => "LIBMEM_OPERATIONS"
  | threshold => "LIBMEM_THRESHOLD"

inductive Entry
  | overrideActive (setting : Setting) (value : String)
  | overrideIgnored (setting : Setting) (error : Config.Error)
  | thresholdsComputed (thresholds : Thresholds)
  /-- The variant asked for cannot be run, or has no kernel for the operation. -/
  | overrideUnusable (op : Operation) (variant : Variant)
  | bound (op : Operation) (variant : Variant)
  deriving DecidableEq

def thresholdsText (t : Thresholds) : String :=
  let fields : List (String × UInt64) :=
    [("repmov_start", t.repCopyStart), ("repmov_stop", t.repCopyStop),
     ("nt_start", t.copyStreamStart), ("prefetch_start", t.prefetchStart),
     ("repstore_start", t.repFillStart), ("repstore_stop", t.repFillStop),
     ("nt_store_start", t.fillStreamStart)]
  let texts := fields.map fun field => field.1 ++ ": " ++ toString field.2.toNat
  "Thresholds \x7b " ++ ", ".intercalate texts ++ " \x7d"

namespace Entry

def level : Entry → Level
  | overrideActive .. => .info
  | overrideIgnored .. => .warn
  | thresholdsComputed .. => .debug
  | overrideUnusable .. => .warn
  | bound .. => .info

def message : Entry → String
  | overrideActive .operations _ => "operation override active"
  | overrideActive .threshold _ => "threshold override active"
  | overrideIgnored .. => "ignoring override"
  | thresholdsComputed .. => "computed thresholds"
  | overrideUnusable .. => "override not usable on this CPU, ignoring"
  | bound .. => "bound"

/-- The named values of an entry, in the order in which they are written. -/
def fields : Entry → List (String × String)
  | overrideActive _ value => [("value", value)]
  | overrideIgnored setting error => [("err", error.message), ("var", setting.variable)]
  | thresholdsComputed thresholds => [("thresholds", thresholdsText thresholds)]
  | overrideUnusable op variant => [("operation", op.name), ("variant", variant.name)]
  | bound op variant => [("operation", op.name), ("variant", variant.name)]

end Entry

end ByteRoutines.Log
