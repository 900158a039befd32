/-!
# Operations

The fifteen memory and string routines that callers see, in the order in
which they are listed and bound. They fall in two families: the four that
copy or set a region without looking at it, and those that scan or compare.
-/

namespace ByteRoutines

inductive Operation
  | memcpy | mempcpy | memmove | memset
  | memcmp | memchr
  | strcpy | strncpy | strcat | strncat
  | strcmp | strncmp | strstr | strlen | strchr
  deriving DecidableEq

/-- Operations that share a ladder of variants. -/
inductive Family
  /-- Writes a region whose content does not matter. -/
  | copySet
  /-- Looks at the bytes it walks over. -/
  | scan
  deriving DecidableEq

namespace Operation

def all : List Operation :=
  [memcpy, mempcpy, memmove, memset, memcmp, memchr, strcpy, strncpy, strcat, strncat,
   strcmp, strncmp, strstr, strlen, strchr]

/-- How many operations there are. -/
def count : Nat := 15

/-- The place of an operation in a table. -/
def index : Operation → Nat
  | memcpy => 0 | mempcpy => 1 | memmove => 2 | memset => 3
  | memcmp => 4 | memchr => 5
  | strcpy => 6 | strncpy => 7 | strcat => 8 | strncat => 9
  | strcmp => 10 | strncmp => 11 | strstr => 12 | strlen => 13 | strchr => 14

def name : Operation → String
  | memcpy => "memcpy" | mempcpy => "mempcpy" | memmove => "memmove" | memset => "memset"
  | memcmp => "memcmp" | memchr => "memchr"
  | strcpy => "strcpy" | strncpy => "strncpy" | strcat => "strcat" | strncat => "strncat"
  | strcmp => "strcmp" | strncmp => "strncmp" | strstr => "strstr" | strlen => "strlen"
  | strchr => "strchr"

def family : Operation → Family
  | memcpy | mempcpy | memmove | memset => .copySet
  | _ => .scan

/-- The operation with this exact name. -/
def ofName? (text : String) : Option Operation :=
  all.find? fun op => op.name == text

theorem mem_all (op : Operation) : op ∈ all := by
  cases op <;> decide

theorem all_getElem?_index (op : Operation) : all[op.index]? = some op := by
  cases op <;> rfl

theorem index_lt_count (op : Operation) : op.index < count := by
  cases op <;> decide

theorem index_inj {op other : Operation} (h : op.index = other.index) : op = other := by
  have hop := all_getElem?_index op
  rw [h, all_getElem?_index other] at hop
  exact (Option.some.inj hop).symm

theorem ofName?_name (op : Operation) : ofName? op.name = some op := by
  cases op <;> decide

end Operation

end ByteRoutines
