import Flowgraph.Operator.Basic

/-!
# The procs of the language

Each proc says which options it accepts and whether it takes arguments.  The
options of adapters and views are their own affair and are not checked here.
-/

namespace Flowgraph

/-- A proc that programs can call. -/
inductive Proc where
  | read
  | emit
  | batch
  | reduce
  | sort
  | head
  | tail
  | unbatch
  | merge
  | put
  | filter
  | keep
  | remove
  | uniq
  | pass
  | view
  | write
deriving DecidableEq, Repr

/-- Which options a proc accepts. -/
inductive AcceptedOptions where
  | any
  | only (names : List String)
deriving DecidableEq, Repr

/-- Whether a proc takes arguments. -/
inductive ArgumentRule where
  | refused
  | optional
  /-- At least one argument; the text says what it is. -/
  | required (what : String)
deriving DecidableEq, Repr

namespace Proc

/-- The name by which programs call a proc. -/
def name : Proc → String
  | read => "read"
  | emit => "emit"
  | batch => "batch"
  | reduce => "reduce"
  | sort => "sort"
  | head => "head"
  | tail => "tail"
  | unbatch => "unbatch"
  | merge => "merge"
  | put => "put"
  | filter => "filter"
  | keep => "keep"
  | remove => "remove"
  | uniq => "uniq"
  | pass => "pass"
  | view => "view"
  | write => "write"

/-- Every proc. -/
def all : List Proc :=
  [read, emit, batch, reduce, sort, head, tail, unbatch, merge, put, filter, keep, remove, uniq,
    pass, view, write]

/-- The proc with a name. -/
def ofName? (name : String) : Option Proc :=
  all.find? fun proc => proc.name == name

/-- The options that a proc accepts. -/
def acceptedOptions : Proc → AcceptedOptions
  | read | view | write => .any
  | emit => .only ["from", "to", "last", "every", "limit", "hz", "points"]
  | batch => .only ["every", "on"]
  | reduce => .only ["every", "over", "on", "forget", "from", "to"]
  | sort => .only ["limit", "groupby"]
  | put => .only ["over"]
  | head | tail | unbatch | merge | filter | keep | remove | uniq | pass => .only []

/-- The arguments that a proc takes. -/
def argumentRule : Proc → ArgumentRule
  | read => .required "an adapter name"
  | reduce => .required "at least one reducer"
  | put => .required "at least one assignment"
  | filter => .required "a filter expression"
  | sort | keep | remove => .required "at least one field"
  | view | write => .required "a view name"
  | batch | head | tail | uniq | pass => .optional
  | emit | unbatch | merge => .refused

/-- A proc is found by its own name. -/
@[simp]
theorem ofName?_name (proc : Proc) : ofName? proc.name = some proc := by
  cases proc <;> rfl

end Proc

/-- Whether an option may be given to a proc. -/
def AcceptedOptions.contains (accepted : AcceptedOptions) (name : String) : Bool :=
  match accepted with
  | any => true
  | only names => names.contains name

end Flowgraph
