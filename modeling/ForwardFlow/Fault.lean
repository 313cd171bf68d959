import ForwardFlow.Table

namespace ForwardFlow

/-- What goes wrong inside a run that is put together wrongly: an index outside its table, a lattice value read as one
of another kind, or more steps than were allowed. -/
inductive Fault
  | outOfRange
  | mismatch (held asked : String)
  | outOfSteps
deriving DecidableEq, Repr

def Fault.message : Fault → String
  | .outOfRange => "index outside of its table"
  | .mismatch held asked => s!"erased lattice holds `{held}` but was accessed as `{asked}`"
  | .outOfSteps => "no fixed point within the allowed steps"

namespace Table

variable {kind : Kind} {α : Type}

def read (t : Table kind α) (i : Index kind) : Except Fault α :=
  match t.get? i with
  | some a => .ok a
  | none => .error .outOfRange

def write (t : Table kind α) (i : Index kind) (a : α) : Except Fault (Table kind α) :=
  match t.set? i a with
  | some u => .ok u
  | none => .error .outOfRange

end Table

end ForwardFlow
