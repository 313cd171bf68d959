import ForwardFlow.Lattice.Basic

namespace ForwardFlow

/-- No value yet, one value, or more than one. -/
inductive Flat (α : Type)
  | bottom
  | value (a : α)
  | top
deriving DecidableEq, Repr

namespace Flat

variable {α : Type}

def value? : Flat α → Option α
  | .value a => some a
  | _ => none

def ofOption : Option α → Flat α
  | some a => .value a
  | none => .top

variable [DecidableEq α]

def join : Flat α → Flat α → Flat α
  | a, .bottom => a
  | .top, _ => .top
  | .bottom, b => b
  | .value _, .top => .top
  | .value a, .value b => if a = b then .value a else .top

/-- Bottom adds nothing, top takes nothing on, and a value takes only itself without a change. -/
def effect : Flat α → Flat α → Effect
  | _, .bottom => .unchanged
  | .top, _ => .unchanged
  | .value a, .value b => if a = b then .unchanged else .changed
  | _, _ => .changed

instance : JoinLattice (Flat α) := ⟨.bottom, join, effect, fun a b => decide (a = b)⟩

end Flat

end ForwardFlow
