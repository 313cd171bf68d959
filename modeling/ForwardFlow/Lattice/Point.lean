import ForwardFlow.Lattice.Basic

namespace ForwardFlow

/-- The lattice of an analysis that keeps nothing. -/
inductive OnePoint
  | point
deriving DecidableEq, Repr

instance : JoinLattice OnePoint where
  initial := .point
  join _ _ := .point
  effect _ _ := .unchanged
  equals a b := decide (a = b)

inductive TwoPoint
  | bottom
  | top
deriving DecidableEq, Repr

namespace TwoPoint

def join : TwoPoint → TwoPoint → TwoPoint
  | .bottom, b => b
  | .top, _ => .top

/-- Only the step from bottom to top is a change. -/
def effect : TwoPoint → TwoPoint → Effect
  | .bottom, .top => .changed
  | _, _ => .unchanged

instance : JoinLattice TwoPoint := ⟨.bottom, join, effect, fun a b => decide (a = b)⟩

end TwoPoint

end ForwardFlow
