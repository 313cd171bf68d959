namespace ForwardFlow

/-- Whether an operation left its operand as it was. -/
inductive Effect
  | unchanged
  | changed
deriving DecidableEq, Repr

namespace Effect

def isChanged : Effect → Bool
  | .unchanged => false
  | .changed => true

def ofBool : Bool → Effect
  | false => .unchanged
  | true => .changed

/-- The effect of two operations one after the other. -/
def or (a b : Effect) : Effect := ofBool (a.isChanged || b.isChanged)

def text : Effect → String
  | .unchanged => "unchanged"
  | .changed => "changed"

theorem ofBool_eq_changed_iff {b : Bool} : ofBool b = .changed ↔ b = true := by cases b <;> decide

end Effect

/-- The values an analysis computes with. `effect a b` tells whether joining `b` into `a` changes `a`; each lattice
finds this out in its own way, without building the join. -/
class JoinLattice (α : Type) where
  initial : α
  join : α → α → α
  effect : α → α → Effect
  equals : α → α → Bool

end ForwardFlow
