import ForwardFlow.Analysis.Basic
import ForwardFlow.Lattice.Flat
import ForwardFlow.Lattice.Pointwise

namespace ForwardFlow

/-- The values of integer variables. A variable that is missing has none yet. -/
abbrev Constants := Pointwise Var (Flat Int64)

namespace Constants

/-- A variable without a value gives bottom, and a truth value is no integer constant. -/
def operand (constants : Constants) : Operand → Flat Int64
  | .lit (.int n) => .value n
  | .lit (.bool _) => .top
  | .var v => (constants.get? v).getD .bottom

/-- Operators on constants. Comparisons and logic give no integer, and neither does an overflow. -/
def fold? : BinOp → Int64 → Int64 → Option Int64
  | .add, a, b => Checked.add? a b
  | .sub, a, b => Checked.sub? a b
  | .mul, a, b => Checked.mul? a b
  | _, _, _ => none

/-- The value of an expression. A missing operand weighs more than one with several values. -/
def eval (constants : Constants) : Expr → Flat Int64
  | .use o => constants.operand o
  | .binary op l r =>
    match constants.operand l, constants.operand r with
    | .value a, .value b => .ofOption (fold? op a b)
    | .bottom, _ => .bottom
    | _, .bottom => .bottom
    | _, _ => .top
  | .not _ => .top
  | .call _ _ => .top

/-- Only the values of integer variables are kept. -/
def define (target : Var) (source : Expr) (s : State Constants) : State Constants :=
  if s.known.ty? target = some .int then { s with lattice := s.lattice.insert target (s.lattice.eval source) } else s

end Constants

/-- Constant propagation. Assignments are seen as statements; initializers and ends of scopes, which are none, as
elements. -/
def Analysis.constants : Analysis Constants where
  initial := ∅
  hooks := .both
  onElement
    | .init target source, s => Constants.define target source s
    | .scopeEnd v, s => { s with lattice := s.lattice.erase v }
    | .stmt _, s => s
  onStmt
    | .assign target source, s => Constants.define target source s
    | _, s => s
  merge := Merger.ranges

end ForwardFlow
