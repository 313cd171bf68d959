import ForwardFlow.Arith.Checked
import ForwardFlow.Program.Basic

namespace ForwardFlow

/-- What is known of the value of a variable: the value itself, or two bounds for an integer. -/
inductive Fact
  | int (value : Int64)
  | bool (value : Bool)
  | range (low high : Int64)
deriving DecidableEq, Repr

namespace Fact

def ofLiteral : Literal → Fact
  | .int n => .int n
  | .bool b => .bool b

def not? : Fact → Option Fact
  | .bool b => some (.bool !b)
  | _ => none

/-- The result of an operator on two values it is made for. Nothing is known of a result that overflows, nor of an
operation on bounds. -/
def binary? : BinOp → Fact → Fact → Option Fact
  | .add, .int a, .int b => (Checked.add? a b).map .int
  | .sub, .int a, .int b => (Checked.sub? a b).map .int
  | .mul, .int a, .int b => (Checked.mul? a b).map .int
  | .lt, .int a, .int b => some (.bool (decide (a < b)))
  | .eq, .int a, .int b => some (.bool (decide (a = b)))
  | .eq, .bool a, .bool b => some (.bool (decide (a = b)))
  | .ne, .int a, .int b => some (.bool (decide (a ≠ b)))
  | .ne, .bool a, .bool b => some (.bool (decide (a ≠ b)))
  | .and, .bool a, .bool b => some (.bool (a && b))
  | .or, .bool a, .bool b => some (.bool (a || b))
  | _, _, _ => none

def text : Fact → String
  | .int n => toString n
  | .bool b => toString b
  | .range low high => s!"{low}..={high}"

end Fact

end ForwardFlow
