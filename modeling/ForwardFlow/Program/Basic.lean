import ForwardFlow.Index

namespace ForwardFlow

/-- The declared type of a variable. A record type is known by its name only. -/
inductive Ty
  | int
  | bool
  | record (name : String)
deriving DecidableEq, Repr

inductive Literal
  | int (value : Int64)
  | bool (value : Bool)
deriving DecidableEq, Repr

inductive Operand
  | var (var : Var)
  | lit (literal : Literal)
deriving DecidableEq, Repr

def Operand.var? : Operand → Option Var
  | .var v => some v
  | .lit _ => none

inductive BinOp
  | add
  | sub
  | mul
  | eq
  | ne
  | lt
  | and
  | or
deriving DecidableEq, Repr

namespace BinOp

def all : List BinOp := [.add, .sub, .mul, .eq, .ne, .lt, .and, .or]

def symbol : BinOp → String
  | .add => "+"
  | .sub => "-"
  | .mul => "*"
  | .eq => "=="
  | .ne => "!="
  | .lt => "<"
  | .and => "&&"
  | .or => "||"

def ofSymbol? (s : String) : Option BinOp := all.find? (·.symbol == s)

theorem ofSymbol?_symbol (op : BinOp) : ofSymbol? op.symbol = some op := by
  cases op <;> decide

end BinOp

/-- A right-hand side. The result of a call is never known, since the callee lies outside the body. -/
inductive Expr
  | use (operand : Operand)
  | binary (op : BinOp) (left right : Operand)
  | not (operand : Operand)
  | call (callee : String) (args : List Operand)
deriving DecidableEq, Repr

def Expr.operands : Expr → List Operand
  | .use o => [o]
  | .binary _ l r => [l, r]
  | .not o => [o]
  | .call _ args => args

/-- The variables an expression reads, from left to right. -/
def Expr.vars (e : Expr) : List Var := e.operands.filterMap Operand.var?

inductive Stmt
  | assign (target : Var) (source : Expr)
  | eval (expr : Expr)
  | branch (condition : Operand)
  | ret (value : Option Operand)
deriving DecidableEq, Repr

/-- A block is a list of elements: statements, initializers of variables and ends of their scopes. -/
inductive Element
  | stmt (stmt : Stmt)
  | init (target : Var) (source : Expr)
  | scopeEnd (var : Var)
deriving DecidableEq, Repr

namespace Element

def stmt? : Element → Option Stmt
  | .stmt s => some s
  | _ => none

/-- What the element writes: a variable, and the expression whose value it gets. -/
def write? : Element → Option (Var × Expr)
  | .stmt (.assign target source) => some (target, source)
  | .init target source => some (target, source)
  | _ => none

/-- The variable the element writes. -/
def target? (e : Element) : Option Var := e.write?.map Prod.fst

/-- The variables the element mentions: the one it writes or ends, then those it reads from left to right. -/
def vars : Element → List Var
  | .stmt (.assign target source) => target :: source.vars
  | .stmt (.eval e) => e.vars
  | .stmt (.branch o) => o.var?.toList
  | .stmt (.ret o) => (o.bind Operand.var?).toList
  | .init target source => target :: source.vars
  | .scopeEnd v => [v]

end Element

end ForwardFlow
