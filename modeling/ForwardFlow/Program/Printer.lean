import ForwardFlow.Text.Decimal
import ForwardFlow.Program.Body

namespace ForwardFlow

def Literal.chars : Literal → List Char
  | .int n => Text.renderWord n
  | .bool true => "true".toList
  | .bool false => "false".toList

def Operand.chars (scope : Scope) : Operand → List Char
  | .var v => (scope.nameOf v).toList
  | .lit l => l.chars

/-- The parts, with a comma and a space between two. -/
def commaList (parts : List (List Char)) : List Char := [',', ' '].intercalate parts

def Expr.chars (scope : Scope) : Expr → List Char
  | .use o => o.chars scope
  | .binary op l r => l.chars scope ++ ' ' :: op.symbol.toList ++ ' ' :: r.chars scope
  | .not o => '!' :: o.chars scope
  | .call callee args => "call ".toList ++ callee.toList ++ '(' :: commaList (args.map (·.chars scope)) ++ [')']

def assignmentChars (scope : Scope) (target : Var) (source : Expr) : List Char :=
  (scope.nameOf target).toList ++ " = ".toList ++ source.chars scope

def Stmt.chars (scope : Scope) : Stmt → List Char
  | .assign target source => assignmentChars scope target source
  | .eval e => "eval ".toList ++ e.chars scope
  | .branch o => "branch ".toList ++ o.chars scope
  | .ret none => "return".toList
  | .ret (some o) => "return ".toList ++ o.chars scope

def Element.chars (scope : Scope) : Element → List Char
  | .stmt s => s.chars scope
  | .init target source => "init ".toList ++ assignmentChars scope target source
  | .scopeEnd v => "end ".toList ++ (scope.nameOf v).toList

/-- An element as it stands in the text of its body. -/
def Element.text (scope : Scope) (e : Element) : String := .ofList (e.chars scope)

def Ty.chars : Ty → List Char
  | .int => "i64".toList
  | .bool => "bool".toList
  | .record name => "record ".toList ++ name.toList

def Ty.text (ty : Ty) : String := .ofList ty.chars

def VarDecl.chars (decl : VarDecl) : List Char :=
  "var ".toList ++ decl.name.toList ++ ':' :: ' ' :: decl.ty.chars

namespace Body

/-- The order in which the blocks are printed: the entry, then the others by index. -/
def printOrder (body : Body) : List Block := body.entry :: body.blocks.indices.filter (· != body.entry)

/-- The lines of one block: its label, and deeper its elements and one line with all its successors. -/
def blockLines (body : Body) (b : Block) (d : BlockDef) : List (List Char) :=
  ((body.labelOf b).toList ++ [':']) ::
    (d.elements.map (·.chars body.vars) ++
      if d.succs.isEmpty then [] else
        ["goto ".toList ++ commaList (d.succs.map fun s => (body.labelOf s).toList)]).map ("    ".toList ++ ·)

/-- The lines of the text of a body. An entry outside the body cannot be printed. -/
def lines? (body : Body) : Option (List (List Char)) := do
  let blocks ← body.printOrder.mapM fun b => (body.blocks.get? b).map (body.blockLines b)
  return ("function ".toList ++ body.name.toList) :: body.vars.toList.map VarDecl.chars ++ blocks.flatten

/-- The text of a body, each line behind an indent. -/
def text? (body : Body) (indent : String) : Option String :=
  body.lines?.map fun lines => .ofList (lines.flatMap fun l => indent.toList ++ l ++ ['\n'])

end Body

end ForwardFlow
