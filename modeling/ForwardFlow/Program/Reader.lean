import ForwardFlow.Text.Decimal
import ForwardFlow.Program.Line
import ForwardFlow.Program.Outline
import ForwardFlow.Program.SyntaxError

namespace ForwardFlow

open Text (trim words after? splitFirst? beforeLast? readWord?)

def readVar (scope : Scope) (chars : List Char) : Except SyntaxError Var :=
  match scope.lookup? (.ofList chars) with
  | some v => .ok v
  | none => .error (.undeclaredVar (.ofList chars))

def readLiteral? (chars : List Char) : Option Literal :=
  if chars = "true".toList then some (.bool true)
  else if chars = "false".toList then some (.bool false)
  else (readWord? chars).map .int

def readOperand (scope : Scope) (chars : List Char) : Except SyntaxError Operand :=
  match readLiteral? chars with
  | some literal => .ok (.lit literal)
  | none => (readVar scope chars).map .var

/-- The arguments of a call stand between its first opening and its last closing parenthesis. Empty ones are
skipped. -/
def readCall (scope : Scope) (text call : List Char) : Except SyntaxError Expr :=
  match splitFirst? ['('] call with
  | none => .error (.malformedCall (.ofList text))
  | some (callee, rest) =>
    match beforeLast? ')' rest with
    | none => .error (.malformedCall (.ofList text))
    | some args => do
      let args ← (((args.splitOn ',').map trim).filter (!·.isEmpty)).mapM (readOperand scope)
      return .call (.ofList (trim callee)) args

def readBinary (scope : Scope) (left op right : List Char) : Except SyntaxError Expr :=
  match BinOp.ofSymbol? (.ofList op) with
  | none => .error (.unknownOperator (.ofList op))
  | some op => return .binary op (← readOperand scope left) (← readOperand scope right)

def readExpr (scope : Scope) (chars : List Char) : Except SyntaxError Expr :=
  let text := trim chars
  match after? "call " text with
  | some call => readCall scope text call
  | none =>
    match after? "!" text with
    | some operand => (readOperand scope (trim operand)).map .not
    | none =>
      match words text with
      | [operand] => (readOperand scope operand).map .use
      | [left, op, right] => readBinary scope left op right
      | _ => .error (.malformedExpr (.ofList text))

/-- A target and a source on either side of the first equals sign that has a space before and after it. -/
def readAssignment (scope : Scope) (chars : List Char) : Except SyntaxError (Var × Expr) :=
  match splitFirst? " = ".toList chars with
  | none => .error .malformedAssignment
  | some (target, source) => return (← readVar scope (trim target), ← readExpr scope source)

def readElement (scope : Scope) (chars : List Char) : Except SyntaxError Element :=
  match after? "init " chars with
  | some rest => (readAssignment scope rest).map fun (target, source) => .init target source
  | none =>
  match after? "end " chars with
  | some rest => (readVar scope (trim rest)).map .scopeEnd
  | none =>
  match after? "eval " chars with
  | some rest => (readExpr scope rest).map fun e => .stmt (.eval e)
  | none =>
  match after? "branch " chars with
  | some rest => (readOperand scope (trim rest)).map fun o => .stmt (.branch o)
  | none =>
  if chars = "return".toList then .ok (.stmt (.ret none))
  else
  match after? "return " chars with
  | some rest => (readOperand scope (trim rest)).map fun o => .stmt (.ret (some o))
  | none =>
  if chars.contains '=' then (readAssignment scope chars).map fun (target, source) => .stmt (.assign target source)
  else .error (.unknownLine (.ofList chars))

def readTarget (labels : List String) (chars : List Char) : Except SyntaxError Block :=
  match labels.idxOf? (.ofList chars) with
  | some n => .ok (.slot n)
  | none => .error (.unknownBlock (.ofList chars))

/-- A line of a block adds its targets, or else one element. -/
def OutlineBlock.addLine (scope : Scope) (labels : List String) (block : OutlineBlock) (chars : List Char) :
    Except SyntaxError OutlineBlock :=
  match after? "goto " chars with
  | some targets => do
    let targets ← ((targets.splitOn ',').map trim).mapM (readTarget labels)
    return { block with targets := block.targets ++ targets }
  | none => do
    let element ← readElement scope chars
    return { block with elements := block.elements ++ [element] }

def readType (chars : List Char) : Except SyntaxError Ty :=
  if chars = "i64".toList then .ok .int
  else if chars = "bool".toList then .ok .bool
  else
    match after? "record " chars with
    | some name => if isIdent (trim name) then .ok (.record (.ofList (trim name))) else .error (.unknownType (.ofList chars))
    | none => .error (.unknownType (.ofList chars))

def readDecl (chars : List Char) : Except SyntaxError VarDecl :=
  match splitFirst? [':'] chars with
  | none => .error .malformedDecl
  | some (name, ty) =>
    let name := trim name
    if !isIdent name then .error (.invalidVarName (.ofList name))
    else if keywords.contains (.ofList name) then .error (.keywordVarName (.ofList name))
    else return ⟨.ofList name, ← readType (trim ty)⟩

/-- What the lines before the first label say. -/
structure Header where
  name : String := "anonymous"
  vars : List VarDecl := []
deriving DecidableEq, Repr

def Header.addLine (header : Header) (chars : List Char) : Except SyntaxError Header :=
  match after? "function " chars with
  | some name => .ok { header with name := .ofList (trim name) }
  | none =>
    match after? "var " chars with
    | some decl => do
      let decl ← readDecl decl
      if header.vars.any (·.name == decl.name) then .error (.duplicateVar decl.name)
      else return { header with vars := header.vars ++ [decl] }
    | none => .error .outsideBlock

/-- Feeds lines one after another to a reader, and says at which line it fails. -/
def foldLines {α : Type} (step : α → List Char → Except SyntaxError α) : α → List Line → Except ParseError α
  | a, [] => .ok a
  | a, line :: rest =>
    match step a line.chars with
    | .ok next => foldLines step next rest
    | .error e => .error (.line line.number e)

/-- No two sections may have one label. The labels seen so far are kept. -/
def checkLabels (seen : List String) : List Section → Except ParseError Unit
  | [] => .ok ()
  | s :: rest =>
    if seen.contains s.label then .error (.line s.number (.duplicateBlock s.label)) else checkLabels (s.label :: seen) rest

def readSection (scope : Scope) (labels : List String) (s : Section) : Except ParseError OutlineBlock :=
  foldLines (OutlineBlock.addLine scope labels) { label := s.label } s.content

namespace Outline

/-- Reads the header, then all labels, so that an edge may go to a block further on, then the blocks. -/
def ofLines (lines : List Line) : Except ParseError Outline := do
  let (top, parts) := sections lines
  let header ← foldLines Header.addLine {} top
  checkLabels [] parts
  if parts.isEmpty then throw (.noBlocks header.name)
  let blocks ← parts.mapM (readSection (.ofList header.vars) (parts.map Section.label))
  return ⟨header.name, header.vars, blocks⟩

end Outline

/-- The body a text stands for. -/
def Body.parse (text : String) : Except ParseError Body :=
  (Outline.ofLines (Line.ofText text.toList)).map Outline.toBody

end ForwardFlow
