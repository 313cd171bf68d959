import ForwardFlow.Table
import ForwardFlow.Program.Basic

namespace ForwardFlow

structure VarDecl where
  name : String
  ty : Ty
deriving DecidableEq, Repr

/-- The declared variables of a body. -/
abbrev Scope := Table .var VarDecl

namespace Scope

/-- The first variable declared with a name. -/
def lookup? (scope : Scope) (name : String) : Option Var := scope.find? (·.name == name)

/-- The name of a variable. One that is not declared goes by the text of its index. -/
def nameOf (scope : Scope) (v : Var) : String :=
  match scope.get? v with
  | some decl => decl.name
  | none => v.text

end Scope

/-- A basic block. Every edge is listed twice: as a successor where it starts, as a predecessor where it ends. -/
structure BlockDef where
  label : Option String := none
  elements : List Element := []
  preds : List Block := []
  succs : List Block := []
deriving DecidableEq, Repr

structure Body where
  name : String
  vars : Scope
  entry : Block
  blocks : Table .block BlockDef
deriving DecidableEq, Repr

namespace Body

/-- The body with a single, empty entry block and no variables. -/
def new (name : String) : Body := ⟨name, ∅, .slot 0, .ofList [{}]⟩

instance : Inhabited Body := ⟨new "anonymous"⟩

def addVar (body : Body) (decl : VarDecl) : Body × Var :=
  let (vars, v) := body.vars.push decl
  ({ body with vars }, v)

def addBlock (body : Body) : Body × Block :=
  let (blocks, b) := body.blocks.push {}
  ({ body with blocks }, b)

/-- Changes one block; a block outside the body is refused. -/
def modify? (body : Body) (b : Block) (f : BlockDef → BlockDef) : Option Body :=
  (body.blocks.modify? b f).map fun blocks => { body with blocks }

def pushElement? (body : Body) (b : Block) (e : Element) : Option Body :=
  body.modify? b fun d => { d with elements := d.elements ++ [e] }

def pushSucc? (body : Body) (b succ : Block) : Option Body :=
  body.modify? b fun d => { d with succs := d.succs ++ [succ] }

def pushPred? (body : Body) (b pred : Block) : Option Body :=
  body.modify? b fun d => { d with preds := d.preds ++ [pred] }

/-- Adds an edge to both lists, the successor first. If an end lies outside the body, the error is the body as far
as it was changed. -/
def addEdge (body : Body) (source target : Block) : Except Body Body :=
  match body.pushSucc? source target with
  | none => .error body
  | some started =>
    match started.pushPred? target source with
    | none => .error started
    | some done => .ok done

def clearEdges? (body : Body) (b : Block) : Option Body :=
  body.modify? b fun d => { d with preds := [], succs := [] }

def setLabel? (body : Body) (b : Block) (label : Option String) : Option Body :=
  body.modify? b fun d => { d with label }

/-- The successors of a block, in listed order; none for a block outside the body. -/
def succs (body : Body) (b : Block) : List Block := (body.blocks.get? b).elim [] BlockDef.succs

def preds (body : Body) (b : Block) : List Block := (body.blocks.get? b).elim [] BlockDef.preds

def elements (body : Body) (b : Block) : List Element := (body.blocks.get? b).elim [] BlockDef.elements

/-- The number of edges, each counted as often as it is listed where it starts. -/
def edgeCount (body : Body) : Nat := (body.blocks.toList.flatMap BlockDef.succs).length

/-- The label of a block. One without a label goes by the text of its index. -/
def labelOf (body : Body) (b : Block) : String := ((body.blocks.get? b).bind BlockDef.label).getD b.text

end Body

end ForwardFlow
