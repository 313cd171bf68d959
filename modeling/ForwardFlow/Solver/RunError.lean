import ForwardFlow.Fault
import ForwardFlow.Graph.Consistency
import ForwardFlow.Knowledge.Basic
import ForwardFlow.Program.Printer

namespace ForwardFlow

/-- Why a run has no result. -/
inductive RunError
  | graph (error : GraphError)
  | undeclaredVar (block : Block) (place : Nat) (var : Var)
  | unmodelledVar (block : Block) (place : Nat) (var : Var) (ty : Ty)
  | observer (complaint : String)
  | fault (fault : Fault)
deriving DecidableEq, Repr

namespace RunError

def message : RunError → String
  | .graph error => error.message
  | .undeclaredVar block place var => s!"element {place} of {block.text} uses undeclared variable {var.text}"
  | .unmodelledVar block place var ty =>
    s!"element {place} of {block.text} uses variable {var.text} of type `{ty.text}`, which the environment cannot model"
  | .observer complaint => s!"observer failed: {complaint}"
  | .fault f => f.message

/-- The error that lies behind an error: only what an observer complains about comes from elsewhere. -/
def source? : RunError → Option String
  | .observer complaint => some complaint
  | _ => none

def ofRefusal (block : Block) (place : Nat) (var : Var) : Knowledge.Refusal → RunError
  | .undeclared => .undeclaredVar block place var
  | .unmodelled ty => .unmodelledVar block place var ty

end RunError

/-- What a run refuses about one element that stands at a place of a block. -/
def Knowledge.elementError? (k : Knowledge) (block : Block) (place : Nat) (e : Element) : Option RunError :=
  (k.elementRefusal? e).map fun (v, refusal) => .ofRefusal block place v refusal

/-- The first element a run refuses, block by block, reachable or not. -/
def Knowledge.bodyError? (k : Knowledge) (body : Body) : Option RunError :=
  body.blocks.toPairs.findSome? fun (b, d) => d.elements.zipIdx.findSome? fun (e, n) => k.elementError? b n e

end ForwardFlow
