import ForwardFlow.Program.Body

namespace ForwardFlow

/-- One block as it is written: its label, its elements and the blocks it goes to, by number. -/
structure OutlineBlock where
  label : String
  elements : List Element := []
  targets : List Block := []
deriving DecidableEq, Repr

/-- A body as it is written, where an edge stands only in the block it leaves and the entry comes first. -/
structure Outline where
  name : String
  vars : List VarDecl
  blocks : List OutlineBlock
deriving DecidableEq, Repr

namespace Outline

/-- The edges in the order in which they are written. -/
def edges (o : Outline) : List (Block × Block) :=
  o.blocks.zipIdx.flatMap fun (block, n) => block.targets.map fun target => (.slot n, target)

def predsOf (o : Outline) (b : Block) : List Block :=
  o.edges.filterMap fun (source, target) => if target = b then some source else none

/-- The body an outline describes. A predecessor list follows the order in which the edges are written. -/
def toBody (o : Outline) : Body where
  name := o.name
  vars := .ofList o.vars
  entry := .slot 0
  blocks := .ofList <| o.blocks.zipIdx.map fun (block, n) =>
    { label := some block.label, elements := block.elements, succs := block.targets, preds := o.predsOf (.slot n) }

end Outline

end ForwardFlow
