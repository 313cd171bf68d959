import ForwardFlow.Program.Body

namespace ForwardFlow

/-- Why the blocks of a body do not form a graph. -/
inductive GraphError
  | invalidEntry (entry : Block)
  | danglingEdge (source target : Block)
  | inconsistentEdge (source target : Block)
deriving DecidableEq, Repr

def GraphError.message : GraphError → String
  | .invalidEntry entry => s!"entry block {entry.text} is not part of the graph"
  | .danglingEdge source target => s!"edge {source.text} -> {target.text} names a block outside the graph"
  | .inconsistentEdge source target =>
    s!"edge {source.text} -> {target.text} is missing from one side of the predecessor/successor lists"

namespace Body

/-- An edge to a successor has to be listed there as often as here. -/
def succError? (body : Body) (b : Block) (d : BlockDef) (succ : Block) : Option GraphError :=
  match body.blocks.get? succ with
  | none => some (.danglingEdge b succ)
  | some target => if d.succs.count succ = target.preds.count b then none else some (.inconsistentEdge b succ)

/-- An edge from a predecessor has to be listed there. -/
def predError? (body : Body) (b pred : Block) : Option GraphError :=
  match body.blocks.get? pred with
  | none => some (.danglingEdge pred b)
  | some source => if source.succs.contains b then none else some (.inconsistentEdge pred b)

def blockError? (body : Body) (b : Block) (d : BlockDef) : Option GraphError :=
  (d.succs.findSome? (body.succError? b d)).or (d.preds.findSome? (body.predError? b))

/-- The first fault of the graph: the entry comes first, then block by block the successors and the predecessors. -/
def graphError? (body : Body) : Option GraphError :=
  if body.blocks.contains body.entry then
    body.blocks.toPairs.findSome? fun (b, d) => body.blockError? b d
  else some (.invalidEntry body.entry)

end Body

end ForwardFlow
