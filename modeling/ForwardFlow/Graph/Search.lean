import Std.Data.ExtTreeSet
import ForwardFlow.Graph.Order

namespace ForwardFlow

/-- How far a depth-first search has come: the blocks it has entered, and those it has finished, the last one first. -/
structure Search where
  entered : Std.ExtTreeSet Block := ∅
  finished : List Block := []

/-- Enters a block unless that was done before, searches its successors in turn, and finishes it. The depth bounds the
number of blocks that are entered and not yet finished. -/
def Search.visit (succs : Block → List Block) : Nat → Search → Block → Search
  | 0, s, _ => s
  | depth + 1, s, b =>
    if b ∈ s.entered then s
    else
      let inner := (succs b).foldl (visit succs depth) { s with entered := s.entered.insert b }
      { inner with finished := b :: inner.finished }

namespace Body

/-- The blocks that can be reached from the entry, in reverse postorder. -/
def reversePostorder (body : Body) : List Block :=
  (Search.visit body.succs body.blocks.size {} body.entry).finished

end Body

end ForwardFlow
