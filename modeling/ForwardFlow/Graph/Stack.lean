import ForwardFlow.Fault
import ForwardFlow.Graph.Order

namespace ForwardFlow

/-- A depth-first search that keeps its own stack: each block that is entered and not yet finished stands there,
above those that led to it, beside the successors still to be looked at. -/
structure StackSearch where
  entered : Table .block Bool
  stack : List (Block × List Block) := []
  finished : List Block := []
deriving DecidableEq, Repr

namespace StackSearch

def enter (body : Body) (s : StackSearch) (b : Block) : Except Fault StackSearch := do
  let entered ← s.entered.write b true
  let block ← body.blocks.read b
  return { s with entered, stack := (b, block.succs) :: s.stack }

/-- Looks at the next successor of the top block, or finishes that block if none remains. -/
def step (body : Body) (s : StackSearch) : Except Fault StackSearch :=
  match s.stack with
  | [] => .ok s
  | (b, []) :: below => .ok { s with stack := below, finished := b :: s.finished }
  | (b, succ :: later) :: below => do
    let s := { s with stack := (b, later) :: below }
    if ← s.entered.read succ then return s else s.enter body succ

/-- Steps until the stack is empty. -/
def run (body : Body) : Nat → StackSearch → Except Fault StackSearch
  | 0, s => if s.stack.isEmpty then .ok s else .error .outOfSteps
  | steps + 1, s => if s.stack.isEmpty then .ok s else do run body steps (← s.step body)

end StackSearch

namespace Body

/-- A search finishes each block once and looks at each edge once. -/
def searchSteps (body : Body) : Nat := body.blocks.size + body.edgeCount

/-- The reverse postorder by a search with its own stack, in which every look into a table may fail. -/
def stackPostorder (body : Body) : Except Fault (List Block) := do
  let start ← StackSearch.enter body { entered := .ofIndices body.blocks.size fun _ => false } body.entry
  let done ← start.run body body.searchSteps
  return done.finished

end Body

end ForwardFlow
