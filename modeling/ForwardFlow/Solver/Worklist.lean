import Std.Data.ExtTreeSet
import ForwardFlow.Fault
import ForwardFlow.Graph.Order
import ForwardFlow.Solver.Problem

namespace ForwardFlow

/-- The pending blocks, kept so that the next one is found fast: as a set of positions of which the first comes next, or
as a queue beside the set of its members. -/
inductive Worklist
  | positions (pending : Std.ExtTreeSet Position)
  | queue (waiting : List Block) (members : Std.ExtTreeSet Block)

namespace Worklist

def empty : Policy → Worklist
  | .reversePostorder => .positions ∅
  | .fifo => .queue [] ∅

/-- Makes a block pending. A block outside the order has no position and is passed over. -/
def push (order : BlockOrder) (w : Worklist) (b : Block) : Worklist :=
  match w with
  | .positions pending =>
    match order.position? b with
    | some p => .positions (pending.insert p)
    | none => .positions pending
  | .queue waiting members =>
    if b ∈ members then .queue waiting members else .queue (waiting ++ [b]) (members.insert b)

/-- Takes the next block out. -/
def pop (order : BlockOrder) : Worklist → Except Fault (Option (Block × Worklist))
  | .positions pending =>
    match pending.min? with
    | none => .ok none
    | some p => do
      let b ← order.blocks.read p
      return some (b, .positions (pending.erase p))
  | .queue [] _ => .ok none
  | .queue (b :: waiting) members => .ok (some (b, .queue waiting (members.erase b)))

end Worklist

end ForwardFlow
