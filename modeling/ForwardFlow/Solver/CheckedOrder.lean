import ForwardFlow.Graph.Stack
import ForwardFlow.Solver.RunError

namespace ForwardFlow

/-- The order of the reachable blocks of a body, once its graph has been checked. -/
def Body.checkedOrder (body : Body) : Except RunError BlockOrder :=
  match body.graphError? with
  | some error => .error (.graph error)
  | none => (body.stackPostorder.map BlockOrder.ofList).mapError .fault

end ForwardFlow
