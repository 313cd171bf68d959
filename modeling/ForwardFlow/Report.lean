import ForwardFlow.Analysis.Assigned
import ForwardFlow.Analysis.Constants
import ForwardFlow.Program.Printer
import ForwardFlow.Solver.Bound
import ForwardFlow.Solver.Direct

namespace ForwardFlow

/-- The text with spaces added at its end up to a width, counted in characters. -/
def padRight (width : Nat) (s : String) : String := s ++ .ofList (List.replicate (width - s.length) ' ')

namespace Report

def assigned (scope : Scope) (vars : MustSet Var) : String :=
  "assigned [" ++ ", ".intercalate (vars.elems.toList.map scope.nameOf) ++ "]"

def constant : Flat Int64 → String
  | .bottom => "bottom"
  | .value n => toString n
  | .top => "top"

def constants (scope : Scope) (values : Constants) : String :=
  "constants [" ++
    ", ".intercalate (values.entries.toList.map fun (v, value) => scope.nameOf v ++ " = " ++ constant value) ++ "]"

variable {L : Type}

def state (render : Scope → L → String) (scope : Scope) (s : State L) : String :=
  render scope s.lattice ++ " " ++ s.known.text scope

/-- The line for an element and the state after it. -/
def viewLine (render : Scope → L → String) (scope : Scope) (view : View L) : String :=
  "  " ++ padRight 24 (view.element.text scope) ++ " ; " ++ state render scope view.state

/-- The line for the end of a block. -/
def blockLine (render : Scope → L → String) (body : Body) (solution : Solution L) (b : Block) : String :=
  body.labelOf b ++ ": " ++
    match solution.exits[b]? with
    | some s => state render body.vars s
    | none => "unreachable"

/-- The report on one body: a heading, if asked for the state after each element, the states at the ends of the blocks,
and the number of visits. -/
def lines (render : Scope → L → String) (body : Body) (views : List (View L)) (solution : Solution L) : List String :=
  s!"function {body.name}:" :: views.map (viewLine render body.vars) ++
    body.blocks.indices.map (blockLine render body solution) ++ [s!"({solution.visits} block visits)"]

/-- Solves a problem with lattice values of bounded height and reports the result. -/
def ofProblem [JoinLattice L] (render : Scope → L → String) (p : Problem L) (height : Nat) (trace : Bool) :
    Except RunError String := do
  let solution ← p.solve (p.body.visitBound height)
  let views := if trace then p.replay solution.exits else []
  return String.join ((lines render p.body views solution).map (· ++ "\n"))

end Report

/-- The bundled analyses. -/
inductive Bundled
  | assigned
  | constants
deriving DecidableEq, Repr

namespace Bundled

def report (analysis : Bundled) (policy : Policy) (trace : Bool) (body : Body) : Except RunError String :=
  match analysis with
  | .assigned =>
    Report.ofProblem Report.assigned { body, policy, pass := { analysis := Analysis.assigned } } body.vars.size trace
  | .constants =>
    Report.ofProblem Report.constants { body, policy, pass := { analysis := Analysis.constants } } (3 * body.vars.size) trace

end Bundled

end ForwardFlow
