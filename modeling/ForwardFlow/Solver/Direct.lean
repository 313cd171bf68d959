import Std.Data.ExtTreeMap
import ForwardFlow.Graph.Search
import ForwardFlow.Solver.Problem

namespace ForwardFlow

namespace Policy

/-- Inserts a block before the first one that comes later in an order. -/
def insertByRank (order : BlockOrder) (b : Block) : List Block → List Block
  | [] => [b]
  | c :: rest => if order.rank b < order.rank c then b :: c :: rest else c :: insertByRank order b rest

/-- Makes a block pending unless it is: where it belongs by its position, or behind all others. -/
def enqueue (policy : Policy) (order : BlockOrder) (pending : List Block) (b : Block) : List Block :=
  if b ∈ pending then pending
  else
    match policy with
    | .reversePostorder => insertByRank order b pending
    | .fifo => pending ++ [b]

end Policy

/-- The states at the ends of the visited blocks. -/
abbrev Exits (L : Type) := Std.ExtTreeMap Block (State L)

/-- What a run ends with: the states at the ends of the visited blocks, and the visits in the order they were made. -/
structure Solution (L : Type) where
  exits : Exits L
  trail : List Block

def Solution.visits {L : Type} (solution : Solution L) : Nat := solution.trail.length

/-- How far a run has come. The pending blocks stand in the order in which they will be visited, each once; the visits
made stand in the order in which they were made. -/
structure Progress (L : Type) where
  exits : Exits L := ∅
  pending : List Block
  trail : List Block := []

namespace Problem

variable {L : Type} [JoinLattice L]

/-- The order in which the blocks are numbered, first visited and replayed. -/
def order (p : Problem L) : BlockOrder := .ofList p.body.reversePostorder

/-- One predecessor's part of the state at the start of a block. One that was not visited has none. -/
def joinExit (p : Problem L) (exits : Exits L) (joined : Option (State L)) (pred : Block) : Option (State L) :=
  match exits[pred]? with
  | none => joined
  | some exit =>
    match joined with
    | none => some exit
    | some s => some (p.pass.join s exit)

/-- The state at the start of a block: the join over the predecessors in listed order, and before them the initial state
if the block is the entry. -/
def input (p : Problem L) (exits : Exits L) (b : Block) : Option (State L) :=
  (p.body.preds b).foldl (p.joinExit exits) (if b = p.body.entry then some p.initial else none)

/-- Whether a state is new at the end of a block, as far as the lattice can tell. -/
def isNew (exits : Exits L) (b : Block) (s : State L) : Bool :=
  match exits[b]? with
  | some old => !JoinLattice.equals old.lattice s.lattice
  | none => true

/-- Visits a block. Its successors become pending if the lattice value at its end is new. -/
def visit (p : Problem L) (order : BlockOrder) (progress : Progress L) (b : Block) : Progress L :=
  match p.input progress.exits b with
  | none => progress
  | some s =>
    let exit := p.pass.transferAll s (p.body.elements b)
    { exits := progress.exits.insert b exit
      pending := if isNew progress.exits b exit then
          (p.body.succs b).foldl (p.policy.enqueue order) progress.pending
        else progress.pending
      trail := progress.trail ++ [b] }

/-- Visits blocks until none is pending. No answer means that the steps did not suffice. -/
def iterate (p : Problem L) (order : BlockOrder) : Nat → Progress L → Option (Progress L)
  | 0, progress => if progress.pending.isEmpty then some progress else none
  | steps + 1, progress =>
    match progress.pending with
    | [] => some progress
    | b :: rest => iterate p order steps (p.visit order { progress with pending := rest } b)

/-- At first all reachable blocks are pending and none was visited. -/
def solve (p : Problem L) (steps : Nat) : Except RunError (Solution L) :=
  match p.error? with
  | some error => .error error
  | none =>
    let order := p.order
    match p.iterate order steps { pending := order.toList } with
    | some done => .ok ⟨done.exits, done.trail⟩
    | none => .error (.fault .outOfSteps)

/-- The views after the elements of a list, from a state before them. -/
def viewsFrom (p : Problem L) (s : State L) : List Element → List (View L)
  | [] => []
  | e :: rest => ⟨e, p.pass.transfer s e⟩ :: p.viewsFrom (p.pass.transfer s e) rest

/-- The views inside a block, recomputed from the states at the ends of its predecessors. -/
def blockViews (p : Problem L) (exits : Exits L) (b : Block) : List (View L) :=
  match exits[b]?, p.input exits b with
  | some _, some s => p.viewsFrom s (p.body.elements b)
  | _, _ => []

/-- All views, block by block. -/
def replay (p : Problem L) (exits : Exits L) : List (View L) := p.order.toList.flatMap (p.blockViews exits)

/-- Solves a problem and shows the replay to an observer. The views it was shown are part of the answer. -/
def observe (p : Problem L) (steps : Nat) (observer : Observer L) : List (View L) × Except RunError (Solution L) :=
  match p.solve steps with
  | .error error => ([], .error error)
  | .ok solution =>
    match observer.watch [] (p.replay solution.exits) with
    | (shown, some complaint) => (shown, .error (.observer complaint))
    | (shown, none) => (shown, .ok solution)

end Problem

end ForwardFlow
