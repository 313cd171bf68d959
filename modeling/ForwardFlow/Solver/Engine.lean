import ForwardFlow.Lattice.Sealed
import ForwardFlow.Solver.CheckedOrder
import ForwardFlow.Solver.Recorded
import ForwardFlow.Solver.Worklist

namespace ForwardFlow

open Recorded (record checked fail)

/-- The engine's table: the state at the end of each block, for a block that was visited. -/
abbrev ExitTable (L : Type) := Table .block (Option (State L))

/-- An observer of sealed values. It may look inside a value, which can be a fault. -/
abbrev SealedObserver (ι : Type) [DecidableEq ι] [Catalogue ι] :=
  List (View (Sealed ι)) → View (Sealed ι) → Except Fault (Option String)

/-- How far the engine has come. -/
structure EngineState (L : Type) where
  exits : ExitTable L
  worklist : Worklist
  visits : Nat := 0

/-- What the engine ends with. -/
structure EngineResult (L : Type) where
  exits : ExitTable L
  visits : Nat

/-! The engine never sees what is inside a lattice value: only the operations of the pass, which sealed the values, open
them again. It keeps its states in a table, and each look into a table may be a fault. -/

namespace Engine

variable {ι : Type} [DecidableEq ι] [Catalogue ι] {i : ι} (p : Problem (Catalogue.Carrier i))

def initial : State (Sealed ι) := ⟨⟨i, p.pass.analysis.initial⟩, p.start⟩

def merge (ty : Ty) (a b : Fact) (joined : Knowledge) : Recorded (Sealed ι) (Option Fact × Knowledge) := do
  record (.merge ty a b)
  return p.pass.analysis.merge ty a b joined

def join (s t : State (Sealed ι)) : Recorded (Sealed ι) (State (Sealed ι)) := do
  let (lattice, _) ← checked (s.lattice.joinAs i t.lattice)
  let known ← s.known.joinM (merge p) t.known
  return ⟨lattice, known⟩

def runModel (e : Element) (known : Knowledge) (model : Model) : Recorded (Sealed ι) Knowledge := do
  let (handled, known) := model e known
  record (.model handled)
  return known

def elementHook (e : Element) (s : State (Catalogue.Carrier i)) : Recorded (Sealed ι) (State (Catalogue.Carrier i)) :=
  if p.pass.hooks.element then do
    record (.element e)
    return p.pass.analysis.onElement e s
  else return s

def stmtHook (e : Element) (s : State (Catalogue.Carrier i)) : Recorded (Sealed ι) (State (Catalogue.Carrier i)) :=
  match e.stmt? with
  | some stmt =>
    if p.pass.hooks.stmt then do
      record (.stmt stmt)
      return p.pass.analysis.onStmt stmt s
    else return s
  | none => return s

def transfer (s : State (Sealed ι)) (e : Element) : Recorded (Sealed ι) (State (Sealed ι)) := do
  let known ← p.pass.models.foldlM (runModel e) (p.pass.builtin s.known e)
  let lattice ← checked (s.lattice.openAs i)
  let s ← elementHook p e ⟨lattice, known⟩
  let s ← stmtHook p e s
  return ⟨⟨i, s.lattice⟩, s.known⟩

def joinExit (exits : ExitTable (Sealed ι)) (joined : Option (State (Sealed ι))) (pred : Block) :
    Recorded (Sealed ι) (Option (State (Sealed ι))) := do
  match ← checked (exits.read pred) with
  | none => return joined
  | some exit =>
    match joined with
    | none => return some exit
    | some s => return some (← join p s exit)

def input (exits : ExitTable (Sealed ι)) (b : Block) : Recorded (Sealed ι) (Option (State (Sealed ι))) := do
  let block ← checked (p.body.blocks.read b)
  block.preds.foldlM (joinExit p exits) (if b = p.body.entry then some (initial p) else none)

/-- Whether a state is new at the end of a block, as far as the lattice can tell. -/
def isNew (i : ι) (old : Option (State (Sealed ι))) (s : State (Sealed ι)) : Except Fault Bool :=
  match old with
  | none => .ok true
  | some old => (old.lattice.equalAs i s.lattice).map (!·)

def visit (order : BlockOrder) (engine : EngineState (Sealed ι)) (b : Block) :
    Recorded (Sealed ι) (EngineState (Sealed ι)) := do
  match ← input p engine.exits b with
  | none => return engine
  | some s =>
    let block ← checked (p.body.blocks.read b)
    let exit ← block.elements.foldlM (transfer p) s
    let old ← checked (engine.exits.read b)
    let changed ← checked (isNew i old exit)
    let exits ← checked (engine.exits.write b (some exit))
    let worklist := if changed then block.succs.foldl (Worklist.push order) engine.worklist else engine.worklist
    return ⟨exits, worklist, engine.visits + 1⟩

/-- Visits blocks until none is pending. -/
def iterate (order : BlockOrder) (steps : Nat) (engine : EngineState (Sealed ι)) :
    Recorded (Sealed ι) (EngineState (Sealed ι)) := do
  match ← checked (engine.worklist.pop order) with
  | none => return engine
  | some (b, worklist) =>
    match steps with
    | 0 => fail (.fault .outOfSteps)
    | steps + 1 =>
      let engine ← visit p order { engine with worklist } b
      iterate order steps engine

/-- Shows a view, given the views shown before. -/
def present (observer : SealedObserver ι) (shown : List (View (Sealed ι))) (view : View (Sealed ι)) :
    Recorded (Sealed ι) (List (View (Sealed ι))) := do
  record (.shown view)
  match ← checked (observer shown view) with
  | some complaint => fail (.observer complaint)
  | none => return shown ++ [view]

def replayElement (observer : SealedObserver ι) (point : List (View (Sealed ι)) × State (Sealed ι)) (e : Element) :
    Recorded (Sealed ι) (List (View (Sealed ι)) × State (Sealed ι)) := do
  let s ← transfer p point.2 e
  let shown ← present observer point.1 ⟨e, s⟩
  return (shown, s)

def replayBlock (observer : SealedObserver ι) (exits : ExitTable (Sealed ι)) (shown : List (View (Sealed ι)))
    (b : Block) : Recorded (Sealed ι) (List (View (Sealed ι))) := do
  match ← checked (exits.read b) with
  | none => return shown
  | some _ =>
    match ← input p exits b with
    | none => return shown
    | some s =>
      let block ← checked (p.body.blocks.read b)
      let point ← block.elements.foldlM (replayElement p observer) (shown, s)
      return point.1

/-- Shows the replay, if there is someone to show it to. -/
def replay (observer : Option (SealedObserver ι)) (order : BlockOrder) (exits : ExitTable (Sealed ι)) :
    Recorded (Sealed ι) Unit :=
  match observer with
  | none => return ()
  | some observer => do
    let _ ← order.toList.foldlM (replayBlock p observer exits) []

/-- All reachable blocks are pending at first, and none was visited. -/
def start (order : BlockOrder) : EngineState (Sealed ι) where
  exits := .ofIndices p.body.blocks.size fun _ => none
  worklist := order.toList.foldl (Worklist.push order) (.empty p.policy)

/-- Checks a problem, solves it within a number of steps, and shows the replay. -/
def run (steps : Nat) (observer : Option (SealedObserver ι)) : Recorded (Sealed ι) (EngineResult (Sealed ι)) :=
  match p.body.checkedOrder with
  | .error error => fail error
  | .ok order =>
    match p.start.bodyError? p.body with
    | some error => fail error
    | none => do
      let done ← iterate p order steps (start p order)
      replay p observer order done.exits
      return ⟨done.exits, done.visits⟩

/-- A sealed state as one who knows the tag sees it. -/
def openState (i : ι) (s : State (Sealed ι)) : Except Fault (State (Catalogue.Carrier i)) := do
  return ⟨← s.lattice.openAs i, s.known⟩

def openView (i : ι) (view : View (Sealed ι)) : Except Fault (View (Catalogue.Carrier i)) := do
  return ⟨view.element, ← openState i view.state⟩

def openExit (i : ι) : Option (State (Sealed ι)) → Except Fault (Option (State (Catalogue.Carrier i)))
  | none => .ok none
  | some s => (openState i s).map some

def openExits (i : ι) (exits : ExitTable (Sealed ι)) : Except Fault (ExitTable (Catalogue.Carrier i)) := do
  return .ofList (← exits.toList.mapM (openExit i))

/-- An observer of typed values as one of sealed values. -/
def sealObserver (i : ι) (observer : Observer (Catalogue.Carrier i)) : SealedObserver ι := fun shown view => do
  return observer (← shown.mapM (openView i)) (← openView i view)

/-- Runs the engine for one who knows the tag: typed values go in and come out. -/
def runTyped (steps : Nat) (observer : Option (Observer (Catalogue.Carrier i))) :
    Recorded (Sealed ι) (EngineResult (Catalogue.Carrier i)) := do
  let result ← run p steps (observer.map (sealObserver i))
  return ⟨← checked (openExits i result.exits), result.visits⟩

end Engine

end ForwardFlow
