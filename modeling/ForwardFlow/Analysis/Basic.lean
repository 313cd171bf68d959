import ForwardFlow.Knowledge.Join
import ForwardFlow.Lattice.Basic

namespace ForwardFlow

/-- What holds at a point of a body: a lattice value of the analysis, and what is known of the store. -/
structure State (L : Type) where
  lattice : L
  known : Knowledge

instance {L : Type} [DecidableEq L] : DecidableEq (State L)
  | ⟨a, k⟩, ⟨b, l⟩ => decidable_of_iff (a = b ∧ k = l) (by rw [State.mk.injEq])

/-- Which of the two hooks of an analysis are called. -/
structure Hooks where
  element : Bool
  stmt : Bool
deriving DecidableEq, Repr

namespace Hooks

def elements : Hooks := ⟨true, false⟩

def stmts : Hooks := ⟨false, true⟩

def both : Hooks := ⟨true, true⟩

end Hooks

/-- A forward analysis with values in a lattice: the value at the entry, a hook for every element, one for statements
only, and what to do with facts that differ where paths meet. -/
structure Analysis (L : Type) where
  initial : L
  hooks : Hooks := .elements
  onElement : Element → State L → State L := fun _ s => s
  onStmt : Stmt → State L → State L := fun _ s => s
  merge : Merger := Merger.strict
  /-- Whether each element first acts on the knowledge as the program text says. -/
  builtin : Bool := true

/-- A model stands for what the body cannot show. It changes the knowledge at an element, and tells whether it has
dealt with the element. -/
abbrev Model := Element → Knowledge → Bool × Knowledge

namespace Model

/-- The value a certain function returns to an assignment. -/
def returns (callee : String) (fact : Fact) : Model
  | .stmt (.assign target (.call name _)), k => if name = callee then (true, k.learn target fact) else (false, k)
  | _, k => (false, k)

/-- A variable of which nothing is known after any element. -/
def forgets (v : Var) : Model := fun _ k => (false, k.forget v)

end Model

/-- An analysis as it is run: with its hooks chosen, and with models. -/
structure Pass (L : Type) where
  analysis : Analysis L
  hooks : Hooks := analysis.hooks
  models : List Model := []

namespace Pass

variable {L : Type}

/-- What an element does to the knowledge by itself. -/
def builtin (pass : Pass L) (known : Knowledge) (e : Element) : Knowledge :=
  if pass.analysis.builtin then known.apply e else known

/-- What an element does to the knowledge by itself and through the models, each of which is asked in turn. -/
def transferKnown (pass : Pass L) (known : Knowledge) (e : Element) : Knowledge :=
  pass.models.foldl (fun known model => (model e known).2) (pass.builtin known e)

def elementHook (pass : Pass L) (e : Element) (s : State L) : State L :=
  if pass.hooks.element then pass.analysis.onElement e s else s

def stmtHook (pass : Pass L) (e : Element) (s : State L) : State L :=
  match e.stmt? with
  | some stmt => if pass.hooks.stmt then pass.analysis.onStmt stmt s else s
  | none => s

/-- The state after an element: first the knowledge changes, then the hooks are called, the one for statements last. -/
def transfer (pass : Pass L) (s : State L) (e : Element) : State L :=
  pass.stmtHook e (pass.elementHook e { s with known := pass.transferKnown s.known e })

def transferAll (pass : Pass L) (s : State L) (elements : List Element) : State L := elements.foldl pass.transfer s

variable [JoinLattice L]

def join (pass : Pass L) (s t : State L) : State L :=
  ⟨JoinLattice.join s.lattice t.lattice, s.known.join pass.analysis.merge t.known⟩

end Pass

end ForwardFlow
