import ForwardFlow.Analysis.Basic
import ForwardFlow.Solver.RunError

namespace ForwardFlow

/-- Which of the pending blocks is visited next: the first in reverse postorder, or the one that waits longest. -/
inductive Policy
  | reversePostorder
  | fifo
deriving DecidableEq, Repr

instance : Inhabited Policy := ⟨.reversePostorder⟩

/-- A pass to be run over a body from what is known at its entry. -/
structure Problem (L : Type) where
  body : Body
  pass : Pass L
  start : Knowledge := .ofBody body
  policy : Policy := default

namespace Problem

variable {L : Type}

def initial (p : Problem L) : State L := ⟨p.pass.analysis.initial, p.start⟩

/-- What keeps a problem from being run: a fault of the graph, or else an element that uses a variable it may not. -/
def error? (p : Problem L) : Option RunError :=
  (p.body.graphError?.map .graph).or (p.start.bodyError? p.body)

end Problem

/-- An element, and the state after it. -/
structure View (L : Type) where
  element : Element
  state : State L

/-- Looks at one view after another, given those it was shown before, and may complain. -/
abbrev Observer (L : Type) := List (View L) → View L → Option String

namespace Observer

variable {L : Type}

def silent : Observer L := fun _ _ => none

/-- Complains about the view with a certain number, counted from 0. -/
def failsAt (n : Nat) : Observer L := fun shown _ => if shown.length = n then some s!"stop at {n}" else none

/-- Shows views until the first complaint: the views shown, the last of which is the one complained about. -/
def watch (observer : Observer L) (shown : List (View L)) : List (View L) → List (View L) × Option String
  | [] => (shown, none)
  | view :: rest =>
    match observer shown view with
    | some complaint => (shown ++ [view], some complaint)
    | none => observer.watch (shown ++ [view]) rest

end Observer

end ForwardFlow
