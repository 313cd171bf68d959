import ForwardFlow.Analysis.Basic
import ForwardFlow.Lattice.Flat
import ForwardFlow.Lattice.MaySet
import ForwardFlow.Lattice.Point
import ForwardFlow.Lattice.Pointwise

namespace ForwardFlow.Analysis

/-- Changes nothing on the way. -/
def plain (L : Type) [JoinLattice L] : Analysis L where
  initial := JoinLattice.initial

/-- The variables that some path writes. -/
def mayWrite : Analysis (MaySet Var) where
  initial := ∅
  onElement e s :=
    match e.target? with
    | some v => { s with lattice := s.lattice.insert v }
    | none => s

/-- How many evaluations lie on every path, counted with wrap-around. -/
def evaluations : Analysis (Flat Int64) where
  initial := .value 0
  hooks := .stmts
  onStmt
    | .eval _, s =>
      match s.lattice with
      | .value n => { s with lattice := .value (n + 1) }
      | _ => s
    | _, s => s

/-- Whether a scope may have ended since the last evaluation. -/
def scopeEnded : Analysis TwoPoint where
  initial := .bottom
  hooks := .both
  onElement
    | .scopeEnd _, s => { s with lattice := .top }
    | _, s => s
  onStmt
    | .eval _, s => { s with lattice := .bottom }
    | _, s => s

/-- What was known of each variable right after it was written. -/
def factsSeen : Analysis (Pointwise Var (MaySet String)) where
  initial := ∅
  onElement e s :=
    match e.target? with
    | some v =>
      let seen := (s.lattice.get? v).getD ∅
      let text := ((s.known.fact? v).map Fact.text).getD "?"
      { s with lattice := s.lattice.insert v (seen.insert text) }
    | none => s

end ForwardFlow.Analysis
