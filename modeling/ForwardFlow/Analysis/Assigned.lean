import ForwardFlow.Analysis.Basic
import ForwardFlow.Lattice.MustSet

namespace ForwardFlow.Analysis

/-- The variables that are written on every path from the entry, and whose scope has not ended since. -/
def assigned : Analysis (MustSet Var) where
  initial := ∅
  onElement
    | .scopeEnd v, s => { s with lattice := s.lattice.erase v }
    | e, s =>
      match e.target? with
      | some v => { s with lattice := s.lattice.insert v }
      | none => s

end ForwardFlow.Analysis
