import ForwardFlow.Proofs.Analysis.KnownSound
import ForwardFlow.Proofs.Knowledge.Fits
import ForwardFlow.Proofs.Solver.Invariant

namespace ForwardFlow

/-- Some element of a reachable block writes a variable. -/
def Body.Defines (body : Body) (v : Var) : Prop := ∃ b, body.Reaches b ∧ ∃ e ∈ body.elements b, e.target? = some v

namespace Bundled

/-- The bounds a bundled analysis keeps: none, or those with more than one integer between them. -/
def Bounds : Bundled → Int64 → Int64 → Prop
  | .assigned => fun _ _ => False
  | .constants => fun low high => low < high

/-- Constants are kept for integer variables that are defined somewhere. A set of assigned variables has no keys. -/
def Keys : (analysis : Bundled) → Body → analysis.Lattice → Prop
  | .assigned, _, _ => True
  | .constants, body, (m : Constants) => ∀ x a, m.get? x = some a → body.ty? x = some .int ∧ body.Defines x

structure WellFormed (analysis : Bundled) (body : Body) (s : State analysis.Lattice) : Prop where
  known : s.known.Fits body analysis.Bounds
  keys : analysis.Keys body s.lattice

/-- Facts that differ are merged to no bounds, or to proper ones. -/
theorem pick_bounds (analysis : Bundled) (ty : Ty) (a b : Fact) (low high : Int64) (differ : a ≠ b)
    (left : ∀ low high, a = .range low high → analysis.Bounds low high)
    (right : ∀ low high, b = .range low high → analysis.Bounds low high)
    (picked : analysis.pick ty a b = some (.range low high)) : analysis.Bounds low high := by
  cases analysis with
  | assigned => cases picked
  | constants =>
    obtain ⟨_, around⟩ := Option.ite_none_right_eq_some.mp picked
    obtain ⟨_, _, same, less⟩ := Merger.exists_around? differ left right around
    cases same
    exact less

section Invariant

variable {analysis : Bundled} {body : Body} {s t : State analysis.Lattice}

theorem wellFormed_initial (start : Knowledge) (ofBody : start = .ofBody body) :
    analysis.WellFormed body ⟨analysis.pass.analysis.initial, start⟩ := by
  refine ⟨ofBody ▸ Knowledge.fits_ofBody, ?_⟩
  cases analysis with
  | assigned => trivial
  | constants =>
    intro x a found
    cases (Std.ExtTreeMap.getElem?_empty (α := Var) (β := Flat Int64)).symm.trans found

theorem WellFormed.join (left : analysis.WellFormed body s) (right : analysis.WellFormed body t) :
    analysis.WellFormed body (analysis.pass.join s t) := by
  refine ⟨left.known.join analysis.merge_picks analysis.pick_bounds right.known, ?_⟩
  cases analysis with
  | assigned => trivial
  | constants =>
    intro x a found
    obtain ⟨b, old⟩ | ⟨b, old⟩ := Pointwise.exists_get?_of_join found
    · exact left.keys x b old
    · exact right.keys x b old

theorem WellFormed.transfer (wellFormed : analysis.WellFormed body s) {e : Element}
    (allowed : ∀ v, e.target? = some v → (Knowledge.ofBody body).Allows v)
    (defines : ∀ v, e.target? = some v → body.Defines v) :
    analysis.WellFormed body (analysis.pass.transfer s e) := by
  refine ⟨?_, ?_⟩
  · rw [known_transfer]
    refine wellFormed.known.apply fun v writes => ?_
    have same := allowed v writes
    rwa [Knowledge.Allows, Knowledge.ty?_ofBody, ← Body.ty?, ← wellFormed.known.ty?_eq] at same
  · cases analysis with
    | assigned => trivial
    | constants =>
      intro x a found
      have acts := (Pass.constants_acts body.ty?).lattice s e wellFormed.known.ty?_eq
      obtain ⟨b, old⟩ | ⟨int, writes⟩ :=
        Constants.exists_get?_of_act ((congrArg (Pointwise.get? · x) acts).symm.trans found)
      · exact wellFormed.keys x b old
      · exact ⟨int, defines x writes⟩

end Invariant

end Bundled

/-- Two ways on which a variable gets different values, before they meet. -/
def Body.choice : Body where
  name := "choice"
  vars := .ofList [⟨"x", .int⟩]
  entry := .slot 0
  blocks := .ofList [
    { succs := [.slot 1, .slot 2] },
    { elements := [.stmt (.assign (.slot 0) (.use (.lit (.int 9))))], preds := [.slot 0], succs := [.slot 3] },
    { elements := [.stmt (.assign (.slot 0) (.use (.lit (.int 3))))], preds := [.slot 0], succs := [.slot 3] },
    { preds := [.slot 1, .slot 2] }]

namespace Problem

variable {analysis : Bundled} {p : Problem analysis.Lattice}

theorem invariant_wellFormed (pass : p.pass = analysis.pass) (start : p.start = .ofBody p.body)
    (fine : p.error? = none) : p.Invariant (analysis.WellFormed p.body) where
  initial := by
    rw [initial, pass]
    exact Bundled.wellFormed_initial p.start start
  join s t left right := pass ▸ left.join right
  transfer b reach e inside s wellFormed := by
    have uses := Knowledge.bodyError?_eq_none_iff.mp (Option.or_eq_none_iff.mp fine).2 b e inside
    rw [start] at uses
    rw [pass]
    refine wellFormed.transfer (fun v writes => ?_) fun v writes => ⟨b, reach, e, inside, writes⟩
    exact Knowledge.refusal?_eq_none_iff_allows.mp (uses v (Element.mem_vars_of_target? writes))

/-- In a run of a bundled analysis, every state that is stored, returned or shown is well formed. It declares what the
body declares, knows only integers and truth values, and has proper bounds, or no bounds at all if the analysis finds the
assigned variables. The constants are those of integer variables that a reachable element defines. -/
theorem states_wellFormed (pass : p.pass = analysis.pass) (start : p.start = .ofBody p.body) (fine : p.error? = none) :
    p.Throughout (analysis.WellFormed p.body) :=
  (invariant_wellFormed pass start fine).throughout fine

/-- Where the two ways meet, constant propagation keeps proper bounds of the variable, which is defined. -/
theorem states_wellFormed_choice : ∃ solution t low high,
    Problem.solve { body := .choice, pass := Bundled.constants.pass } 20 = .ok solution ∧
      solution.exits[(.slot 3 : Block)]? = some t ∧ t.known.fact? (.slot 0) = some (.range low high) ∧ low < high ∧
      t.known.decls = (Knowledge.ofBody .choice).decls ∧ Body.choice.Defines (.slot 0) := by
  obtain ⟨solution, run, found⟩ := exists_solution { body := .choice, pass := Bundled.constants.pass } 20
    (fun solution => solution.exits[(.slot 3 : Block)]?.any fun t : State Constants =>
      decide (t.known.fact? (.slot 0) = some (.range 3 9) ∧ t.lattice.get? (.slot 0) = some .top)) (by decide +kernel)
  obtain ⟨t, atEnd, test⟩ := (Option.any_eq_true ..).mp found
  obtain ⟨known, top⟩ := of_decide_eq_true test
  have wellFormed := (states_wellFormed rfl rfl (solve_eq_ok run).1).returned 20 solution run _ t atEnd
  exact ⟨solution, t, 3, 9, run, atEnd, known, wellFormed.known.bounds _ _ _ known, wellFormed.known.decls,
    (wellFormed.keys (.slot 0) .top top).2⟩

end Problem

end ForwardFlow
