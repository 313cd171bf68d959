import ForwardFlow.Proofs.Analysis.Assigned
import ForwardFlow.Proofs.Solver.Replay
import ForwardFlow.Proofs.Solver.Settled

namespace ForwardFlow.Problem

variable {L : Type} [JoinLattice L] {p : Problem L} {K : Knowledge → Prop} {act : Element → L → L} {steps : Nat}
  {solution : Solution L}

/-- Of each reachable block the replay shows every element once, and after the last one the lattice value that the run
has found at the end of the block. What is known of the variables may be out of date there, and may differ. -/
theorem replay_shows_solution [LawfulEquals L] (acts : p.pass.ActsBy K act) (start : K p.start)
    (run : p.solve steps = .ok solution) {observer : Observer L}
    (accepts : observer.Accepts (p.replay solution.exits)) :
    p.body.reversePostorder.Nodup ∧ (∀ b, b ∈ p.body.reversePostorder ↔ p.body.Reaches b) ∧
    p.observe steps observer = (p.body.reversePostorder.flatMap (p.blockViews solution.exits), .ok solution) ∧
    ∀ b, p.body.Reaches b →
      (p.blockViews solution.exits b).map View.element = p.body.elements b ∧
      ∃ s t, p.input solution.exits b = some s ∧ solution.exits[b]? = some t ∧
        (p.exitFrom b s).lattice = t.lattice ∧
        ∀ view ∈ (p.blockViews solution.exits b).getLast?, view.state.lattice = t.lattice := by
  have ok := consistent_of_error? (solve_eq_ok run).1
  refine ⟨ok.nodup_reversePostorder, fun b => ok.mem_reversePostorder, observe_eq_of_accepts run accepts,
    fun b reach => ?_⟩
  obtain ⟨s, t, arrived, found, known, _, lattice⟩ := solve_settled acts start run reach
  have same : (p.exitFrom b s).lattice = t.lattice := by
    rw [lattice, exitFrom, acts.lattice_transferAll known]
  rw [blockViews_of_input arrived found]
  refine ⟨p.map_element_viewsFrom s _, s, t, arrived, found, same, fun view last => ?_⟩
  rw [state_of_getLast?_viewsFrom last]
  exact same

/-- After the one element in the body of the loop that counts, the variables are shown assigned that were found assigned
at its end. -/
theorem replay_shows_solution_countingLoop :
    let p : Problem (MustSet Var) :=
      { body := .countingLoop, pass := { analysis := Analysis.assigned }, policy := .fifo }
    ∃ (solution : Solution (MustSet Var)) (t : State (MustSet Var)) (view : View (MustSet Var)),
      p.observe 20 .silent = (p.body.reversePostorder.flatMap (p.blockViews solution.exits), .ok solution) ∧
      solution.exits[(.slot 2 : Block)]? = some t ∧
      p.blockViews solution.exits (.slot 2) = [view] ∧ view.state.lattice = t.lattice := by
  intro p
  obtain ⟨solution, run, _⟩ := p.exists_solution 20 (fun _ => true) (by decide +kernel)
  have accepts : Observer.silent.Accepts (p.replay solution.exits) := fun _ _ _ => rfl
  obtain ⟨_, _, observed, blocks⟩ := replay_shows_solution (assigned_acts []) trivial run accepts
  obtain ⟨elements, _, t, _, found, _, last⟩ := blocks (.slot 2) Body.countingLoop_path.reaches
  obtain ⟨view, one, _⟩ := List.map_eq_singleton_iff.mp elements
  exact ⟨solution, t, view, observed, found, one, last view (by rw [one]; rfl)⟩

end ForwardFlow.Problem
