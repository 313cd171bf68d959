import ForwardFlow.Proofs.Solver.Replay

namespace ForwardFlow.Problem

variable {L : Type} [JoinLattice L] {p : Problem L} {I : State L → Prop}

/-- A property of states that a run begins with, and that neither a join nor an element of a reachable block destroys. -/
structure Invariant (p : Problem L) (I : State L → Prop) : Prop where
  initial : I p.initial
  join : ∀ s t, I s → I t → I (p.pass.join s t)
  transfer : ∀ b, p.body.Reaches b → ∀ e ∈ p.body.elements b, ∀ s, I s → I (p.pass.transfer s e)

/-- A property of every state that a run ever stores for a block, that it returns, or that it shows to an observer. -/
structure Throughout (p : Problem L) (I : State L → Prop) : Prop where
  stored : ∀ progress, p.Stage progress → ∀ (b : Block) (t : State L), progress.exits[b]? = some t → I t
  returned : ∀ steps solution, p.solve steps = .ok solution →
    ∀ (b : Block) (t : State L), solution.exits[b]? = some t → I t
  shown : ∀ steps observer, ∀ view ∈ (p.observe steps observer).1, I view.state

namespace Invariant

variable (inv : p.Invariant I)

include inv

theorem input {exits : Exits L} {b : Block} {s : State L}
    (old : ∀ (q : Block) (t : State L), exits[q]? = some t → I t) (arrived : p.input exits b = some s) : I s := by
  refine input_induct inv.join arrived fun t meets => ?_
  obtain ⟨_, rfl⟩ | ⟨q, _, atQ⟩ := meets
  · exact inv.initial
  · exact old q t atQ

theorem transferAll {b : Block} (reach : p.body.Reaches b) {s : State L} (holds : I s) {elements : List Element}
    (inside : ∀ e ∈ elements, e ∈ p.body.elements b) : I (p.pass.transferAll s elements) :=
  List.foldlRecOn (motive := I) elements p.pass.transfer holds fun s holds e mem =>
    inv.transfer b reach e (inside e mem) s holds

theorem stored (ok : p.body.Consistent) {progress : Progress L} (stage : p.Stage progress) :
    ∀ (b : Block) (t : State L), progress.exits[b]? = some t → I t :=
  stage.exits_induct (P := fun _ t => I t) ok fun _ old _ _ reach arrived =>
    inv.transferAll reach (inv.input (fun q t found => (old q t found).2) arrived) fun _ mem => mem

/-- An invariant holds throughout every run that is not refused, whatever the policy. -/
theorem throughout (fine : p.error? = none) : p.Throughout I := by
  have stored {progress : Progress L} (stage : p.Stage progress) := inv.stored (consistent_of_error? fine) stage
  have returned (steps : Nat) (solution : Solution L) (run : p.solve steps = .ok solution) :
      ∀ (b : Block) (t : State L), solution.exits[b]? = some t → I t := by
    obtain ⟨_, last, stage, _, rfl⟩ := solve_eq_ok run
    exact stored stage
  refine ⟨fun _ => stored, returned, fun steps observer view shown => ?_⟩
  cases run : p.solve steps with
  | error e =>
    rw [observe, run] at shown
    cases shown
  | ok solution =>
    obtain ⟨n, atN⟩ := List.getElem?_of_mem shown
    obtain ⟨⟨b, m⟩, _, reach, s, arrived, _, state⟩ := viewAt_of_shown run atN
    rw [state]
    exact inv.transferAll reach (inv.input (returned steps solution run) arrived) fun _ mem => List.mem_of_mem_take mem

end Invariant

end ForwardFlow.Problem
