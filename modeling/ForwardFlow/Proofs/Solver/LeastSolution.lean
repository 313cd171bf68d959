import ForwardFlow.Proofs.Analysis.Assigned
import ForwardFlow.Proofs.Solver.Settled

namespace ForwardFlow

/-- Two bodies with the same blocks and successors. The predecessors of a block may stand in another order. -/
structure Body.SameFlow (body other : Body) : Prop where
  entry : other.entry = body.entry
  elements : ∀ b, other.elements b = body.elements b
  succs : ∀ b, other.succs b = body.succs b
  preds : ∀ b, (other.preds b).Perm (body.preds b)

theorem Body.SameFlow.refl (body : Body) : body.SameFlow body where
  entry := rfl
  elements _ := rfl
  succs _ := rfl
  preds _ := .refl _

theorem Body.SameFlow.reaches {body other : Body} (same : body.SameFlow other) {b : Block} :
    other.Reaches b ↔ body.Reaches b := by
  constructor
  · intro reach
    refine reach.closed (same.entry ▸ body.reaches_entry) fun a c _ before edge => before.succ ?_
    exact same.succs a ▸ edge
  · intro reach
    refine reach.closed (same.entry ▸ other.reaches_entry) fun a c _ before edge => before.succ ?_
    exact (same.succs a).symm ▸ edge

def Solution.lattice? {L : Type} (solution : Solution L) (b : Block) : Option L :=
  solution.exits[b]?.map State.lattice

namespace Problem

variable {L : Type}

/-- The lattice values that meet at the start of a block, for a value at the end of each block: those of the reachable
predecessors, and the initial one at the entry. -/
def meeting (p : Problem L) (X : Block → L) (b : Block) : Set L :=
  {a | (b = p.body.entry ∧ a = p.pass.analysis.initial) ∨ ∃ q ∈ p.body.preds b, p.body.Reaches q ∧ a = X q}

/-- The values at the ends of the reachable blocks are what the elements make of the least upper bounds of the values
that meet at their starts. -/
def Solves [PartialOrder L] (p : Problem L) (act : Element → L → L) (X : Block → L) : Prop :=
  ∀ b, p.body.Reaches b → ∃ a, IsLUB (p.meeting X b) a ∧ X b = Pass.actAll act (p.body.elements b) a

theorem solves_iff_of_sameFlow [PartialOrder L] {p q : Problem L} (same : p.body.SameFlow q.body)
    (pass : q.pass = p.pass) {act : Element → L → L} {X : Block → L} : q.Solves act X ↔ p.Solves act X := by
  have meeting (b : Block) : q.meeting X b = p.meeting X b := by
    ext c
    simp only [Problem.meeting, same.entry, pass, same.reaches, (same.preds b).mem_iff]
  simp only [Solves, same.reaches, same.elements, meeting]

theorem exists_values (p : Problem L) (solution : Solution L) :
    ∃ X : Block → L, ∀ b t, solution.exits[b]? = some t → X b = t.lattice := by
  refine ⟨fun b => (solution.lattice? b).getD p.pass.analysis.initial, fun b t found => ?_⟩
  simp only [Solution.lattice?, found, Option.map_some, Option.getD_some]

section

variable [JoinLattice L] {p : Problem L} {steps : Nat} {solution : Solution L}

theorem lattice?_of_reaches (run : p.solve steps = .ok solution) {X : Block → L}
    (values : ∀ b t, solution.exits[b]? = some t → X b = t.lattice) {b : Block} (reach : p.body.Reaches b) :
    solution.lattice? b = some (X b) := by
  obtain ⟨t, found⟩ := visited_of_reaches run reach
  rw [Solution.lattice?, found, values b t found, Option.map_some]

theorem lattice?_of_not_reaches (run : p.solve steps = .ok solution) {b : Block} (unreached : ¬p.body.Reaches b) :
    solution.lattice? b = none := by
  rw [Solution.lattice?, Option.map_eq_none_iff, Option.eq_none_iff_forall_ne_some]
  exact fun t found => unreached (reaches_of_visited run found)

end

section

variable [JoinLattice L] [PartialOrder L] [LawfulJoin L]

theorem isLUB_input {p : Problem L} {exits : Exits L} {b : Block} {s : State L} (arrived : p.input exits b = some s) :
    IsLUB {a | ∃ t, p.Meets exits b t ∧ a = t.lattice} s.lattice := by
  constructor
  · rintro a ⟨t, meets, rfl⟩
    obtain ⟨u, same, above⟩ := input_upper (p := p) (I := fun _ => True) (P := fun u => t.lattice ≤ u.lattice)
      (fun _ _ _ _ => trivial) (fun u v _ _ below => below.trans (le_join_left u.lattice v.lattice))
      (fun u v _ _ below => below.trans (le_join_right u.lattice v.lattice)) (fun _ _ => trivial) meets le_rfl
    rw [arrived] at same
    exact Option.some.inj same ▸ above
  · intro c upper
    exact input_induct (P := fun u => u.lattice ≤ c) (fun u v one two => join_le one two) arrived
      fun t meets => upper ⟨t, meets, rfl⟩

variable [LawfulEquals L] {p : Problem L} {K : Knowledge → Prop} {act : Element → L → L} {steps : Nat}
  {solution : Solution L}

theorem solves_of_run (acts : p.pass.ActsBy K act) (start : K p.start) (run : p.solve steps = .ok solution)
    {X : Block → L} (values : ∀ b t, solution.exits[b]? = some t → X b = t.lattice) : p.Solves act X := by
  intro b reach
  obtain ⟨s, t, arrived, found, _, _, same⟩ := solve_settled acts start run reach
  refine ⟨s.lattice, ?_, by rw [values b t found, same]⟩
  have meeting : p.meeting X b = {a | ∃ t, p.Meets solution.exits b t ∧ a = t.lattice} := by
    ext a
    constructor
    · rintro (⟨entry, rfl⟩ | ⟨q, edge, reach, rfl⟩)
      · exact ⟨p.initial, Or.inl ⟨entry, rfl⟩, rfl⟩
      · obtain ⟨u, atQ⟩ := visited_of_reaches run reach
        exact ⟨u, Or.inr ⟨q, edge, atQ⟩, values q u atQ⟩
    · rintro ⟨u, ⟨entry, rfl⟩ | ⟨q, edge, atQ⟩, rfl⟩
      · exact Or.inl ⟨entry, rfl⟩
      · exact Or.inr ⟨q, edge, reaches_of_visited run atQ, (values q u atQ).symm⟩
  exact meeting ▸ isLUB_input arrived

omit [JoinLattice L] [LawfulJoin L] [LawfulEquals L] in
theorem actAll_mono (mono : ∀ e, Monotone (act e)) (elements : List Element) : Monotone (Pass.actAll act elements) := by
  intro a b le
  exact List.foldl_rel (r := fun a b : L => a ≤ b) le fun e _ a b le => mono e le

omit [LawfulEquals L] in
/-- No value ever recorded is above a solution of the equations. -/
theorem le_of_solves (acts : p.pass.ActsBy K act) (mono : ∀ e, Monotone (act e)) (start : K p.start)
    {progress : Progress L} (ok : p.body.Consistent) (stage : p.Stage progress) {Y : Block → L}
    (solves : p.Solves act Y) {b : Block} {t : State L} (found : progress.exits[b]? = some t) : t.lattice ≤ Y b := by
  have initial : K p.initial.known ∧ K p.initial.known ∧ p.initial.lattice = p.initial.lattice := ⟨start, start, rfl⟩
  refine (stage.exits_induct (P := fun b t => K t.known ∧ t.lattice ≤ Y b) ok ?_ b t found).2
  intro exits old b s reach arrived
  obtain ⟨a, lub, eq⟩ := solves b reach
  have known : K s.known := (input_refl acts.respects initial arrived fun q u atQ =>
    ⟨(old q u atQ).2.1, (old q u atQ).2.1, rfl⟩).1
  have below : s.lattice ≤ a := by
    refine input_induct (P := fun u => u.lattice ≤ a) (fun u v one two => join_le one two) arrived fun t meets => ?_
    obtain ⟨entry, rfl⟩ | ⟨q, edge, atQ⟩ := meets
    · exact lub.1 (Or.inl ⟨entry, rfl⟩)
    · obtain ⟨reachQ, _, le⟩ := old q t atQ
      exact le.trans (lub.1 (Or.inr ⟨q, edge, reachQ, rfl⟩))
  refine ⟨acts.known_transferAll known _, ?_⟩
  rw [exitFrom, acts.lattice_transferAll known, eq]
  exact actAll_mono mono _ below

omit [LawfulEquals L] in
theorem le_of_run (acts : p.pass.ActsBy K act) (mono : ∀ e, Monotone (act e)) (start : K p.start)
    (run : p.solve steps = .ok solution) {X Y : Block → L}
    (values : ∀ b t, solution.exits[b]? = some t → X b = t.lattice) (solves : p.Solves act Y) {b : Block}
    (reach : p.body.Reaches b) : X b ≤ Y b := by
  obtain ⟨t, found⟩ := visited_of_reaches run reach
  obtain ⟨fine, last, stage, _, rfl⟩ := solve_eq_ok run
  rw [values b t found]
  exact le_of_solves acts mono start (consistent_of_error? fine) stage solves found

/-- A run of a pass whose elements act monotonically computes the least solution of the equations. Nothing of the order
of work remains in it: with another policy, or with the predecessors in another order, the values are the same. -/
theorem solve_least_solution (acts : p.pass.ActsBy K act) (mono : ∀ e, Monotone (act e)) (start : K p.start)
    (run : p.solve steps = .ok solution) :
    ∃ X : Block → L, p.Solves act X ∧ (∀ Y, p.Solves act Y → ∀ b, p.body.Reaches b → X b ≤ Y b) ∧
      (∀ b, p.body.Reaches b → solution.lattice? b = some (X b)) ∧
      (∀ b, ¬p.body.Reaches b → solution.lattice? b = none) ∧
      ∀ (q : Problem L) (steps' : Nat) (solution' : Solution L), p.body.SameFlow q.body → q.pass = p.pass →
        K q.start → q.solve steps' = .ok solution' → ∀ b, solution'.lattice? b = solution.lattice? b := by
  obtain ⟨X, values⟩ := exists_values p solution
  have solved := solves_of_run acts start run values
  refine ⟨X, solved, fun Y solves b => le_of_run acts mono start run values solves, fun b =>
    lattice?_of_reaches run values, fun b => lattice?_of_not_reaches run, ?_⟩
  intro q steps' solution' same pass start' run' b
  obtain ⟨Y, values'⟩ := exists_values q solution'
  have acts' : q.pass.ActsBy K act := pass ▸ acts
  have solved' := solves_of_run acts' start' run' values'
  by_cases reach : p.body.Reaches b
  · have reach' := same.reaches.mpr reach
    rw [lattice?_of_reaches run values reach, lattice?_of_reaches run' values' reach', Option.some.injEq]
    -- Each run solves the equations of the other one, and lies below all their solutions.
    apply le_antisymm
    · exact le_of_run acts' mono start' run' values' ((solves_iff_of_sameFlow same pass).mpr solved) reach'
    · exact le_of_run acts mono start run values ((solves_iff_of_sameFlow same pass).mp solved') reach
  · rw [lattice?_of_not_reaches run reach, lattice?_of_not_reaches run' fun reach' => reach (same.reaches.mp reach')]

end

/-- Both policies find the same variables assigned in the loop that counts. -/
theorem solve_least_solution_countingLoop : ∃ solution solution',
    Problem.solve { body := .countingLoop, pass := { analysis := Analysis.assigned } } 20 = .ok solution ∧
      Problem.solve { body := .countingLoop, pass := { analysis := Analysis.assigned }, policy := .fifo } 20 =
        .ok solution' ∧
      ∀ b, solution'.lattice? b = solution.lattice? b := by
  obtain ⟨solution, run, _⟩ := exists_solution
    { body := .countingLoop, pass := { analysis := Analysis.assigned } } 20 (fun _ => true) (by decide +kernel)
  obtain ⟨solution', run', _⟩ := exists_solution
    { body := .countingLoop, pass := { analysis := Analysis.assigned }, policy := .fifo } 20 (fun _ => true)
    (by decide +kernel)
  obtain ⟨_, _, _, _, _, same⟩ := solve_least_solution (assigned_acts []) assign_mono trivial run
  refine ⟨solution, solution', run, run', ?_⟩
  exact same { body := .countingLoop, pass := { analysis := Analysis.assigned }, policy := .fifo } 20 solution'
    (.refl _) rfl trivial run'

end Problem

end ForwardFlow
