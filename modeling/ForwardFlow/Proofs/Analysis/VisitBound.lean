import ForwardFlow.Proofs.Analysis.Height
import ForwardFlow.Proofs.Solver.Termination
import ForwardFlow.Report

namespace ForwardFlow

namespace Body

variable {body : Body} {blocks : List Block} {h : Nat}

theorem edgesFrom_indices (body : Body) : body.edgesFrom body.blocks.indices = body.edgeCount :=
  congrArg List.length body.flatMap_succs

/-- The bound a report is made within counts all blocks and edges, so it covers the reachable ones. -/
theorem Consistent.le_visitBound (ok : body.Consistent) (distinct : blocks.Nodup)
    (reach : ∀ b ∈ blocks, body.Reaches b) : blocks.length + (h + 1) * body.edgesFrom blocks ≤ body.visitBound h := by
  have inside : ∀ b ∈ blocks, b ∈ body.blocks.indices := fun b mem =>
    Table.mem_indices.mpr ((reach b mem).contains ok)
  obtain ⟨listed, perm, sublist⟩ := distinct.subperm inside
  have length : blocks.length ≤ body.blocks.size := by
    rw [← Table.length_indices, ← perm.length_eq]
    exact sublist.length_le
  have edges : body.edgesFrom blocks ≤ body.edgeCount := by
    rw [← edgesFrom_indices, edgesFrom, ← (perm.flatMap_right body.succs).length_eq]
    exact (sublist.flatMap body.succs).length_le
  exact Nat.add_le_add length (Nat.mul_le_mul_left _ edges)

end Body

namespace Problem

variable {L : Type} {h more : Nat}

theorem SolvedWithin.mono [JoinLattice L] {p : Problem L} (within : p.SolvedWithin h) (le : h ≤ more) :
    p.SolvedWithin more := by
  obtain ⟨blocks, solution, distinct, reach, run, visits⟩ := within
  have bound : blocks.length + (h + 1) * p.body.edgesFrom blocks ≤
      blocks.length + (more + 1) * p.body.edgesFrom blocks :=
    Nat.add_le_add_left (Nat.mul_le_mul_right _ (Nat.succ_le_succ le)) _
  exact ⟨blocks, solution, distinct, reach, fun steps enough => run steps (bound.trans enough), visits.trans bound⟩

theorem SolvedWithin.solve_visitBound [JoinLattice L] {p : Problem L} (within : p.SolvedWithin h)
    (fine : p.error? = none) :
    ∃ solution, p.solve (p.body.visitBound h) = .ok solution ∧ solution.visits ≤ p.body.visitBound h := by
  obtain ⟨blocks, solution, distinct, reach, run, visits⟩ := within
  have bound : blocks.length + (h + 1) * p.body.edgesFrom blocks ≤ p.body.visitBound h :=
    (consistent_of_error? fine).le_visitBound distinct fun b mem => (reach b).mp mem
  exact ⟨solution, run _ bound, visits.trans bound⟩

theorem assigned_solvedWithin {p : Problem (MustSet Var)} {models : List Model}
    (pass : p.pass = { analysis := Analysis.assigned, models }) (fine : p.error? = none) :
    p.SolvedWithin p.start.declared.length ∧ p.Ascends := by
  have acts : p.pass.ActsBy (fun _ => True) Element.assign := pass ▸ assigned_acts models
  exact ⟨solvedWithin_of_height acts assign_mono trivial fine (height_assigned pass fine),
    ascends acts assign_mono trivial (consistent_of_error? fine)⟩

theorem constants_solvedWithin {p : Problem Constants} {models : List Model}
    (pass : p.pass = { analysis := Analysis.constants, models }) (keeps : ∀ model ∈ models, model.KeepsTypes)
    (fine : p.error? = none) : p.SolvedWithin (3 * p.start.declaredInts.length) ∧ p.Ascends := by
  have acts := pass ▸ Pass.constants_acts_with p.start.ty? keeps
  exact ⟨solvedWithin_of_height acts (Constants.act_mono _) (fun _ => rfl) fine (height_constants pass keeps fine),
    ascends acts (Constants.act_mono _) (fun _ => rfl) (consistent_of_error? fine)⟩

/-- Every run of an analysis whose values cannot rise without end comes to its end, and the number of its visits is
bounded. Definite assignment can rise once for each declared variable, and constant propagation three times for each
declared integer variable. -/
theorem visits_bounded :
    (∀ (L : Type) [JoinLattice L] [PartialOrder L] [LawfulJoin L] [LawfulEquals L] (p : Problem L)
      (K : Knowledge → Prop) (act : Element → L → L) (h : Nat), p.pass.ActsBy K act → (∀ e, Monotone (act e)) →
      K p.start → p.error? = none → HeightAtMost p.Records h → p.SolvedWithin h ∧ p.Ascends) ∧
    (∀ (p : Problem (MustSet Var)) (models : List Model), p.pass = { analysis := Analysis.assigned, models } →
      p.error? = none → p.SolvedWithin p.start.declared.length ∧ p.Ascends) ∧
    (∀ (p : Problem Constants) (models : List Model), p.pass = { analysis := Analysis.constants, models } →
      (∀ model ∈ models, model.KeepsTypes) → p.error? = none →
      p.SolvedWithin (3 * p.start.declaredInts.length) ∧ p.Ascends) ∧
    ∀ body : Body, (Knowledge.ofBody body).declared.length = body.vars.size ∧
      (Knowledge.ofBody body).declaredInts.length = (body.vars.toList.filter fun decl => decl.ty = .int).length := by
  refine ⟨?_, fun p models => assigned_solvedWithin, fun p models => constants_solvedWithin, fun body => ?_⟩
  · intro L _ _ _ _ p K act h acts mono start fine height
    exact ⟨solvedWithin_of_height acts mono start fine height, ascends acts mono start (consistent_of_error? fine)⟩
  · exact ⟨Knowledge.length_declared_ofBody body, Knowledge.length_declaredInts_ofBody body⟩

/-- Twelve visits are enough to find what the loop that counts assigns: one for each of the four blocks, and two for each
of the four edges. To find its constants, each edge may take four. -/
theorem visits_bounded_countingLoop :
    (∃ solution, Problem.solve { body := .countingLoop, pass := { analysis := Analysis.assigned } } 12 = .ok solution ∧
      solution.visits ≤ 12) ∧
    ∃ solution, Problem.solve { body := .countingLoop, pass := .constants, policy := .fifo } 20 = .ok solution ∧
      solution.visits ≤ 20 := by
  let p : Problem (MustSet Var) := { body := .countingLoop, pass := { analysis := Analysis.assigned } }
  let q : Problem Constants := { body := .countingLoop, pass := .constants, policy := .fifo }
  have pFine : p.error? = none := by decide +kernel
  have qFine : q.error? = none := by decide +kernel
  constructor
  · have acts : p.pass.ActsBy (fun _ => True) Element.assign := assigned_acts []
    have one : p.start.declared.length = 1 := Knowledge.length_declared_ofBody .countingLoop
    have height : HeightAtMost p.Records 1 := one ▸ @height_assigned p [] rfl pFine
    obtain ⟨within, _⟩ := visits_bounded.1 _ p _ _ 1 acts assign_mono trivial pFine height
    exact within.solve_visitBound pFine
  · obtain ⟨within, _⟩ := visits_bounded.2.2.1 q [] rfl (fun _ mem => absurd mem List.not_mem_nil) qFine
    have ints := Knowledge.length_declaredInts_ofBody .countingLoop
    have height : 3 * q.start.declaredInts.length = 3 := congrArg (3 * ·) ints
    exact (height ▸ within).solve_visitBound qFine

end Problem

theorem Problem.SolvedWithin.exists_report {L : Type} [JoinLattice L] {p : Problem L} {h : Nat}
    (within : p.SolvedWithin h) (fine : p.error? = none) (render : Scope → L → String) (trace : Bool) :
    ∃ text, Report.ofProblem render p h trace = .ok text := by
  obtain ⟨solution, run, _⟩ := within.solve_visitBound fine
  unfold Report.ofProblem
  rw [run]
  exact ⟨_, rfl⟩

/-- A body that passes the checks is reported on: the visits a report allows for are enough. -/
theorem Bundled.exists_report (analysis : Bundled) (policy : Policy) (trace : Bool) {body : Body}
    (graph : body.graphError? = none) (uses : (Knowledge.ofBody body).bodyError? body = none) :
    ∃ text, analysis.report policy trace body = .ok text := by
  have fine {L : Type} (pass : Pass L) : ({ body, policy, pass } : Problem L).error? = none := by
    rw [Problem.error?, graph, uses]
    rfl
  have size := Knowledge.length_declared_ofBody body
  cases analysis with
  | assigned =>
    have within := (@Problem.assigned_solvedWithin _ [] rfl (fine { analysis := Analysis.assigned })).1
    exact (within.mono size.le).exists_report (fine _) _ trace
  | constants =>
    have height : 3 * (Knowledge.ofBody body).declaredInts.length ≤ 3 * body.vars.size :=
      size ▸ Nat.mul_le_mul_left 3 (List.length_filter_le _ _)
    have within := (@Problem.constants_solvedWithin _ [] rfl (fun _ mem => absurd mem List.not_mem_nil)
      (fine .constants)).1
    exact (within.mono height).exists_report (fine _) _ trace

end ForwardFlow
