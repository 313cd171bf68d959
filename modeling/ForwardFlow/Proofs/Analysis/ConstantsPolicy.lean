import ForwardFlow.Proofs.Analysis.VisitBound

namespace ForwardFlow

namespace Constants

variable {m n : Constants} {s t : State Constants}

theorem define_mono (types : ∀ v, s.known.ty? v = t.known.ty? v) (below : s.lattice ≤ t.lattice) (target : Var)
    (source : Expr) : (define target source s).lattice ≤ (define target source t).lattice := by
  rw [lattice_define, lattice_define, types]
  split
  · exact Pointwise.insert_le_insert below (eval_le_eval below source)
  · exact below

theorem onElement_mono (types : ∀ v, s.known.ty? v = t.known.ty? v) (below : s.lattice ≤ t.lattice) (e : Element) :
    (Analysis.constants.onElement e s).lattice ≤ (Analysis.constants.onElement e t).lattice := by
  cases e with
  | stmt st => exact below
  | init target source => exact define_mono types below target source
  | scopeEnd v => exact Pointwise.erase_le_erase below

theorem onStmt_mono (types : ∀ v, s.known.ty? v = t.known.ty? v) (below : s.lattice ≤ t.lattice) (st : Stmt) :
    (Analysis.constants.onStmt st s).lattice ≤ (Analysis.constants.onStmt st t).lattice := by
  cases st with
  | assign target source => exact define_mono types below target source
  | _ => exact below

theorem transfer_mono (types : ∀ v, s.known.ty? v = t.known.ty? v) (below : s.lattice ≤ t.lattice) (e : Element) :
    (Pass.constants.transfer s e).lattice ≤ (Pass.constants.transfer t e).lattice := by
  have acts := Pass.constants_acts t.known.ty?
  rw [acts.lattice s e types, acts.lattice t e fun _ => rfl]
  exact act_mono _ e below

theorem lt_insert_bottom {x : Var} (missing : m.get? x = none) : m < m.insert x .bottom := by
  have found : (m.insert x .bottom).get? x = some .bottom := by rw [Pointwise.get?_insert, if_pos rfl]
  refine lt_of_le_of_ne (fun y a there => ?_) fun same => ?_
  · have other : x ≠ y := by
      rintro rfl
      cases missing.symm.trans there
    exact ⟨a, by rw [Pointwise.get?_insert, if_neg other, there], le_rfl⟩
  · rw [← same, missing] at found
    cases found

end Constants

namespace Problem

section

variable {L : Type} [JoinLattice L] [PartialOrder L] [LawfulJoin L] [LawfulEquals L] {p : Problem L}
  {K : Knowledge → Prop} {act : Element → L → L} {policy policy' : Policy} {steps steps' : Nat}
  {solution solution' : Solution L}

/-- Two runs under different policies each solve the equations of the other one and lie below all their solutions. -/
theorem lattice?_eq_of_policies (acts : p.pass.ActsBy K act) (mono : ∀ e, Monotone (act e)) (start : K p.start)
    (run : ({ p with policy } : Problem L).solve steps = .ok solution)
    (run' : ({ p with policy := policy' } : Problem L).solve steps' = .ok solution') (b : Block) :
    solution'.lattice? b = solution.lattice? b := by
  obtain ⟨X, values⟩ := exists_values p solution
  obtain ⟨Y, values'⟩ := exists_values p solution'
  have solved : p.Solves act X := solves_of_run (p := { p with policy }) acts start run values
  have solved' : p.Solves act Y := solves_of_run (p := { p with policy := policy' }) acts start run' values'
  by_cases reach : p.body.Reaches b
  · have below : X b ≤ Y b := le_of_run (p := { p with policy }) acts mono start run values solved' reach
    have above : Y b ≤ X b := le_of_run (p := { p with policy := policy' }) acts mono start run' values' solved reach
    rw [lattice?_of_reaches run values reach, lattice?_of_reaches run' values' reach, le_antisymm above below]
  · rw [lattice?_of_not_reaches run reach, lattice?_of_not_reaches run' reach]

end

/-- Both policies come to an end, and find the same constants at the ends of the same blocks. -/
theorem constants_of_policies {p : Problem Constants} {models : List Model}
    (pass : p.pass = { analysis := Analysis.constants, models }) (keeps : ∀ model ∈ models, model.KeepsTypes)
    (fine : p.error? = none) :
    ∃ limit, ∀ steps, limit ≤ steps → ∃ solution solution',
      ({ p with policy := .reversePostorder } : Problem Constants).solve steps = .ok solution ∧
      ({ p with policy := .fifo } : Problem Constants).solve steps = .ok solution' ∧
      ∀ b, solution'.lattice? b = solution.lattice? b := by
  have acts := pass ▸ Pass.constants_acts_with p.start.ty? keeps
  obtain ⟨⟨blocks, solution, _, _, run, _⟩, _⟩ :=
    constants_solvedWithin (p := { p with policy := .reversePostorder }) pass keeps fine
  obtain ⟨⟨blocks', solution', _, _, run', _⟩, _⟩ :=
    constants_solvedWithin (p := { p with policy := .fifo }) pass keeps fine
  refine ⟨max _ _, fun steps enough => ⟨solution, solution', run steps (max_le_iff.mp enough).1,
    run' steps (max_le_iff.mp enough).2, fun b => ?_⟩⟩
  exact lattice?_eq_of_policies acts (Constants.act_mono _) (fun _ => rfl)
    (run steps (max_le_iff.mp enough).1) (run' steps (max_le_iff.mp enough).2) b

/-- The constants are ordered by their join, the hooks of constant propagation are monotone where the declared types are
the same, and so the policy makes no difference to what a run finds. -/
theorem constants_policy_independent :
    (∀ m n : Constants, m ≤ n ↔ m.join n = n) ∧
    (∀ (m : Constants) (x : Var), m.get? x = none → m < m.insert x .bottom) ∧
    (∀ s t : State Constants, (∀ v, s.known.ty? v = t.known.ty? v) → s.lattice ≤ t.lattice →
      (∀ e, (Analysis.constants.onElement e s).lattice ≤ (Analysis.constants.onElement e t).lattice) ∧
      (∀ st, (Analysis.constants.onStmt st s).lattice ≤ (Analysis.constants.onStmt st t).lattice) ∧
      ∀ e, (Pass.constants.transfer s e).lattice ≤ (Pass.constants.transfer t e).lattice) ∧
    (∀ s t : State Constants, (∀ v, s.known.ty? v = t.known.ty? v) → s.lattice = t.lattice →
      (∀ e, (Analysis.constants.onElement e s).lattice = (Analysis.constants.onElement e t).lattice) ∧
      ∀ st, (Analysis.constants.onStmt st s).lattice = (Analysis.constants.onStmt st t).lattice) ∧
    ∀ (p : Problem Constants) (models : List Model), p.pass = { analysis := Analysis.constants, models } →
      (∀ model ∈ models, model.KeepsTypes) → p.error? = none →
      ∃ limit, ∀ steps, limit ≤ steps → ∃ solution solution',
        ({ p with policy := .reversePostorder } : Problem Constants).solve steps = .ok solution ∧
        ({ p with policy := .fifo } : Problem Constants).solve steps = .ok solution' ∧
        ∀ b, solution'.lattice? b = solution.lattice? b := by
  refine ⟨fun m n => le_iff_join_eq, fun m x => Constants.lt_insert_bottom, ?_, ?_, fun p models =>
    constants_of_policies⟩
  · intro s t types below
    exact ⟨Constants.onElement_mono types below, Constants.onStmt_mono types below, Constants.transfer_mono types below⟩
  · intro s t types same
    have types' (v : Var) : t.known.ty? v = s.known.ty? v := (types v).symm
    constructor
    · intro e
      exact le_antisymm (Constants.onElement_mono types same.le e) (Constants.onElement_mono types' same.ge e)
    · intro st
      exact le_antisymm (Constants.onStmt_mono types same.le st) (Constants.onStmt_mono types' same.ge st)

/-- The loop that counts has the same constants under both policies. -/
theorem constants_policy_independent_countingLoop : ∃ steps solution solution',
    Problem.solve { body := .countingLoop, pass := .constants } steps = .ok solution ∧
      Problem.solve { body := .countingLoop, pass := .constants, policy := .fifo } steps = .ok solution' ∧
      ∀ b, solution'.lattice? b = solution.lattice? b := by
  obtain ⟨limit, runs⟩ := constants_policy_independent.2.2.2.2 { body := .countingLoop, pass := .constants } [] rfl
    (fun _ mem => absurd mem List.not_mem_nil) (by decide +kernel)
  exact ⟨limit, runs limit le_rfl⟩

end Problem

end ForwardFlow
