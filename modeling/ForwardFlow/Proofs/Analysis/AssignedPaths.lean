import ForwardFlow.Proofs.Analysis.Assigned
import ForwardFlow.Proofs.Solver.Origin
import ForwardFlow.Proofs.Solver.Replay
import ForwardFlow.Proofs.Solver.Sound

namespace ForwardFlow

theorem assigned_describes (models : List Model) :
    Pass.Describes { analysis := Analysis.assigned, models } (fun e passed passed' => passed' = passed ++ [e])
      (fun _ => True) (fun passed s => ∀ x ∈ s.lattice.elems, Assigned x passed) where
  inv_join _ _ _ _ := trivial
  inv_transfer _ _ _ := trivial
  left _ _ _ _ _ holds x mem := holds x (MustSet.mem_join.mp mem).1
  right _ _ _ _ _ holds x mem := holds x (MustSet.mem_join.mp mem).2
  transfer passed _ s e _ := by
    rintro rfl holds x mem
    rw [(assigned_acts models).lattice s e trivial] at mem
    exact assigned_snoc.mpr ((mem_assign.mp mem).imp_right fun ⟨old, other⟩ => ⟨holds x old, other⟩)

/-- What is missing in the set is not assigned on some path. -/
theorem assigned_originates (models : List Model) (x : Var) :
    Pass.Originates { analysis := Analysis.assigned, models } Element.assign (x ∉ ·.elems) (¬Assigned x ·) where
  initial _ := not_assigned_nil
  join _ _ other := not_and_or.mp (mt MustSet.mem_join.mpr other)
  act e m before early other := by
    rw [mem_assign] at other
    rw [assigned_snoc]
    tauto

namespace Problem

variable {p : Problem (MustSet Var)} {models : List Model} {b : Block} {s : State (MustSet Var)} {x : Var} {steps : Nat}
  {solution : Solution (MustSet Var)}

/-- After some elements of a reachable block, the set has the variables that are assigned on every path up to there. -/
theorem mem_transferAll_input (pass : p.pass = { analysis := Analysis.assigned, models })
    (run : p.solve steps = .ok solution) (arrived : p.input solution.exits b = some s) (reach : p.body.Reaches b)
    (elements : List Element) : x ∈ (p.pass.transferAll s elements).lattice.elems ↔
      ∀ before, p.body.Path before b → Assigned x (p.body.elementsOf before ++ elements) := by
  have acts : p.pass.ActsBy (fun _ => True) Element.assign := pass ▸ assigned_acts models
  have input : x ∈ s.lattice.elems ↔ ∀ before, p.body.Path before b → Assigned x (p.body.elementsOf before) := by
    constructor
    · intro mem before path
      have start : ∀ x ∈ p.initial.lattice.elems, Assigned x [] := by
        rw [initial, pass]
        exact fun x mem => absurd mem Std.ExtTreeSet.not_mem_empty
      obtain ⟨s', arrived', _, holds⟩ := solve_describes acts trivial run (pass ▸ assigned_describes models)
        (fun _ _ _ _ _ same holds => same ▸ holds) trivial start path (along_elements [] _)
      cases arrived.symm.trans arrived'
      exact holds x mem
    · intro every
      by_contra other
      obtain ⟨fine, last, stage, _, rfl⟩ := solve_eq_ok run
      have ok := consistent_of_error? fine
      have origin := pass ▸ assigned_originates models x
      obtain ⟨before, path, missed⟩ :=
        origin.exists_path_of_input ok (origin.exists_path_of_exit acts trivial ok stage) arrived
      exact missed other (every before path)
  rw [acts.lattice_transferAll trivial, mem_assignAll, input]
  constructor
  · rintro (late | ⟨early, keeps⟩) before path
    · exact assigned_append.mpr (Or.inl late)
    · exact assigned_append.mpr (Or.inr ⟨early before path, keeps⟩)
  · intro every
    by_cases late : Assigned x elements
    · exact Or.inl late
    · have early before path := (assigned_append.mp (every before path)).resolve_left late
      obtain ⟨before, path⟩ := reach
      exact Or.inr ⟨fun before path => (early before path).1, (early before path).2⟩

/-- Definite assignment finds exactly the variables that are assigned on every path, at the ends of the reachable blocks
and at each point an observer is shown. -/
theorem assigned_on_all_paths (pass : p.pass = { analysis := Analysis.assigned, models })
    (run : p.solve steps = .ok solution) :
    (∀ b, p.body.Reaches b → ∃ t, solution.exits[b]? = some t ∧
      ∀ x, x ∈ t.lattice.elems ↔ ∀ before, p.body.Path before b → Assigned x (p.body.elementsOf (before ++ [b]))) ∧
    ∀ (observer : Observer (MustSet Var)) (i : Nat) (view : View (MustSet Var)),
      (p.observe steps observer).1[i]? = some view →
      ∃ b n, p.points[i]? = some (b, n) ∧ (p.body.elements b)[n]? = some view.element ∧
        ∀ x, x ∈ view.state.lattice.elems ↔ ∀ before, p.body.Path before b →
          Assigned x (p.body.elementsOf before ++ (p.body.elements b).take (n + 1)) := by
  have acts : p.pass.ActsBy (fun _ => True) Element.assign := pass ▸ assigned_acts models
  constructor
  · intro b reach
    obtain ⟨s, t, arrived, found, _, _, same⟩ := solve_settled acts trivial run reach
    refine ⟨t, found, fun x => ?_⟩
    rw [same, ← acts.lattice_transferAll trivial, mem_transferAll_input pass run arrived reach]
    simp only [Body.elementsOf_snoc]
  · intro observer i view shown
    obtain ⟨⟨b, n⟩, here, reach, s, arrived, element, state⟩ := viewAt_of_shown run shown
    refine ⟨b, n, here, element, fun x => ?_⟩
    rw [state, mem_transferAll_input pass run arrived reach]

/-- However often the loop is gone round, the counter has been assigned when it is left. -/
theorem assigned_on_all_paths_countingLoop : ∃ solution t,
    Problem.solve { body := .countingLoop, pass := { analysis := Analysis.assigned } } 20 = .ok solution ∧
      solution.exits[(.slot 3 : Block)]? = some t ∧ .slot 0 ∈ t.lattice.elems ∧
      ∀ before, Body.countingLoop.Path before (.slot 3) →
        Assigned (.slot 0) (Body.countingLoop.elementsOf (before ++ [.slot 3])) := by
  obtain ⟨solution, run, found⟩ := exists_solution
    { body := .countingLoop, pass := { analysis := Analysis.assigned } } 20
    (fun solution => solution.exits[(.slot 3 : Block)]?.any fun t : State (MustSet Var) =>
      decide (.slot 0 ∈ t.lattice.elems)) (by decide +kernel)
  obtain ⟨t, atEnd, test⟩ := (Option.any_eq_true ..).mp found
  have mem : .slot 0 ∈ t.lattice.elems := of_decide_eq_true test
  have reach : Body.countingLoop.Reaches (.slot 3) :=
    (Body.countingLoop_path.reaches_of_mem (a := .slot 1) (by decide)).succ (by decide)
  obtain ⟨t', atEnd', exact⟩ := (assigned_on_all_paths rfl run).1 (.slot 3) reach
  cases atEnd.symm.trans atEnd'
  exact ⟨solution, t, run, atEnd, mem, (exact (.slot 0)).mp mem⟩

end Problem

end ForwardFlow
