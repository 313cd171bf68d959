import ForwardFlow.Proofs.Analysis.ConstantsAgree
import ForwardFlow.Proofs.Knowledge.Typed
import ForwardFlow.Proofs.Lattice.MustSet
import ForwardFlow.Report

namespace ForwardFlow

namespace Bundled

def Lattice : Bundled → Type
  | .assigned => MustSet Var
  | .constants => Constants

instance : (analysis : Bundled) → JoinLattice analysis.Lattice
  | .assigned => inferInstanceAs (JoinLattice (MustSet Var))
  | .constants => inferInstanceAs (JoinLattice Constants)

instance : (analysis : Bundled) → DecidableEq analysis.Lattice
  | .assigned => inferInstanceAs (DecidableEq (MustSet Var))
  | .constants => inferInstanceAs (DecidableEq Constants)

def pass : (analysis : Bundled) → Pass analysis.Lattice
  | .assigned => { analysis := Analysis.assigned }
  | .constants => .constants

/-- What a bundled analysis makes of two facts that differ. -/
def pick : Bundled → Ty → Fact → Fact → Option Fact
  | .assigned => fun _ _ _ => none
  | .constants => fun ty a b => if ty = .int then Merger.around? a b else none

theorem merge_picks (analysis : Bundled) : analysis.pass.analysis.merge.Picks analysis.pick := by
  cases analysis with
  | assigned => exact Merger.strict_picks
  | constants => exact Merger.ranges_picks

theorem pick_widens (analysis : Bundled) : Merger.Widens analysis.pick := by
  cases analysis with
  | assigned => exact Merger.widens_strict
  | constants => exact Merger.widens_ranges

theorem pick_keepsTy (analysis : Bundled) : Merger.KeepsTy analysis.pick := by
  cases analysis with
  | assigned => exact Merger.keepsTy_strict
  | constants => exact Merger.keepsTy_ranges

theorem known_transfer (analysis : Bundled) (s : State analysis.Lattice) (e : Element) :
    (analysis.pass.transfer s e).known = s.known.apply e := by
  cases analysis with
  | assigned =>
    cases e with
    | stmt st => cases st <;> rfl
    | _ => rfl
  | constants => exact Pass.known_transfer_constants s e

theorem describes (analysis : Bundled) (types : Var → Option Ty) :
    analysis.pass.Describes (Element.Step types) (fun _ => True) fun store s => s.known.Describes store where
  inv_join _ _ _ _ := trivial
  inv_transfer _ _ _ := trivial
  left _ _ _ _ _ holds := Knowledge.join_describes analysis.merge_picks analysis.pick_widens (Or.inl holds)
  right _ _ _ _ _ holds := Knowledge.join_describes analysis.merge_picks analysis.pick_widens (Or.inr holds)
  transfer _ _ s e _ step holds := by
    rw [known_transfer]
    exact Knowledge.apply_describes step holds

end Bundled

namespace Body

/-- Counts by steps. The counter and the step are set before the loop. -/
def countingBySteps : Body where
  name := "steps"
  vars := .ofList [⟨"i", .int⟩, ⟨"step", .int⟩]
  entry := .slot 0
  blocks := .ofList [
    { elements := [.stmt (.assign (.slot 1) (.use (.lit (.int 1)))), .stmt (.assign (.slot 0) (.use (.lit (.int 0))))]
      succs := [.slot 1] },
    { preds := [.slot 0, .slot 2], succs := [.slot 2, .slot 3] },
    { elements := [.stmt (.assign (.slot 0) (.binary .add (.var (.slot 0)) (.var (.slot 1))))]
      preds := [.slot 1], succs := [.slot 1] },
    { preds := [.slot 1] }]

theorem countingBySteps_path :
    countingBySteps.Path [.slot 0, .slot 1, .slot 2, .slot 1, .slot 2, .slot 1] (.slot 3) := by
  have head : countingBySteps.Path [.slot 0] (.slot 1) := Path.entry.edge (by decide)
  have round {before : List Block} (path : countingBySteps.Path before (.slot 1)) :
      countingBySteps.Path (before ++ [.slot 1, .slot 2]) (.slot 1) := by
    have inside : countingBySteps.Path (before ++ [.slot 1]) (.slot 2) := path.edge (by decide)
    simpa using inside.edge (b := .slot 1) (by decide)
  exact (round (round head)).edge (by decide)

theorem countingBySteps_wellTyped : countingBySteps.WellTyped := by
  have int : countingBySteps.ty? (.slot 0) = some .int := rfl
  have int' : countingBySteps.ty? (.slot 1) = some .int := rfl
  intro b e mem target source writes
  match b with
  | .slot 0 =>
    obtain rfl | rfl := List.mem_pair.mp mem
    · cases writes
      exact ⟨.int, int', .use rfl⟩
    · cases writes
      exact ⟨.int, int, .use rfl⟩
  | .slot 2 =>
    cases List.mem_singleton.mp mem
    cases writes
    exact ⟨.int, int, .binary .add int int'⟩
  | .slot 1 | .slot 3 | .slot (_ + 4) | .invalid => cases mem

/-- Before the loop the counter is zero, and behind it two, after two rounds. -/
theorem countingBySteps_executes : ∃ once twice : Store,
    once (.slot 0) = some (.int 0) ∧ twice (.slot 0) = some (.int 2) ∧
      countingBySteps.Executes (countingBySteps.elementsOf [.slot 0]) .empty once ∧
      countingBySteps.Executes (countingBySteps.elementsOf
        [.slot 0, .slot 1, .slot 2, .slot 1, .slot 2, .slot 1, .slot 3]) .empty twice := by
  have int : countingBySteps.ty? (.slot 0) = some .int := rfl
  have int' : countingBySteps.ty? (.slot 1) = some .int := rfl
  have one : Element.Step countingBySteps.ty? (.stmt (.assign (.slot 1) (.use (.lit (.int 1))))) .empty
      (Function.update Store.empty (.slot 1) (some (.int 1))) := .write rfl int' (.use rfl)
  have zero {store : Store} : Element.Step countingBySteps.ty? (.stmt (.assign (.slot 0) (.use (.lit (.int 0))))) store
      (Function.update store (.slot 0) (some (.int 0))) := .write rfl int (.use rfl)
  have round {m n : Int64} {store : Store} (value : store (.slot 0) = some (.int m))
      (step : store (.slot 1) = some (.int 1)) (next : n.toInt = m.toInt + 1) :
      Element.Step countingBySteps.ty? (.stmt (.assign (.slot 0) (.binary .add (.var (.slot 0)) (.var (.slot 1))))) store
        (Function.update store (.slot 0) (some (.int n))) := .write rfl int (.binary value step (Or.inl next))
  exact ⟨_, _, Function.update_self .., Function.update_self .., .cons one (.cons zero .nil),
    .cons one (.cons zero (.cons (round (m := 0) (n := 1) rfl rfl (by decide))
      (.cons (round (m := 1) (n := 2) rfl rfl (by decide)) .nil)))⟩

end Body

namespace Problem

variable {analysis : Bundled} {p : Problem analysis.Lattice} {steps : Nat} {solution : Solution analysis.Lattice}

/-- In a well-typed body, what is known of a variable fits its type throughout a run. -/
theorem invariant_typed (pass : p.pass = analysis.pass) (start : p.start = .ofBody p.body)
    (wellTyped : p.body.WellTyped) : p.Invariant fun s => s.known.Typed p.body.ty? where
  initial := by
    rw [initial, start]
    exact Knowledge.typed_ofBody
  join s t left _ := by
    rw [pass]
    exact left.join analysis.merge_picks analysis.pick_keepsTy
  transfer b _ e inside s typed := by
    rw [pass, Bundled.known_transfer]
    exact typed.apply (wellTyped b e inside)

/-- An integer that constant propagation knows at the end of a block is the value after every execution that comes
there, whether or not the state is out of date: it is the constant of the variable, and the constants allow the value. -/
theorem eq_of_known_int {p : Problem Constants} {solution : Solution Constants} (pass : p.pass = .constants)
    (start : p.start = .ofBody p.body) (wellTyped : p.body.WellTyped) (run : p.solve steps = .ok solution)
    {before : List Block} {b : Block} (path : p.body.Path before b) {store : Store}
    (executes : p.body.Executes (p.body.elementsOf (before ++ [b])) .empty store) :
    ∃ t, solution.exits[b]? = some t ∧
      ∀ x n c, t.known.fact? x = some (.int n) → store x = some c → c = .int n := by
  have fine := (solve_eq_ok run).1
  obtain ⟨t, found, describe⟩ := exists_exit_describes pass start wellTyped run path executes
  have agrees := (((invariant_inStep pass start wellTyped).throughout fine).returned steps solution run b t found).2
  have typed := ((@invariant_typed .constants p pass start wellTyped).throughout fine).returned steps solution run b t
    found
  refine ⟨t, found, fun x n c known value => ?_⟩
  have int : p.body.ty? x = some .int := typed x (.int n) known
  have ofTy := wellTyped.typed executes x c value
  cases c with
  | bool _ => cases int.symm.trans ofTy
  | int m =>
    obtain ⟨flat, constant, one | many⟩ := describe x m int value
    · cases (agrees x n int known).symm.trans (constant.trans (congrArg some one))
      rfl
    · cases (agrees x n int known).symm.trans (constant.trans (congrArg some many))

/-- What a bundled analysis knows of the store at the end of a block is true after every execution along a path through
blocks whose states are what one more visit would leave. A block is of this kind unless some visit changes the state at
the end of a predecessor, but not its lattice value: only the lattice value decides whether the block is visited again,
so what is known there may be out of date. Without such visits, what is known is true after every execution. With them,
constant propagation may have bounds and truth values that are out of date, but no integers: in a well-typed body, a
variable that it knows to be an integer has that value after every execution. -/
theorem known_sound (pass : p.pass = analysis.pass) (run : p.solve steps = .ok solution) :
    (∀ before b store, p.body.Path before b → (∀ a ∈ before ++ [b], p.Settled Eq solution.exits a) →
      p.body.Executes (p.body.elementsOf (before ++ [b])) .empty store →
      ∃ t, solution.exits[b]? = some t ∧ t.known.Describes store) ∧
    (∀ b, p.body.Reaches b → p.Settled Eq solution.exits b ∨ ∃ a ∈ p.body.preds b, p.Drifts Eq a) ∧
    ((∀ a, ¬p.Drifts Eq a) → ∀ before b store, p.body.Path before b →
      p.body.Executes (p.body.elementsOf (before ++ [b])) .empty store →
      ∃ t, solution.exits[b]? = some t ∧ t.known.Describes store) ∧
    (analysis = .constants → p.start = .ofBody p.body → p.body.WellTyped → ∀ before b store, p.body.Path before b →
      p.body.Executes (p.body.elementsOf (before ++ [b])) .empty store →
      ∃ t, solution.exits[b]? = some t ∧
        ∀ x n c, t.known.fact? x = some (.int n) → store x = some c → c = .int n) := by
  obtain ⟨fine, last, stage, idle, rfl⟩ := solve_eq_ok run
  have ok := consistent_of_error? fine
  have settled_or_drifts (b : Block) (reach : p.body.Reaches b) :
      p.Settled Eq last.exits b ∨ ∃ a ∈ p.body.preds b, p.Drifts Eq a := by
    obtain ⟨t, found⟩ := stage.visited_of_idle ok idle reach
    exact stage.settled_or_drifts ok Pass.respects_eq rfl found (by simp [idle])
  have holds (before : List Block) (b : Block) (store : Store) (path : p.body.Path before b)
      (settled : ∀ a ∈ before ++ [b], p.Settled Eq last.exits a)
      (executes : p.body.Executes (p.body.elementsOf (before ++ [b])) .empty store) :
      ∃ t, last.exits[b]? = some t ∧ t.known.Describes store :=
    exit_describes ok (pass ▸ analysis.describes p.body.ty?) (fun _ _ _ same holds => same ▸ holds) trivial
      (Knowledge.describes_empty _) (fun _ _ _ => trivial) path settled executes
  refine ⟨holds, settled_or_drifts, fun steady before b store path executes => ?_,
    fun constants start wellTyped before b store path executes => ?_⟩
  · have settled (a : Block) (reach : p.body.Reaches a) : p.Settled Eq last.exits a := by
      refine (settled_or_drifts a reach).resolve_right ?_
      rintro ⟨q, _, drifts⟩
      exact steady q drifts
    refine holds before b store path (fun a mem => ?_) executes
    rcases List.mem_append.mp mem with early | here
    · exact settled a (path.reaches_of_mem early)
    · rw [List.mem_singleton.mp here]
      exact settled b path.reaches
  · subst constants
    exact eq_of_known_int pass start wellTyped run path executes

/-- Where the loop is entered, what is known is true of the store. Behind it, the state is out of date: the bounds of the
counter are those of the first round, and it has left them in the second. The step is known to be one, and it is. -/
theorem known_sound_countingBySteps : ∃ solution t u, ∃ once twice : Store,
    Problem.solve { body := .countingBySteps, pass := Bundled.constants.pass } 20 = .ok solution ∧
      solution.exits[(.slot 0 : Block)]? = some t ∧ once (.slot 0) = some (.int 0) ∧ t.known.Describes once ∧
      Drifts { body := .countingBySteps, pass := Bundled.constants.pass } Eq (.slot 1) ∧
      solution.exits[(.slot 3 : Block)]? = some u ∧ u.known.fact? (.slot 0) = some (.range 0 1) ∧
      u.known.fact? (.slot 1) = some (.int 1) ∧ twice (.slot 0) = some (.int 2) ∧
      ∀ c, twice (.slot 1) = some c → c = .int 1 := by
  obtain ⟨solution, run, found⟩ := exists_solution { body := .countingBySteps, pass := Bundled.constants.pass } 20
    (fun solution => decide (
      Settled { body := .countingBySteps, pass := Bundled.constants.pass } Eq solution.exits (.slot 0) ∧
      ¬Settled { body := .countingBySteps, pass := Bundled.constants.pass } Eq solution.exits (.slot 3)) &&
      solution.exits[(.slot 3 : Block)]?.any fun u : State Bundled.constants.Lattice =>
        decide (u.known.fact? (.slot 0) = some (.range 0 1) ∧ u.known.fact? (.slot 1) = some (.int 1)))
    (by decide +kernel)
  obtain ⟨first, last⟩ := Bool.and_eq_true_iff.mp found
  obtain ⟨settled, stale⟩ := of_decide_eq_true first
  obtain ⟨u, atU, test⟩ := (Option.any_eq_true ..).mp last
  obtain ⟨bounds, step⟩ := of_decide_eq_true test
  obtain ⟨once, twice, zero, two, before, after⟩ := Body.countingBySteps_executes
  obtain ⟨holds, drifts, _, ints⟩ := known_sound rfl run
  obtain ⟨t, atT, describes⟩ := holds [] (.slot 0) once .entry (by simpa using settled) before
  obtain ⟨a, pred, drift⟩ := (drifts (.slot 3) Body.countingBySteps_path.reaches).resolve_left stale
  cases List.mem_singleton.mp pred
  obtain ⟨u', atU', same⟩ := ints rfl rfl Body.countingBySteps_wellTyped _ _ twice Body.countingBySteps_path after
  cases atU.symm.trans atU'
  exact ⟨solution, t, u, once, twice, run, atT, zero, describes, drift, atU, bounds, step, two,
    fun c => same (.slot 1) 1 c step⟩

/-- In the loop that counts, what is known at the end of the body is out of date: there the counter is one, as it was
the first time. Going round again changes what is known at the head, but not which variables are assigned. -/
theorem not_known_sound_of_all_paths : ¬∀ (analysis : Bundled) (p : Problem analysis.Lattice) (steps : Nat)
    (solution : Solution analysis.Lattice), p.pass = analysis.pass → p.start = .ofBody p.body → p.body.WellTyped →
      p.solve steps = .ok solution → ∀ before b store, p.body.Path before b →
      p.body.Executes (p.body.elementsOf (before ++ [b])) .empty store →
      ∃ t, solution.exits[b]? = some t ∧ t.known.Describes store := by
  intro every
  obtain ⟨solution, run, found⟩ := exists_solution { body := .countingLoop, pass := Bundled.assigned.pass } 20
    (fun solution => solution.exits[(.slot 2 : Block)]?.any fun t : State Bundled.assigned.Lattice =>
      decide (t.known.fact? (.slot 0) = some (.int 1))) (by decide +kernel)
  obtain ⟨t, atEnd, one⟩ := (Option.any_eq_true ..).mp found
  obtain ⟨store, two, executes⟩ := Body.countingLoop_executes
  obtain ⟨t', atEnd', describes⟩ := every .assigned _ 20 solution rfl rfl Body.countingLoop_wellTyped run _ _ store
    Body.countingLoop_path executes
  cases atEnd.symm.trans atEnd'
  have same := describes (.slot 0) (.int 1) (.int 2) (of_decide_eq_true one) two
  cases same

end Problem

end ForwardFlow
