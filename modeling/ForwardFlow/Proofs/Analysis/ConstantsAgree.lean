import ForwardFlow.Proofs.Analysis.ConstantsSound
import ForwardFlow.Proofs.Analysis.Evaluators
import ForwardFlow.Proofs.Knowledge.Sound
import ForwardFlow.Proofs.Solver.Invariant

namespace ForwardFlow

/-- The constants and the facts of a state agree: an integer variable that is known to have a value has it as its
constant. -/
def State.Agrees (types : Var → Option Ty) (s : State Constants) : Prop :=
  ∀ x n, types x = some .int → s.known.fact? x = some (.int n) → s.lattice.get? x = some (.value n)

namespace Fact

theorem around?_ne_int {a b : Fact} {n : Int64} : Merger.around? a b ≠ some (.int n) := by
  intro around
  simp only [Merger.around?, Option.bind_eq_bind, Option.bind_eq_some_iff, Option.pure_def, Option.some.injEq] at around
  obtain ⟨_, _, _, _, impossible⟩ := around
  cases impossible

end Fact

theorem BinOp.HasTy.operand_of_fold? {op : BinOp} {operand ty : Ty} (hasTy : op.HasTy operand ty) {i j n : Int64}
    (folds : Constants.fold? op i j = some n) : operand = .int := by
  cases hasTy with
  | add | sub | mul => rfl
  | _ => cases folds

namespace State

variable {types : Var → Option Ty} {s t : State Constants} {n : Int64}

theorem Agrees.operand (agrees : s.Agrees types) {o : Operand} (int : o.HasTy types .int)
    (known : s.known.operand? o = some (.int n)) : s.lattice.operand o = .value n := by
  cases o with
  | lit literal =>
    cases literal with
    | int m =>
      cases known
      rfl
    | bool b => cases int
  | var v =>
    rw [Constants.operand, agrees v n int known]
    rfl

theorem Agrees.eval (agrees : s.Agrees types) {source : Expr} (hasTy : source.HasTy types .int)
    (known : s.known.eval? source = some (.int n)) : s.lattice.eval source = .value n := by
  cases hasTy with
  | use int => exact agrees.operand int known
  | call => cases known
  | binary ofOp ofLeft ofRight =>
    obtain ⟨i, j, atL, atR, folds⟩ := Knowledge.eval?_binary_eq_int_iff.mp known
    cases ofOp.operand_of_fold? folds
    exact Constants.eval_binary_eq_value_iff.mpr ⟨i, j, agrees.operand ofLeft atL, agrees.operand ofRight atR, folds⟩

theorem Agrees.write (agrees : s.Agrees types) {target : Var} {source : Expr}
    (hasTy : types target = some .int → source.HasTy types .int) : Agrees types
      ⟨if types target = some .int then s.lattice.insert target (s.lattice.eval source) else s.lattice,
        s.known.update target (s.known.eval? source)⟩ := by
  intro x n int known
  dsimp only at known ⊢
  rw [Knowledge.fact?_update] at known
  split at known
  · rename_i here
    subst here
    rw [if_pos int, Pointwise.get?_insert, if_pos rfl, agrees.eval (hasTy int) known]
  · rename_i other
    split
    · rw [Pointwise.get?_insert, if_neg other]
      exact agrees x n int known
    · exact agrees x n int known

theorem Agrees.forget (agrees : s.Agrees types) (v : Var) : Agrees types ⟨s.lattice.erase v, s.known.forget v⟩ := by
  intro x n int known
  dsimp only at known ⊢
  rw [Knowledge.fact?_forget] at known
  split at known
  · cases known
  · rename_i other
    rw [Pointwise.get?_erase, if_neg other]
    exact agrees x n int known

/-- An element writes the same integer on both sides, and ends a scope on both. -/
theorem Agrees.transfer (agrees : s.Agrees types) (declared : ∀ v, s.known.ty? v = types v) {e : Element}
    (wellTyped : e.WellTyped types) : (Pass.constants.transfer s e).Agrees types := by
  have lattice := (Pass.constants_acts types).lattice s e declared
  have known : (Pass.constants.transfer s e).known = s.known.apply e := Pass.known_transfer_constants s e
  have state : Pass.constants.transfer s e = ⟨s.lattice.act types e, s.known.apply e⟩ := by rw [← lattice, ← known]
  rw [state]
  obtain ⟨target, source, writes⟩ | ⟨v, rfl⟩ | ⟨idle, inScope⟩ := e.writes_or_ends_or_idle
  · rw [Constants.act_of_write writes, Knowledge.apply_of_write writes]
    refine agrees.write fun int => ?_
    obtain ⟨ty, ofTarget, hasTy⟩ := wellTyped target source writes
    cases int.symm.trans ofTarget
    exact hasTy
  · exact agrees.forget v
  · rw [Constants.act_of_idle idle inScope, Knowledge.apply_of_idle idle inScope]
    exact agrees

/-- A join knows an integer only where both sides know the same one, and there the constants are the same as well. -/
theorem Agrees.join (left : s.Agrees types) (right : t.Agrees types) : (Pass.constants.join s t).Agrees types := by
  intro x n int known
  have both : s.known.fact? x = some (.int n) ∧ t.known.fact? x = some (.int n) := by
    obtain both | ⟨a, b, ty, _, _, _, _, picked⟩ := Knowledge.fact?_join_cases Merger.ranges_picks known
    · exact both
    · rw [Option.ite_none_right_eq_some] at picked
      exact absurd picked.2 Fact.around?_ne_int
  show (s.lattice.join t.lattice).get? x = some (.value n)
  rw [Pointwise.get?_join, left x n int both.1, right x n int both.2]
  exact congrArg some (if_pos rfl)

end State

namespace Problem

variable {p : Problem Constants}

/-- What is true throughout a run: the declared types stay as they are, and the constants agree with the facts. -/
def InStep (p : Problem Constants) (s : State Constants) : Prop :=
  (∀ v, s.known.ty? v = p.body.ty? v) ∧ s.Agrees p.body.ty?

theorem invariant_inStep (pass : p.pass = .constants) (start : p.start = .ofBody p.body)
    (wellTyped : p.body.WellTyped) : p.Invariant p.InStep where
  initial := by
    refine ⟨fun v => ?_, fun x n _ known => ?_⟩
    · rw [initial, start]
      exact Knowledge.ty?_ofBody p.body v
    · rw [initial, start] at known
      cases (Knowledge.fact?_ofBody p.body x).symm.trans known
  join := by
    rintro s t ⟨declared, left⟩ ⟨declared', right⟩
    rw [pass]
    exact ⟨(Pass.constants_acts p.body.ty?).join _ _ declared declared', left.join right⟩
  transfer := by
    rintro b _ e inside s ⟨declared, agrees⟩
    rw [pass]
    exact ⟨(Pass.constants_acts p.body.ty?).known s e declared, agrees.transfer declared (wellTyped b e inside)⟩

/-- Constant propagation never contradicts what is known of the store. At every stage of a run, at its end and at each
point an observer is shown, an integer variable known to have a value has it as its constant. -/
theorem constants_agree (pass : p.pass = .constants) (start : p.start = .ofBody p.body)
    (wellTyped : p.body.WellTyped) (fine : p.error? = none) :
    (∀ progress, p.Stage progress →
      ∀ (b : Block) (t : State Constants), progress.exits[b]? = some t → t.Agrees p.body.ty?) ∧
    (∀ steps solution, p.solve steps = .ok solution →
      ∀ (b : Block) (t : State Constants), solution.exits[b]? = some t → t.Agrees p.body.ty?) ∧
    ∀ steps observer, ∀ view ∈ (p.observe steps observer).1, view.state.Agrees p.body.ty? := by
  have throughout := (invariant_inStep pass start wellTyped).throughout fine
  exact ⟨fun progress stage b t found => (throughout.stored progress stage b t found).2,
    fun steps solution run b t found => (throughout.returned steps solution run b t found).2,
    fun steps observer view shown => (throughout.shown steps observer view shown).2⟩

/-- Before the loop that counts, the counter is known to be zero, and zero is its constant. -/
theorem constants_agree_countingLoop : ∃ solution t,
    Problem.solve { body := .countingLoop, pass := .constants } 20 = .ok solution ∧
      solution.exits[(.slot 0 : Block)]? = some t ∧ t.known.fact? (.slot 0) = some (.int 0) ∧
      t.lattice.get? (.slot 0) = some (.value 0) := by
  obtain ⟨solution, run, found⟩ := exists_solution { body := .countingLoop, pass := .constants } 20
    (fun solution => solution.exits[(.slot 0 : Block)]?.any fun t : State Constants =>
      decide (t.known.fact? (.slot 0) = some (.int 0))) (by decide +kernel)
  obtain ⟨t, atEnd, test⟩ := (Option.any_eq_true ..).mp found
  have known : t.known.fact? (.slot 0) = some (.int 0) := of_decide_eq_true test
  have agrees := (constants_agree rfl rfl Body.countingLoop_wellTyped (solve_eq_ok run).1).2.1 20 solution run _ t atEnd
  exact ⟨solution, t, run, atEnd, known, agrees (.slot 0) 0 rfl known⟩

end Problem

end ForwardFlow
