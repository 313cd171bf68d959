import ForwardFlow.Analysis.Constants
import ForwardFlow.Proofs.Knowledge.Join
import ForwardFlow.Proofs.Lattice.Flat
import ForwardFlow.Proofs.Lattice.Pointwise
import ForwardFlow.Proofs.Program.Execution
import ForwardFlow.Proofs.Solver.Replay
import ForwardFlow.Proofs.Solver.Sound

namespace ForwardFlow

namespace Constants

/-- The values an integer variable may have, as far as the constants tell. -/
def Allow (constants : Constants) (x : Var) (n : Int64) : Prop := ∃ flat, constants.get? x = some flat ∧ flat.Allows n

/-- What an element does to the constants, where the variables have certain types. -/
def act (types : Var → Option Ty) (e : Element) (constants : Constants) : Constants :=
  match e with
  | .scopeEnd v => constants.erase v
  | e =>
    match e.write? with
    | some (target, source) =>
      if types target = some .int then constants.insert target (constants.eval source) else constants
    | none => constants

/-- The constants describe a store: they allow the value of each integer variable. -/
def Describe (types : Var → Option Ty) (store : Store) (constants : Constants) : Prop :=
  ∀ x n, types x = some .int → store x = some (.int n) → constants.Allow x n

variable {types : Var → Option Ty} {store store' : Store} {constants other : Constants} {n : Int64}

theorem Allow.join_left {x : Var} (allow : constants.Allow x n) : Allow (constants.join other) x n := by
  obtain ⟨flat, found, allows⟩ := allow
  rw [Allow, Pointwise.get?_join, found]
  cases other.get? x with
  | none => exact ⟨flat, rfl, allows⟩
  | some flat' => exact ⟨flat.join flat', rfl, allows.join_left⟩

theorem Allow.join_right {x : Var} (allow : other.Allow x n) : Allow (constants.join other) x n := by
  obtain ⟨flat, found, allows⟩ := allow
  rw [Allow, Pointwise.get?_join, found]
  cases constants.get? x with
  | none => exact ⟨flat, rfl, allows⟩
  | some flat' => exact ⟨flat'.join flat, rfl, allows.join_right⟩

theorem operand_allows (describe : constants.Describe types store) {o : Operand} (int : o.HasTy types .int)
    (value : o.value? store = some (.int n)) : (constants.operand o).Allows n := by
  cases o with
  | lit literal =>
    cases value
    exact Or.inl rfl
  | var v =>
    obtain ⟨flat, found, allows⟩ := describe v n int value
    rw [operand, found]
    exact allows

theorem eq_of_fold? {op : BinOp} {a b m : Int64} (folds : fold? op a b = some m)
    (result : op.Yields (.int a) (.int b) (.int n)) : m = n := by
  cases op with
  | add => exact result.eq (Checked.add?_eq_some_iff.mp folds)
  | sub => exact result.eq (Checked.sub?_eq_some_iff.mp folds)
  | mul => exact result.eq (Checked.mul?_eq_some_iff.mp folds)
  | _ => cases folds

theorem eval_binary_allows {op : BinOp} {l r : Operand} {a b : Int64} (left : (constants.operand l).Allows a)
    (right : (constants.operand r).Allows b) (result : op.Yields (.int a) (.int b) (.int n)) :
    (constants.eval (.binary op l r)).Allows n := by
  obtain one | many := left
  · obtain one' | many' := right
    · simp only [eval, one, one']
      exact Flat.ofOption_allows fun m folds => eq_of_fold? folds result
    · simp only [eval, one, many']
      exact Or.inr rfl
  · obtain one' | many' := right
    · simp only [eval, many, one']
      exact Or.inr rfl
    · simp only [eval, many, many']
      exact Or.inr rfl

theorem eval_allows (describe : constants.Describe types store) {source : Expr} (hasTy : source.HasTy types .int)
    (yields : source.Yields .int store (some (.int n))) : (constants.eval source).Allows n := by
  cases yields with
  | use value =>
    cases hasTy with
    | use operand => exact operand_allows describe operand value
  | call => exact Or.inr rfl
  | binary left right result =>
    cases hasTy with
    | binary op ofLeft ofRight =>
      obtain ⟨rfl, a, b, rfl, rfl⟩ := op.int_operands result
      exact eval_binary_allows (operand_allows describe ofLeft left) (operand_allows describe ofRight right) result

theorem act_of_write {e : Element} {target : Var} {source : Expr} (writes : e.write? = some (target, source)) :
    constants.act types e =
      if types target = some .int then constants.insert target (constants.eval source) else constants := by
  rcases Element.write?_eq_some.mp writes with rfl | rfl <;> rfl

theorem act_of_idle {e : Element} (idle : e.write? = none) (inScope : ∀ v, e ≠ .scopeEnd v) :
    constants.act types e = constants := by
  cases e with
  | scopeEnd v => exact absurd rfl (inScope v)
  | init v source => cases idle
  | stmt s =>
    cases s with
    | assign v source => cases idle
    | _ => rfl

/-- An element adds no key but the integer variable it writes. -/
theorem exists_get?_of_act {e : Element} {x : Var} {a : Flat Int64}
    (found : (constants.act types e).get? x = some a) :
    (∃ b, constants.get? x = some b) ∨ types x = some .int ∧ e.target? = some x := by
  obtain ⟨target, source, writes⟩ | ⟨v, rfl⟩ | ⟨idle, inScope⟩ := e.writes_or_ends_or_idle
  · rw [act_of_write writes] at found
    split at found
    · rename_i int
      rw [Pointwise.get?_insert] at found
      split at found
      · rename_i here
        subst here
        exact .inr ⟨int, congrArg (Option.map Prod.fst) writes⟩
      · exact .inl ⟨a, found⟩
    · exact .inl ⟨a, found⟩
  · rw [act, Pointwise.get?_erase] at found
    split at found
    · cases found
    · exact .inl ⟨a, found⟩
  · rw [act_of_idle idle inScope] at found
    exact .inl ⟨a, found⟩

theorem act_describes {e : Element} (wellTyped : e.WellTyped types) (step : e.Step types store store')
    (describe : constants.Describe types store) : Describe types store' (constants.act types e) := by
  cases step with
  | @write _ target source ty _ value writes ofTarget yields =>
    intro x n int found
    rw [Allow, act_of_write writes]
    by_cases here : target = x
    · subst here
      cases int.symm.trans ofTarget
      obtain ⟨_, ofTarget', hasTy⟩ := wellTyped target source writes
      cases int.symm.trans ofTarget'
      rw [Function.update_self] at found
      subst found
      rw [if_pos int, Pointwise.get?_insert, if_pos rfl]
      exact ⟨_, rfl, eval_allows describe hasTy yields⟩
    · rw [Function.update_of_ne (Ne.symm here)] at found
      have kept := describe x n int found
      split
      · rwa [Pointwise.get?_insert, if_neg here]
      · exact kept
  | @scopeEnd v _ =>
    intro x n int found
    by_cases here : v = x
    · subst here
      rw [Function.update_self] at found
      cases found
    · rw [Function.update_of_ne (Ne.symm here)] at found
      rw [Allow, act, Pointwise.get?_erase, if_neg here]
      exact describe x n int found
  | idle writes ends =>
    rw [act_of_idle writes ends]
    exact describe

theorem known_define (target : Var) (source : Expr) (s : State Constants) :
    (define target source s).known = s.known := by
  unfold define
  split <;> rfl

theorem lattice_define (target : Var) (source : Expr) (s : State Constants) : (define target source s).lattice =
    if s.known.ty? target = some .int then s.lattice.insert target (s.lattice.eval source) else s.lattice := by
  unfold define
  split <;> rfl

end Constants

/-- A model that leaves the declared types as they are. -/
def Model.KeepsTypes (model : Model) : Prop := ∀ e k v, (model e k).2.ty? v = k.ty? v

abbrev Pass.constants : Pass Constants := { analysis := Analysis.constants }

namespace Pass

section Models

variable {models : List Model}

theorem known_transfer_constants (s : State Constants) (e : Element) :
    (transfer { analysis := Analysis.constants, models } s e).known =
      transferKnown { analysis := Analysis.constants, models } s.known e := by
  cases e with
  | scopeEnd v => rfl
  | init target source => exact Constants.known_define ..
  | stmt st =>
    cases st with
    | assign target source => exact Constants.known_define ..
    | _ => rfl

theorem ty?_transferKnown_constants (keeps : ∀ model ∈ models, model.KeepsTypes) (k : Knowledge) (e : Element)
    (v : Var) : (transferKnown { analysis := Analysis.constants, models } k e).ty? v = k.ty? v := by
  refine List.foldlRecOn (motive := fun l : Knowledge => l.ty? v = k.ty? v) models _ (Knowledge.ty?_apply k e v) ?_
  intro l same model mem
  exact (keeps model mem e l v).trans same

/-- Constant propagation looks at the declared types and at nothing else that is known of the store. -/
theorem constants_acts_with (types : Var → Option Ty) (keeps : ∀ model ∈ models, model.KeepsTypes) :
    ActsBy { analysis := Analysis.constants, models } (fun k => ∀ v, k.ty? v = types v) (Constants.act types) where
  lattice s e known := by
    have define (target : Var) (source : Expr) : (Constants.define target source
        ⟨s.lattice, transferKnown { analysis := Analysis.constants, models } s.known e⟩).lattice =
          if types target = some .int then s.lattice.insert target (s.lattice.eval source) else s.lattice := by
      rw [Constants.lattice_define, ty?_transferKnown_constants keeps, known]
    cases e with
    | scopeEnd v => rfl
    | init target source => exact define target source
    | stmt st =>
      cases st with
      | assign target source => exact define target source
      | _ => rfl
  known s e known v := by rw [known_transfer_constants, ty?_transferKnown_constants keeps, known]
  join k l known _ v := (Knowledge.ty?_join Merger.ranges_picks k l v).trans (known v)

end Models

theorem constants_acts (types : Var → Option Ty) :
    constants.ActsBy (fun k => ∀ v, k.ty? v = types v) (Constants.act types) :=
  constants_acts_with types fun _ mem => absurd mem List.not_mem_nil

theorem constants_describes (types : Var → Option Ty) :
    constants.Describes (fun e store store' => e.WellTyped types ∧ e.Step types store store')
      (fun s => ∀ v, s.known.ty? v = types v) (fun store s => Constants.Describe types store s.lattice) where
  inv_join s t known known' := (constants_acts types).join s.known t.known known known'
  inv_transfer s e known := (constants_acts types).known s e known
  left _ _ _ _ _ describe x n int value := (describe x n int value).join_left
  right _ _ _ _ _ describe x n int value := (describe x n int value).join_right
  transfer _ _ s e known := fun ⟨wellTyped, step⟩ describe => by
    rw [(constants_acts types).lattice s e known]
    exact Constants.act_describes wellTyped step describe

end Pass

namespace Problem

variable {p : Problem Constants} {steps : Nat} {solution : Solution Constants}

theorem describe_transferAll_input (pass : p.pass = .constants) (start : p.start = .ofBody p.body)
    (wellTyped : p.body.WellTyped) (run : p.solve steps = .ok solution) {before : List Block} {b : Block}
    {s : State Constants} (path : p.body.Path before b) (arrived : p.input solution.exits b = some s)
    {elements rest : List Element} (inside : p.body.elements b = elements ++ rest) {store : Store}
    (executes : p.body.Executes (p.body.elementsOf before ++ elements) .empty store) :
    Constants.Describe p.body.ty? store (p.pass.transferAll s elements).lattice := by
  have known : ∀ v, p.start.ty? v = p.body.ty? v := by
    rw [start]
    exact Knowledge.ty?_ofBody p.body
  have typed : ∀ e ∈ elements, e.WellTyped p.body.ty? := fun e mem =>
    wellTyped b e (inside ▸ List.mem_append_left rest mem)
  obtain ⟨mid, early, late⟩ := along_append.mp executes
  have sound := pass ▸ Pass.constants_describes p.body.ty?
  obtain ⟨s', arrived', inv, describe⟩ := solve_describes (pass ▸ Pass.constants_acts p.body.ty?) known run sound
    (fun _ _ _ _ _ same describe => same ▸ describe) known (fun x n _ value => by cases value) path
    (early.and_mem (wellTyped.elementsOf before))
  cases arrived.symm.trans arrived'
  exact sound.along (late.and_mem typed) inv describe

/-- The constants at the end of a block allow the values after every execution that comes there. -/
theorem exists_exit_describes (pass : p.pass = .constants) (start : p.start = .ofBody p.body)
    (wellTyped : p.body.WellTyped) (run : p.solve steps = .ok solution) {before : List Block} {b : Block}
    (path : p.body.Path before b) {store : Store}
    (executes : p.body.Executes (p.body.elementsOf (before ++ [b])) .empty store) :
    ∃ t, solution.exits[b]? = some t ∧ t.lattice.Describe p.body.ty? store := by
  have acts := pass ▸ Pass.constants_acts p.body.ty?
  obtain ⟨s, t, arrived, found, known, _, same⟩ := solve_settled acts
    (by rw [start]; exact Knowledge.ty?_ofBody p.body) run path.reaches
  rw [Body.elementsOf_snoc] at executes
  have describe := describe_transferAll_input pass start wellTyped run path arrived (List.append_nil _).symm executes
  rw [acts.lattice_transferAll known, ← same] at describe
  exact ⟨t, found, describe⟩

/-- Constant propagation is sound: an integer variable may have no other value than the constants allow, neither at the
end of a block, nor at a point an observer is shown. -/
theorem constants_sound (pass : p.pass = .constants) (start : p.start = .ofBody p.body)
    (wellTyped : p.body.WellTyped) (run : p.solve steps = .ok solution) :
    (∀ before b store, p.body.Path before b → p.body.Executes (p.body.elementsOf (before ++ [b])) .empty store →
      ∃ t, solution.exits[b]? = some t ∧ t.lattice.Describe p.body.ty? store) ∧
    ∀ (observer : Observer Constants) (i : Nat) (view : View Constants),
      (p.observe steps observer).1[i]? = some view →
      ∃ b n, p.points[i]? = some (b, n) ∧ (p.body.elements b)[n]? = some view.element ∧
        ∀ before store, p.body.Path before b →
          p.body.Executes (p.body.elementsOf before ++ (p.body.elements b).take (n + 1)) .empty store →
          view.state.lattice.Describe p.body.ty? store := by
  constructor
  · exact fun before b store path executes => exists_exit_describes pass start wellTyped run path executes
  · intro observer i view shown
    obtain ⟨⟨b, n⟩, here, reach, s, arrived, element, state⟩ := viewAt_of_shown run shown
    refine ⟨b, n, here, element, fun before store path executes => ?_⟩
    rw [state]
    exact describe_transferAll_input pass start wellTyped run path arrived (List.take_append_drop _ _).symm executes

/-- The second time round the loop the counter is two, and the constants allow for it. -/
theorem constants_sound_countingLoop : ∃ solution t store,
    Problem.solve { body := .countingLoop, pass := .constants } 20 = .ok solution ∧
      solution.exits[(.slot 2 : Block)]? = some t ∧ store (.slot 0) = some (.int 2) ∧
      t.lattice.Describe Body.countingLoop.ty? store := by
  obtain ⟨solution, run, _⟩ := exists_solution { body := .countingLoop, pass := .constants } 20 (fun _ => true)
    (by decide +kernel)
  obtain ⟨store, two, executes⟩ := Body.countingLoop_executes
  obtain ⟨t, found, describe⟩ := (constants_sound rfl rfl Body.countingLoop_wellTyped run).1 _ _ store
    Body.countingLoop_path executes
  exact ⟨solution, t, store, run, found, two, describe⟩

end Problem

end ForwardFlow
