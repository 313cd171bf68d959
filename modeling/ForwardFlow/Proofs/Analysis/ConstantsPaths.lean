import ForwardFlow.Proofs.Analysis.Assigned
import ForwardFlow.Proofs.Analysis.ConstantsSound
import ForwardFlow.Proofs.Solver.Origin

namespace ForwardFlow

namespace Constants

/-- There is an entry for a variable: bottom, a value or top. -/
def Has (constants : Constants) (x : Var) : Prop := ∃ a, constants.get? x = some a

variable {constants other : Constants} {types : Var → Option Ty} {x : Var} {e : Element} {elements : List Element}

theorem not_has_empty : ¬Has ∅ x := by
  rintro ⟨a, found⟩
  cases (Std.ExtTreeMap.getElem?_empty (α := Var) (β := Flat Int64)).symm.trans found

theorem has_join : Has (constants.join other) x ↔ constants.Has x ∨ other.Has x := by
  constructor
  · rintro ⟨a, found⟩
    exact Pointwise.exists_get?_of_join found
  · rintro (⟨a, found⟩ | ⟨a, found⟩)
    · obtain ⟨b, found', _⟩ := Pointwise.left_le_join constants other x a found
      exact ⟨b, found'⟩
    · obtain ⟨b, found', _⟩ := Pointwise.right_le_join constants other x a found
      exact ⟨b, found'⟩

theorem has_act (int : types x = some .int) :
    (constants.act types e).Has x ↔ e.target? = some x ∨ constants.Has x ∧ .scopeEnd x ≠ e := by
  obtain ⟨target, source, writes⟩ | ⟨v, rfl⟩ | ⟨idle, inScope⟩ := e.writes_or_ends_or_idle
  · have target? : e.target? = some target := congrArg (Option.map Prod.fst) writes
    have inScope : .scopeEnd x ≠ e := by
      rintro rfl
      cases writes
    rw [Has, act_of_write writes, target?, Option.some.injEq]
    by_cases here : target = x
    · subst here
      rw [if_pos int, Pointwise.get?_insert, if_pos rfl]
      exact ⟨fun _ => .inl rfl, fun _ => ⟨_, rfl⟩⟩
    · have same : (if types target = some .int then constants.insert target (constants.eval source)
          else constants).get? x = constants.get? x := by
        split
        · rw [Pointwise.get?_insert, if_neg here]
        · rfl
      simp [same, here, inScope, Has]
  · rw [Has, act, Pointwise.get?_erase]
    by_cases here : v = x
    · simp [here, Element.target?, Element.write?]
    · simp [here, Ne.symm here, Element.target?, Element.write?, Has]
  · have target? : e.target? = none := congrArg (Option.map Prod.fst) idle
    rw [act_of_idle idle inScope, target?]
    simp [(inScope x).symm]

end Constants

/-- An entry comes from a path along which the variable is assigned. -/
theorem constants_originates (types : Var → Option Ty) (models : List Model) {x : Var} (int : types x = some .int) :
    Pass.Originates { analysis := Analysis.constants, models } (Constants.act types) (·.Has x) (Assigned x) where
  initial has := absurd has Constants.not_has_empty
  join _ _ := Constants.has_join.mp
  act e m before early has := by
    rw [Constants.has_act int] at has
    rw [assigned_snoc]
    tauto

/-- A variable that is assigned along the elements passed has an entry. -/
theorem constants_has_describes (types : Var → Option Ty) {models : List Model}
    (keeps : ∀ model ∈ models, model.KeepsTypes) {x : Var} (int : types x = some .int) :
    Pass.Describes { analysis := Analysis.constants, models } (fun e passed passed' => passed' = passed ++ [e])
      (fun s => ∀ v, s.known.ty? v = types v) (fun passed s => Assigned x passed → s.lattice.Has x) where
  inv_join s t known known' := (Pass.constants_acts_with types keeps).join s.known t.known known known'
  inv_transfer s e known := (Pass.constants_acts_with types keeps).known s e known
  left _ _ _ _ _ holds assigned := Constants.has_join.mpr (.inl (holds assigned))
  right _ _ _ _ _ holds assigned := Constants.has_join.mpr (.inr (holds assigned))
  transfer passed _ s e known := by
    rintro rfl holds assigned
    rw [(Pass.constants_acts_with types keeps).lattice s e known, Constants.has_act int]
    exact (assigned_snoc.mp assigned).imp_right fun ⟨early, keeps⟩ => ⟨holds early, keeps⟩

/-- Two ways that part and meet again. On one of them the scope of the variable ends. -/
def Body.halfScoped : Body where
  name := "scopes"
  vars := .ofList [⟨"x", .int⟩]
  entry := .slot 0
  blocks := .ofList [
    { elements := [.init (.slot 0) (.use (.lit (.int 1)))], succs := [.slot 1, .slot 2] },
    { elements := [.scopeEnd (.slot 0)], preds := [.slot 0], succs := [.slot 3] },
    { preds := [.slot 0], succs := [.slot 3] },
    { preds := [.slot 1, .slot 2] }]

namespace Problem

variable {p : Problem Constants} {models : List Model} {steps : Nat} {solution : Solution Constants} {b : Block}

/-- Constant propagation has an entry for an integer variable at the end of a block exactly if the variable is assigned
along some path. -/
theorem constants_on_some_path (pass : p.pass = { analysis := Analysis.constants, models })
    (keeps : ∀ model ∈ models, model.KeepsTypes) (run : p.solve steps = .ok solution) (reach : p.body.Reaches b) :
    ∃ t, solution.exits[b]? = some t ∧ ∀ x, p.start.ty? x = some .int →
      ((∃ a, t.lattice.get? x = some a) ↔
        ∃ before, p.body.Path before b ∧ Assigned x (p.body.elementsOf (before ++ [b]))) := by
  have acts := pass ▸ Pass.constants_acts_with p.start.ty? keeps
  obtain ⟨s, t, arrived, found, _, _, same⟩ := solve_settled acts (fun _ => rfl) run reach
  refine ⟨t, found, fun x int => ⟨fun has => ?_, ?_⟩⟩
  · obtain ⟨fine, last, stage, _, rfl⟩ := solve_eq_ok run
    have origin := pass ▸ constants_originates p.start.ty? models int
    obtain ⟨before, path, comes⟩ :=
      origin.exists_path_of_exit acts (fun _ => rfl) (consistent_of_error? fine) stage b t found
    exact ⟨before, path, comes has⟩
  · rintro ⟨before, path, assigned⟩
    obtain ⟨s', arrived', _, holds⟩ := solve_describes acts (fun _ => rfl) run
      (pass ▸ constants_has_describes p.start.ty? keeps int) (fun _ _ _ _ _ same holds => same ▸ holds)
      (fun _ => rfl) (fun assigned => absurd assigned not_assigned_nil) path (along_elements [] _)
    cases arrived.symm.trans arrived'
    rw [Body.elementsOf_snoc, assigned_append] at assigned
    have has := (actAll_iff_assigned (P := (Constants.Has · x)) (fun _ _ => Constants.has_act int) s.lattice).mpr
      (assigned.imp_right fun ⟨early, keeps⟩ => ⟨holds early, keeps⟩)
    rwa [← same] at has

/-- The entry that is lost on one way comes back from the other. -/
theorem constants_on_some_path_halfScoped : ∃ solution t u,
    Problem.solve { body := .halfScoped, pass := .constants } 20 = .ok solution ∧
      solution.exits[(.slot 1 : Block)]? = some t ∧ t.lattice.get? (.slot 0) = none ∧
      (∀ before, Body.halfScoped.Path before (.slot 1) →
        ¬Assigned (.slot 0) (Body.halfScoped.elementsOf (before ++ [.slot 1]))) ∧
      solution.exits[(.slot 3 : Block)]? = some u ∧ u.lattice.get? (.slot 0) = some (.value 1) ∧
      ∃ before, Body.halfScoped.Path before (.slot 3) ∧
        Assigned (.slot 0) (Body.halfScoped.elementsOf (before ++ [.slot 3])) := by
  obtain ⟨solution, run, found⟩ := exists_solution { body := .halfScoped, pass := .constants } 20
    (fun solution => (solution.exits[(.slot 1 : Block)]?.any fun t : State Constants =>
        decide (t.lattice.get? (.slot 0) = none)) &&
      solution.exits[(.slot 3 : Block)]?.any fun t : State Constants =>
        decide (t.lattice.get? (.slot 0) = some (.value 1))) (by decide +kernel)
  obtain ⟨one, other⟩ := Bool.and_eq_true_iff.mp found
  obtain ⟨t, atT, test⟩ := (Option.any_eq_true ..).mp one
  obtain ⟨u, atU, test'⟩ := (Option.any_eq_true ..).mp other
  have lost := of_decide_eq_true test
  have back := of_decide_eq_true test'
  have reach : Body.halfScoped.Reaches (.slot 1) := (Body.reaches_entry _).succ (by decide)
  have keeps : ∀ model ∈ ([] : List Model), model.KeepsTypes := fun _ mem => absurd mem List.not_mem_nil
  obtain ⟨t', atT', exact⟩ := constants_on_some_path rfl keeps run reach
  obtain ⟨u', atU', exact'⟩ := constants_on_some_path rfl keeps run (reach.succ (b := .slot 3) (by decide))
  cases atT.symm.trans atT'
  cases atU.symm.trans atU'
  refine ⟨solution, t, u, run, atT, lost, fun before path assigned => ?_, atU, back, ?_⟩
  · obtain ⟨a, found⟩ := (exact (.slot 0) (by decide +kernel)).mpr ⟨before, path, assigned⟩
    cases lost.symm.trans found
  · exact (exact' (.slot 0) (by decide +kernel)).mp ⟨_, back⟩

end Problem

end ForwardFlow
