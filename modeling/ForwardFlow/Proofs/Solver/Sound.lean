import ForwardFlow.Proofs.Solver.Settled

namespace ForwardFlow

variable {L σ : Type} [JoinLattice L] {step : Element → σ → σ → Prop} {I : State L → Prop} {R : σ → State L → Prop}

/-- `R` tells which configurations of a running program a state describes. A join describes what either side does, and
after an element the state describes what the configuration has become. An invariant of the states of a run may help. -/
structure Pass.Describes (pass : Pass L) (step : Element → σ → σ → Prop) (I : State L → Prop)
    (R : σ → State L → Prop) : Prop where
  inv_join : ∀ s t, I s → I t → I (pass.join s t)
  inv_transfer : ∀ s e, I s → I (pass.transfer s e)
  left : ∀ c s t, I s → I t → R c s → R c (pass.join s t)
  right : ∀ c s t, I s → I t → R c t → R c (pass.join s t)
  transfer : ∀ c c' s e, I s → step e c c' → R c s → R c' (pass.transfer s e)

theorem Pass.Describes.along {pass : Pass L} (sound : pass.Describes step I R) {elements : List Element} {c c' : σ}
    (along : Along step elements c c') {s : State L} (inv : I s) (holds : R c s) :
    R c' (pass.transferAll s elements) := by
  induction along generalizing s with
  | nil => exact holds
  | @cons e elements c c' c'' first _ ih =>
    exact ih (sound.inv_transfer s e inv) (sound.transfer c c' s e inv first holds)

namespace Problem

variable {p : Problem L}

theorem Stage.inv (ok : p.body.Consistent) (sound : p.pass.Describes step I R) (initial : I p.initial)
    {progress : Progress L} (stage : p.Stage progress) :
    ∀ (b : Block) (t : State L), progress.exits[b]? = some t → I t := by
  refine stage.exits_induct (P := fun _ t => I t) ok fun exits old b s _ arrived => ?_
  refine Pass.transferAll_induct sound.inv_transfer (input_induct sound.inv_join arrived fun t meets => ?_) _
  obtain ⟨_, rfl⟩ | ⟨q, _, atQ⟩ := meets
  · exact initial
  · exact (old q t atQ).2

section Path

variable {E : State L → State L → Prop} {exits : Exits L} {before : List Block} {b : Block} {c c' : σ}

/-- Along a path through settled blocks, the state at the start of the next block describes what the program has come
to. -/
theorem input_describes (ok : p.body.Consistent) (sound : p.pass.Describes step I R)
    (closed : ∀ c s t, E s t → R c s → R c t) (initial : I p.initial) (start : R c p.initial)
    (inv : ∀ (q : Block) (u : State L), exits[q]? = some u → I u) (path : p.body.Path before b)
    (settled : ∀ a ∈ before, p.Settled E exits a) (along : Along step (p.body.elementsOf before) c c') :
    ∃ s, p.input exits b = some s ∧ I s ∧ R c' s := by
  have meets_inv {b : Block} (t : State L) (meets : p.Meets exits b t) : I t := by
    obtain ⟨_, rfl⟩ | ⟨q, _, atQ⟩ := meets
    · exact initial
    · exact inv q t atQ
  have here {b : Block} {c : σ} {t : State L} (meets : p.Meets exits b t) (holds : R c t) :
      ∃ s, p.input exits b = some s ∧ I s ∧ R c s := by
    obtain ⟨s, arrived, holds⟩ := input_upper (I := I) (P := R c) sound.inv_join (sound.left c) (sound.right c)
      meets_inv meets holds
    exact ⟨s, arrived, input_induct sound.inv_join arrived meets_inv, holds⟩
  induction path generalizing c' with
  | entry =>
    cases along
    exact here (Or.inl ⟨rfl, rfl⟩) start
  | @edge before a b path succ ih =>
    rw [Body.elementsOf_snoc, along_append] at along
    obtain ⟨mid, early, late⟩ := along
    obtain ⟨s, arrived, good, holds⟩ := ih (fun q mem => settled q (List.mem_append_left _ mem)) early
    obtain ⟨s', t, arrived', atA, alike⟩ := settled a (List.mem_append_right _ List.mem_cons_self)
    cases arrived.symm.trans arrived'
    have after : R c' t := closed c' _ t alike (sound.along late good holds)
    exact here (Or.inr ⟨a, ok.mem_preds_iff.mpr succ, atA⟩) after

theorem exit_describes (ok : p.body.Consistent) (sound : p.pass.Describes step I R)
    (closed : ∀ c s t, E s t → R c s → R c t) (initial : I p.initial) (start : R c p.initial)
    (inv : ∀ (q : Block) (u : State L), exits[q]? = some u → I u) (path : p.body.Path before b)
    (settled : ∀ a ∈ before ++ [b], p.Settled E exits a)
    (along : Along step (p.body.elementsOf (before ++ [b])) c c') : ∃ t, exits[b]? = some t ∧ R c' t := by
  rw [Body.elementsOf_snoc, along_append] at along
  obtain ⟨mid, early, late⟩ := along
  obtain ⟨s, arrived, good, holds⟩ := input_describes ok sound closed initial start inv path
    (fun q mem => settled q (List.mem_append_left _ mem)) early
  obtain ⟨s', t, arrived', atB, alike⟩ := settled b (List.mem_append_right _ List.mem_cons_self)
  cases arrived.symm.trans arrived'
  exact ⟨t, atB, closed c' _ t alike (sound.along late good holds)⟩

/-- In a run in which the lattice value is all that matters, every reachable block is settled, so the states describe
what happens along all paths. -/
theorem solve_describes [LawfulEquals L] {K : Knowledge → Prop} {act : Element → L → L} (acts : p.pass.ActsBy K act)
    (known : K p.start) {steps : Nat} {solution : Solution L} (run : p.solve steps = .ok solution)
    (sound : p.pass.Describes step I R)
    (closed : ∀ c s t, K s.known → K t.known → s.lattice = t.lattice → R c s → R c t) (initial : I p.initial)
    (start : R c p.initial) (path : p.body.Path before b) (along : Along step (p.body.elementsOf before) c c') :
    ∃ s, p.input solution.exits b = some s ∧ I s ∧ R c' s := by
  have settled (a : Block) (reach : p.body.Reaches a) :
      p.Settled (fun s t => K s.known ∧ K t.known ∧ s.lattice = t.lattice) solution.exits a := by
    obtain ⟨s, t, arrived, found, here, there, same⟩ := solve_settled acts known run reach
    refine ⟨s, t, arrived, found, acts.known_transferAll here _, there, ?_⟩
    rw [exitFrom, acts.lattice_transferAll here, same]
  obtain ⟨fine, last, stage, _, rfl⟩ := solve_eq_ok run
  have ok := consistent_of_error? fine
  have inv := stage.inv ok sound initial
  refine input_describes ok sound ?_ initial start inv path (fun a mem => settled a (path.reaches_of_mem mem)) along
  intro c s t alike holds
  obtain ⟨here, there, same⟩ := alike
  exact closed c s t here there same holds

end Path

end Problem

end ForwardFlow
