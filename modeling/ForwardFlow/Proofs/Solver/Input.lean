import ForwardFlow.Solver.Direct

namespace ForwardFlow.Problem

variable {L : Type} [JoinLattice L]

/-- A state that meets others at the start of a block: the state at the end of a visited predecessor, or the initial one
if the block is the entry. -/
def Meets (p : Problem L) (exits : Exits L) (b : Block) (t : State L) : Prop :=
  (b = p.body.entry ∧ t = p.initial) ∨ ∃ q ∈ p.body.preds b, exits[q]? = some t

omit [JoinLattice L] in
theorem seed_eq_some {p : Problem L} {b : Block} {t : State L} :
    (if b = p.body.entry then some p.initial else none) = some t ↔ b = p.body.entry ∧ t = p.initial := by
  rw [Option.ite_none_right_eq_some, Option.some.injEq, eq_comm (a := p.initial)]

section Fold

variable {p : Problem L} {exits : Exits L} {joined : Option (State L)} {q : Block} {preds : List Block}

theorem joinExit_of_none (atQ : exits[q]? = none) : p.joinExit exits joined q = joined := by
  simp only [joinExit, atQ]

theorem joinExit_none_of_some {u : State L} (atQ : exits[q]? = some u) : p.joinExit exits none q = some u := by
  simp only [joinExit, atQ]

theorem joinExit_some_of_some {s u : State L} (atQ : exits[q]? = some u) :
    p.joinExit exits (some s) q = some (p.pass.join s u) := by
  simp only [joinExit, atQ]

theorem foldl_joinExit_induct {P : State L → Prop} (join : ∀ s t, P s → P t → P (p.pass.join s t))
    (seed : ∀ t, joined = some t → P t) (exit : ∀ q ∈ preds, ∀ t, exits[q]? = some t → P t) :
    ∀ s, preds.foldl (p.joinExit exits) joined = some s → P s := by
  refine List.foldlRecOn (motive := fun joined => ∀ s, joined = some s → P s) preds _ seed ?_
  intro joined ih q mem s result
  cases atQ : exits[q]? with
  | none =>
    rw [joinExit_of_none atQ] at result
    exact ih s result
  | some u =>
    have here := exit q mem u atQ
    cases joined with
    | none =>
      rw [joinExit_none_of_some atQ] at result
      cases result
      exact here
    | some t =>
      rw [joinExit_some_of_some atQ] at result
      cases result
      exact join t u (ih t rfl) here

/-- What one of the joined states has, and what joining on either side keeps, the join has. -/
theorem foldl_joinExit_upper {I P : State L → Prop} (join : ∀ s t, I s → I t → I (p.pass.join s t))
    (left : ∀ s t, I s → I t → P s → P (p.pass.join s t)) (right : ∀ s t, I s → I t → P t → P (p.pass.join s t))
    (seed : ∀ t, joined = some t → I t) (exit : ∀ q ∈ preds, ∀ t, exits[q]? = some t → I t)
    (one : (∃ t, joined = some t ∧ P t) ∨ ∃ q ∈ preds, ∃ t, exits[q]? = some t ∧ P t) :
    ∃ s, preds.foldl (p.joinExit exits) joined = some s ∧ P s := by
  induction preds generalizing joined with
  | nil =>
    obtain ⟨t, joint, holds⟩ | ⟨q, mem, _⟩ := one
    · exact ⟨t, joint, holds⟩
    · cases mem
  | cons q preds ih =>
    have later : ∀ r ∈ preds, ∀ t, exits[r]? = some t → I t := fun r mem => exit r (List.mem_cons_of_mem q mem)
    rw [List.foldl_cons]
    cases atQ : exits[q]? with
    | none =>
      rw [joinExit_of_none atQ]
      refine ih seed later (one.imp_right ?_)
      rintro ⟨r, mem, t, atR, holds⟩
      rcases List.mem_cons.mp mem with rfl | mem
      · simp [atQ] at atR
      · exact ⟨r, mem, t, atR, holds⟩
    | some u =>
      have here := exit q List.mem_cons_self u atQ
      cases joined with
      | none =>
        rw [joinExit_none_of_some atQ]
        refine ih (fun t same => Option.some.inj same ▸ here) later ?_
        obtain ⟨t, joint, _⟩ | ⟨r, mem, t, atR, holds⟩ := one
        · cases joint
        rcases List.mem_cons.mp mem with rfl | mem
        · exact Or.inl ⟨t, atQ ▸ atR, holds⟩
        · exact Or.inr ⟨r, mem, t, atR, holds⟩
      | some s =>
        have old := seed s rfl
        rw [joinExit_some_of_some atQ]
        refine ih (fun t same => Option.some.inj same ▸ join s u old here) later ?_
        obtain ⟨t, joint, holds⟩ | ⟨r, mem, t, atR, holds⟩ := one
        · cases joint
          exact Or.inl ⟨_, rfl, left s u old here holds⟩
        rcases List.mem_cons.mp mem with rfl | mem
        · cases atQ.symm.trans atR
          exact Or.inl ⟨_, rfl, right s u old here holds⟩
        · exact Or.inr ⟨r, mem, t, atR, holds⟩

theorem joinExit_rel {E : State L → State L → Prop} {others : Exits L} {joined' : Option (State L)}
    (join : ∀ s s' t t', E s s' → E t t' → E (p.pass.join s t) (p.pass.join s' t'))
    (old : Option.Rel E joined joined') (exit : Option.Rel E exits[q]? others[q]?) :
    Option.Rel E (p.joinExit exits joined q) (p.joinExit others joined' q) := by
  unfold joinExit
  generalize exits[q]? = one at exit ⊢
  generalize others[q]? = two at exit ⊢
  cases exit with
  | none => exact old
  | some here =>
    cases old with
    | none => exact .some here
    | some before => exact .some (join _ _ _ _ before here)

end Fold

variable {p : Problem L} {exits : Exits L} {b : Block}

theorem input_induct {P : State L → Prop} (join : ∀ s t, P s → P t → P (p.pass.join s t)) {s : State L}
    (result : p.input exits b = some s) (meets : ∀ t, p.Meets exits b t → P t) : P s :=
  foldl_joinExit_induct join (fun t seed => meets t (Or.inl (seed_eq_some.mp seed)))
    (fun q mem t atQ => meets t (Or.inr ⟨q, mem, atQ⟩)) s result

theorem input_upper {I P : State L → Prop} (join : ∀ s t, I s → I t → I (p.pass.join s t))
    (left : ∀ s t, I s → I t → P s → P (p.pass.join s t)) (right : ∀ s t, I s → I t → P t → P (p.pass.join s t))
    (meets : ∀ t, p.Meets exits b t → I t) {t : State L} (one : p.Meets exits b t) (holds : P t) :
    ∃ s, p.input exits b = some s ∧ P s := by
  refine foldl_joinExit_upper join left right (fun t seed => meets t (Or.inl (seed_eq_some.mp seed)))
    (fun q mem t atQ => meets t (Or.inr ⟨q, mem, atQ⟩)) ?_
  obtain entry | ⟨q, mem, atQ⟩ := one
  · exact Or.inl ⟨t, seed_eq_some.mpr entry, holds⟩
  · exact Or.inr ⟨q, mem, t, atQ, holds⟩

theorem exists_input_of_meets {t : State L} (meets : p.Meets exits b t) : ∃ s, p.input exits b = some s := by
  obtain ⟨s, result, _⟩ := input_upper (I := fun _ => True) (P := fun _ => True) (fun _ _ _ _ => trivial)
    (fun _ _ _ _ _ => trivial) (fun _ _ _ _ _ => trivial) (fun _ _ => trivial) meets trivial
  exact ⟨s, result⟩

theorem meets_of_input {s : State L} (result : p.input exits b = some s) : ∃ t, p.Meets exits b t :=
  input_induct (P := fun _ => ∃ t, p.Meets exits b t) (fun _ _ one _ => one) result fun t meets => ⟨t, meets⟩

/-- Where the predecessors have related states, so has the start of the block, if joins keep the relation. -/
theorem input_rel {E : State L → State L → Prop} {others : Exits L} (initial : E p.initial p.initial)
    (join : ∀ s s' t t', E s s' → E t t' → E (p.pass.join s t) (p.pass.join s' t'))
    (exit : ∀ q ∈ p.body.preds b, Option.Rel E exits[q]? others[q]?) :
    Option.Rel E (p.input exits b) (p.input others b) := by
  refine List.foldl_rel (r := Option.Rel E) ?_ fun q mem joined joined' old => joinExit_rel join old (exit q mem)
  split
  · exact .some initial
  · exact .none

end ForwardFlow.Problem
