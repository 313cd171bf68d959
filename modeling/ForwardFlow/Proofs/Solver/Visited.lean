import ForwardFlow.Proofs.Solver.Stage

namespace ForwardFlow.Problem

variable {L : Type} [JoinLattice L] {p : Problem L} {progress : Progress L} {b : Block}

omit [JoinLattice L] in
theorem Meets.insert {exits : Exits L} {t : State L} (meets : p.Meets exits b t) (a : Block) (s : State L) :
    ∃ u, p.Meets (exits.insert a s) b u := by
  obtain entry | ⟨q, mem, atQ⟩ := meets
  · exact ⟨t, Or.inl entry⟩
  · by_cases same : a = q
    · exact ⟨s, Or.inr ⟨q, mem, by rw [Exits.getElem?_insert, if_pos same]⟩⟩
    · exact ⟨t, Or.inr ⟨q, mem, by rw [Exits.getElem?_insert, if_neg same, atQ]⟩⟩

/-- A run keeps to the blocks some path leads to. -/
theorem Stage.reaches (ok : p.body.Consistent) (stage : p.Stage progress) :
    (∀ b ∈ progress.pending, p.body.Reaches b) ∧ ∀ b s, progress.exits[b]? = some s → p.body.Reaches b := by
  induction stage with
  | start => exact ⟨fun b mem => (mem_order ok).mp mem, by simp⟩
  | @next progress a rest _ pending ih =>
    obtain ⟨waiting, visited⟩ := ih
    have here := waiting a (pending ▸ List.mem_cons_self)
    have later : ∀ b ∈ rest, p.body.Reaches b := fun b mem => waiting b (pending ▸ List.mem_cons_of_mem a mem)
    obtain ⟨_, same⟩ | ⟨s, _, exits, mem⟩ := p.visit_cases p.order { progress with pending := rest } a
    · rw [same]
      exact ⟨later, visited⟩
    · refine ⟨fun b inside => ?_, fun b t found => ?_⟩
      · obtain old | ⟨_, edge⟩ := (mem b).mp inside
        · exact later b old
        · exact here.succ edge
      · rw [exits, Exits.getElem?_insert] at found
        split at found
        · rename_i eq
          exact eq ▸ here
        · exact visited b t found

/-- What every visit establishes at the end of its block, from what holds at the ends of the blocks visited before,
holds at the end of every visited block. -/
theorem Stage.exits_induct {P : Block → State L → Prop} (ok : p.body.Consistent)
    (visit : ∀ exits : Exits L, (∀ c t, exits[c]? = some t → p.body.Reaches c ∧ P c t) →
      ∀ b s, p.body.Reaches b → p.input exits b = some s → P b (p.exitFrom b s))
    (stage : p.Stage progress) : ∀ b t, progress.exits[b]? = some t → P b t := by
  induction stage with
  | start => simp
  | @next progress a rest stage pending ih =>
    obtain ⟨waiting, visited⟩ := stage.reaches ok
    obtain ⟨_, same⟩ | ⟨s, arrived, exits, _⟩ := p.visit_cases p.order { progress with pending := rest } a
    · rw [same]
      exact ih
    · intro b t found
      rw [exits, Exits.getElem?_insert] at found
      split at found
      · rename_i eq
        cases found
        subst eq
        exact visit progress.exits (fun c t found => ⟨visited c t found, ih c t found⟩) a s
          (waiting a (pending ▸ List.mem_cons_self)) arrived
      · exact ih b t found

theorem Stage.meets_of_visited (stage : p.Stage progress) {t : State L} (found : progress.exits[b]? = some t) :
    ∃ u, p.Meets progress.exits b u := by
  induction stage generalizing t with
  | start => simp at found
  | @next progress a rest _ _ ih =>
    obtain ⟨_, same⟩ | ⟨s, arrived, exits, _⟩ := p.visit_cases p.order { progress with pending := rest } a
    · rw [same] at found ⊢
      exact ih found
    · rw [exits, Exits.getElem?_insert] at found
      rw [exits]
      have before : ∃ u, p.Meets progress.exits b u := by
        split at found
        · rename_i eq
          subst eq
          exact meets_of_input arrived
        · exact ih found
      obtain ⟨u, meets⟩ := before
      exact meets.insert a _

/-- A reachable block that is neither pending nor visited has nothing to start from. -/
theorem Stage.pending_or_visited (ok : p.body.Consistent) (stage : p.Stage progress) (reach : p.body.Reaches b)
    {t : State L} (meets : p.Meets progress.exits b t) :
    b ∈ progress.pending ∨ ∃ s, progress.exits[b]? = some s := by
  induction stage generalizing t with
  | start => exact Or.inl ((mem_order ok).mpr reach)
  | @next progress a rest stage pending ih =>
    obtain ⟨nothing, same⟩ | ⟨s, arrived, exits, mem⟩ := p.visit_cases p.order { progress with pending := rest } a
    · rw [same] at meets ⊢
      obtain waiting | visited := ih meets
      · rcases List.mem_cons.mp (pending ▸ waiting) with rfl | later
        · obtain ⟨u, some⟩ := exists_input_of_meets meets
          simp only [some, reduceCtorEq] at nothing
        · exact Or.inl later
      · exact Or.inr visited
    · rw [exits] at meets ⊢
      simp only [Exits.getElem?_insert, mem]
      by_cases here : a = b
      · exact Or.inr ⟨_, if_pos here⟩
      rw [if_neg here]
      have stays (early : b ∈ progress.pending ∨ ∃ s, progress.exits[b]? = some s) :
          (b ∈ rest ∨ isNew progress.exits a (p.exitFrom a s) = true ∧ b ∈ p.body.succs a) ∨
            ∃ s, progress.exits[b]? = some s := by
        refine early.imp_left fun waiting => Or.inl ?_
        exact (List.mem_cons.mp (pending ▸ waiting)).resolve_left (Ne.symm here)
      obtain entry | ⟨q, edge, atQ⟩ := meets
      · exact stays (ih (Or.inl entry))
      · rw [Exits.getElem?_insert] at atQ
        by_cases fromA : a = q
        · -- A new state at the end of `a` makes `b` pending. With an old one, something met at `b` before.
          subst fromA
          by_cases new : isNew progress.exits a (p.exitFrom a s) = true
          · exact Or.inl (Or.inr ⟨new, ok.mem_preds_iff.mp edge⟩)
          · obtain ⟨old, atA, _⟩ := isNew_eq_false.mp (Bool.eq_false_iff.mpr new)
            exact stays (ih (Or.inr ⟨a, edge, atA⟩))
        · rw [if_neg fromA] at atQ
          exact stays (ih (Or.inr ⟨q, edge, atQ⟩))

theorem Stage.visited_of_idle (ok : p.body.Consistent) (stage : p.Stage progress) (idle : progress.pending = [])
    (reach : p.body.Reaches b) : ∃ s, progress.exits[b]? = some s := by
  have visited (c : Block) (reach : p.body.Reaches c) (t : State L) (meets : p.Meets progress.exits c t) :
      ∃ s, progress.exits[c]? = some s :=
    (stage.pending_or_visited ok reach meets).resolve_left (by simp [idle])
  refine reach.closed (P := fun c => ∃ s, progress.exits[c]? = some s) ?_ fun a c reach before edge => ?_
  · exact visited _ p.body.reaches_entry p.initial (Or.inl ⟨rfl, rfl⟩)
  · obtain ⟨s, atA⟩ := before
    exact visited c (reach.succ edge) s (Or.inr ⟨a, ok.mem_preds_iff.mpr edge, atA⟩)

variable {steps : Nat} {solution : Solution L}

theorem visited_of_reaches (run : p.solve steps = .ok solution) {b : Block} (reach : p.body.Reaches b) :
    ∃ t, solution.exits[b]? = some t := by
  obtain ⟨fine, last, stage, idle, rfl⟩ := solve_eq_ok run
  exact stage.visited_of_idle (consistent_of_error? fine) idle reach

theorem reaches_of_visited (run : p.solve steps = .ok solution) {b : Block} {t : State L}
    (found : solution.exits[b]? = some t) : p.body.Reaches b := by
  obtain ⟨fine, last, stage, _, rfl⟩ := solve_eq_ok run
  exact (stage.reaches (consistent_of_error? fine)).2 b t found

/-- At the end of a run, a state arrives at every reachable block. -/
theorem exists_input_of_reaches (run : p.solve steps = .ok solution) {b : Block} (reach : p.body.Reaches b) :
    ∃ s t, p.input solution.exits b = some s ∧ solution.exits[b]? = some t := by
  obtain ⟨t, found⟩ := visited_of_reaches run reach
  obtain ⟨_, last, stage, _, rfl⟩ := solve_eq_ok run
  obtain ⟨u, meets⟩ := stage.meets_of_visited found
  obtain ⟨s, arrived⟩ := exists_input_of_meets meets
  exact ⟨s, t, arrived, found⟩

theorem blockViews_of_input {exits : Exits L} {s t : State L} (arrived : p.input exits b = some s)
    (found : exits[b]? = some t) : p.blockViews exits b = p.viewsFrom s (p.body.elements b) := by
  rw [blockViews, found, arrived]

end ForwardFlow.Problem
