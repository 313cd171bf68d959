import ForwardFlow.Proofs.Analysis.Transfer
import ForwardFlow.Proofs.Lattice.Lawful
import ForwardFlow.Proofs.Solver.Visited

namespace ForwardFlow.Problem

variable {L : Type} [JoinLattice L]

/-- Up to a relation, the state at the end of a block is what one more visit would leave there. -/
def Settled (p : Problem L) (E : State L → State L → Prop) (exits : Exits L) (b : Block) : Prop :=
  ∃ s t, p.input exits b = some s ∧ exits[b]? = some t ∧ E (p.exitFrom b s) t

theorem settled_eq_iff {p : Problem L} {exits : Exits L} {b : Block} :
    p.Settled Eq exits b ↔ exits[b]?.isSome ∧ (p.input exits b).map (p.exitFrom b) = exits[b]? := by
  constructor
  · rintro ⟨s, t, arrived, found, same⟩
    rw [arrived, found, Option.map_some, same]
    exact ⟨rfl, rfl⟩
  · rintro ⟨visited, same⟩
    obtain ⟨t, found⟩ := Option.isSome_iff_exists.mp visited
    obtain ⟨s, arrived, exit⟩ := Option.map_eq_some_iff.mp (same.trans found)
    exact ⟨s, t, arrived, found, exit⟩

instance [DecidableEq L] {p : Problem L} {exits : Exits L} {b : Block} : Decidable (p.Settled Eq exits b) :=
  decidable_of_iff _ settled_eq_iff.symm

/-- Some visit of the run changes the state at the end of the block, but not its lattice value, so that the successors
are not told. -/
def Drifts (p : Problem L) (E : State L → State L → Prop) (a : Block) : Prop :=
  ∃ progress rest old s, p.Stage progress ∧ progress.pending = a :: rest ∧ progress.exits[a]? = some old ∧
    p.input progress.exits a = some s ∧ JoinLattice.equals old.lattice (p.exitFrom a s).lattice = true ∧
    ¬E old (p.exitFrom a s)

variable {p : Problem L} {E : State L → State L → Prop} {progress : Progress L} {b : Block}

theorem input_refl (resp : p.pass.Respects E) (initial : E p.initial p.initial) {exits : Exits L} {s : State L}
    (arrived : p.input exits b = some s) (refl : ∀ (q : Block) (u : State L), exits[q]? = some u → E u u) : E s s := by
  refine input_induct (P := fun s => E s s) (fun s t one two => resp.join s s t t one two) arrived fun t meets => ?_
  obtain ⟨_, rfl⟩ | ⟨q, _, atQ⟩ := meets
  · exact initial
  · exact refl q t atQ

theorem Stage.exits_refl (ok : p.body.Consistent) (resp : p.pass.Respects E) (initial : E p.initial p.initial)
    (stage : p.Stage progress) : ∀ (b : Block) (t : State L), progress.exits[b]? = some t → E t t := by
  refine stage.exits_induct (P := fun _ t => E t t) ok fun exits old b s _ arrived => ?_
  exact resp.transferAll (input_refl resp initial arrived fun q u atQ => (old q u atQ).2) _

omit [JoinLattice L] in
theorem exists_of_rel_some {s : State L} {o : Option (State L)} (rel : Option.Rel E (some s) o) :
    ∃ t, o = some t ∧ E s t := by
  cases rel with
  | some alike => exact ⟨_, rfl, alike⟩

/-- A visit to `a` changes nothing that matters to a block that is not pending afterwards, or else it changes the state
at the end of a predecessor without the lattice value: with a new lattice value the block would be pending. -/
theorem Stage.agree_or_drifts (ok : p.body.Consistent) (stage : p.Stage progress) {a : Block} {rest : List Block}
    (pending : progress.pending = a :: rest) (refl : ∀ (q : Block) (u : State L), progress.exits[q]? = some u → E u u)
    {s : State L} (arrived : p.input progress.exits a = some s)
    (idle : ¬(isNew progress.exits a (p.exitFrom a s) = true ∧ b ∈ p.body.succs a)) :
    (∀ q ∈ p.body.preds b, Option.Rel E progress.exits[q]? (progress.exits.insert a (p.exitFrom a s))[q]?) ∨
      a ∈ p.body.preds b ∧ p.Drifts E a := by
  have unchanged (q : Block) : Option.Rel E progress.exits[q]? progress.exits[q]? := by
    cases atQ : progress.exits[q]? with
    | none => exact .none
    | some u => exact .some (refl q u atQ)
  by_cases edge : a ∈ p.body.preds b
  · have known : isNew progress.exits a (p.exitFrom a s) = false :=
      Bool.eq_false_iff.mpr fun new => idle ⟨new, ok.mem_preds_iff.mp edge⟩
    obtain ⟨old, atA, equal⟩ := isNew_eq_false.mp known
    by_cases alike : E old (p.exitFrom a s)
    · refine Or.inl fun q _ => ?_
      rw [Exits.getElem?_insert]
      split
      · rename_i here
        rw [← here, atA]
        exact .some alike
      · exact unchanged q
    · exact Or.inr ⟨edge, progress, rest, old, s, stage, pending, atA, arrived, equal, alike⟩
  · refine Or.inl fun q inside => ?_
    rw [Exits.getElem?_insert, if_neg (ne_of_mem_of_not_mem inside edge).symm]
    exact unchanged q

/-- A visited block that is not pending is settled, unless some visit has changed the state at the end of a predecessor
behind the back of the lattice. -/
theorem Stage.settled_or_drifts (ok : p.body.Consistent) (resp : p.pass.Respects E) (initial : E p.initial p.initial)
    (stage : p.Stage progress) {t : State L} (found : progress.exits[b]? = some t) (idle : b ∉ progress.pending) :
    p.Settled E progress.exits b ∨ ∃ a ∈ p.body.preds b, p.Drifts E a := by
  induction stage generalizing t with
  | start => simp at found
  | @next progress a rest stage pending ih =>
    have waits (waiting : b ∈ progress.pending) : b = a ∨ b ∈ rest := List.mem_cons.mp (pending ▸ waiting)
    obtain ⟨nothing, same⟩ | ⟨s, arrived, exits, mem⟩ := p.visit_cases p.order { progress with pending := rest } a
    · rw [same] at found idle ⊢
      refine ih found fun waiting => ?_
      obtain rfl | later := waits waiting
      · obtain ⟨u, meets⟩ := stage.meets_of_visited found
        obtain ⟨s, arrived⟩ := exists_input_of_meets meets
        simp only [arrived, reduceCtorEq] at nothing
      · exact idle later
    · rw [mem, not_or] at idle
      rw [exits] at found ⊢
      -- `b` does not become pending, so the new state of `a` had better make no difference to it.
      obtain agree | drifts := stage.agree_or_drifts ok pending (stage.exits_refl ok resp initial) arrived idle.2
      swap
      · exact Or.inr ⟨a, drifts⟩
      have inputs := input_rel (p := p) initial resp.join agree
      -- Either `b` is `a` and was just visited, with the input it had before, or it was settled before.
      rw [Exits.getElem?_insert] at found
      split at found
      · rename_i here
        subst here
        rw [show p.input progress.exits a = some s from arrived] at inputs
        obtain ⟨s', after, alike⟩ := exists_of_rel_some inputs
        refine Or.inl ⟨s', t, after, ?_, ?_⟩
        · rw [Exits.getElem?_insert, if_pos rfl, ← found]
        · cases found
          exact resp.transferAll (resp.symm _ _ alike) _
      · rename_i here
        obtain ⟨s, u, before, atB, settled⟩ | drifts := ih found fun waiting => by
          obtain rfl | later := waits waiting
          · exact here rfl
          · exact idle.1 later
        · rw [before] at inputs
          obtain ⟨s', after, alike⟩ := exists_of_rel_some inputs
          refine Or.inl ⟨s', u, after, ?_, ?_⟩
          · rw [Exits.getElem?_insert, if_neg here, atB]
          · exact resp.trans _ _ _ (resp.transferAll (resp.symm _ _ alike) _) settled
        · exact Or.inr drifts

/-- Where the lattice value is all that matters, nothing drifts, so at the end of a run the equations hold at every
reachable block. -/
theorem solve_settled [LawfulEquals L] {K : Knowledge → Prop} {act : Element → L → L} (acts : p.pass.ActsBy K act)
    (start : K p.start) {steps : Nat} {solution : Solution L} (run : p.solve steps = .ok solution)
    (reach : p.body.Reaches b) :
    ∃ s t, p.input solution.exits b = some s ∧ solution.exits[b]? = some t ∧ K s.known ∧ K t.known ∧
      t.lattice = Pass.actAll act (p.body.elements b) s.lattice := by
  obtain ⟨fine, last, stage, idle, rfl⟩ := solve_eq_ok run
  have ok := consistent_of_error? fine
  have initial : K p.initial.known ∧ K p.initial.known ∧ p.initial.lattice = p.initial.lattice := ⟨start, start, rfl⟩
  have refl {progress : Progress L} (stage : p.Stage progress) := stage.exits_refl ok acts.respects initial
  obtain ⟨t, found⟩ := stage.visited_of_idle ok idle reach
  obtain ⟨s, u, arrived, atB, _, inv, same⟩ | ⟨a, _, _, _, old, s, earlier, _, atA, arrived, equal, differ⟩ :=
    stage.settled_or_drifts ok acts.respects initial found (by simp [idle])
  · have known := (input_refl acts.respects initial arrived (refl stage)).1
    exact ⟨s, u, arrived, atB, known, inv, by rw [← same, exitFrom, acts.lattice_transferAll known]⟩
  · have known := (input_refl acts.respects initial arrived (refl earlier)).1
    have inv := (refl earlier a old atA).1
    exact absurd ⟨inv, acts.known_transferAll known _, LawfulEquals.equals_iff.mp equal⟩ differ

end ForwardFlow.Problem
