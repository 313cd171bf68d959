import ForwardFlow.Proofs.Engine.Refinement
import ForwardFlow.Proofs.Program.BuiltText
import ForwardFlow.Proofs.Solver.Renumbering

namespace ForwardFlow

open Text (isBlank)

variable {σ : Equiv.Perm Block}

/-- A body that was printed and read again has its blocks under the numbers of their places, if the predecessors are
listed in the order they had. -/
theorem Body.Renumbered.renumberedBy {body again : Body} (same : body.Renumbered again) (ok : body.Consistent)
    (inside : ∀ b, body.blocks.contains (σ b) = body.blocks.contains b)
    (places : ∀ b, body.blocks.contains b = true → σ b = body.place b)
    (preds : ∀ b, body.blocks.contains b = true → again.preds (σ b) = (body.preds b).map σ) :
    body.RenumberedBy σ again := by
  refine ⟨?_, fun b => ?_⟩
  · rw [same.entry, places body.entry ok.entry_mem, place, if_pos rfl]
  · cases found : body.blocks.get? b with
    | none =>
      -- The tables are of one size, so there is no block under the other number either.
      have missing : again.blocks.contains (σ b) = false := by
        rw [Table.contains_congr same.size, inside, Table.contains_eq_isSome_get?, found, Option.isSome_none]
      rw [Table.contains_eq_isSome_get?, Option.isSome_eq_false_iff, Option.isNone_iff_eq_none] at missing
      rw [missing]
      exact .none
    | some d =>
      have here := contains_of_get? found
      obtain ⟨listed, _, found'⟩ := same.block b d found
      rw [← places b here] at found'
      have succs : d.succs.map body.place = d.succs.map σ :=
        List.map_congr_left fun c edge => (places c (ok.succ_mem (succs_of_get? found ▸ edge))).symm
      have kept := preds b here
      rw [preds_of_get? found', preds_of_get? found] at kept
      rw [found']
      exact .some ⟨rfl, succs, kept⟩

/-- The tables hold the same for each block under its other number, and as many visits were made. -/
structure EngineResult.Renumbered {L : Type} (σ : Equiv.Perm Block) (result other : EngineResult L) : Prop where
  exits : ∀ b, other.exits.get? (σ b) = result.exits.get? b
  visits : other.visits = result.visits

theorem Solution.Renumbered.toResult {L : Type} {body other : Body} {solution found : Solution L}
    (same : body.RenumberedBy σ other) (alike : solution.Renumbered σ found) :
    (solution.toResult body).Renumbered σ (found.toResult other) := by
  refine ⟨fun b => ?_, alike.visits_eq⟩
  simp only [Solution.toResult, Table.get?_ofIndices, same.contains, alike.exits b]

theorem Problem.shows_renumbered {L : Type} [JoinLattice L] {p : Problem L} {other : Body}
    (same : p.body.RenumberedBy σ other) (fine : p.error? = none) (steps : Nat) :
    ({ p with body := other } : Problem L).shows steps = p.shows steps := by
  have solved := sameOutcome_solve same fine steps
  rw [shows, shows]
  generalize p.solve steps = one at solved ⊢
  generalize ({ p with body := other } : Problem L).solve steps = two at solved ⊢
  cases solved with
  | error => rfl
  | ok alike => exact replay_renumbered same alike.exits

namespace Engine

variable {ι : Type} [DecidableEq ι] [Catalogue ι] {i : ι} {p : Problem (Catalogue.Carrier i)} {other : Body}

/-- Two problems are run alike, if the blocks of the first go by other numbers in the second: the second is accepted,
the blocks are visited in the same sequence and the same is found at the end of each, and so it is with the engine,
whose observer is shown the same. -/
structure RunsAlike (σ : Equiv.Perm Block) (p q : Problem (Catalogue.Carrier i)) : Prop where
  accepted : q.error? = none
  solve : ∀ steps, SameOutcome (Solution.Renumbered σ) (p.solve steps) (q.solve steps)
  views : ∀ steps observer, (runTyped q steps observer).views = (runTyped p steps observer).views
  result : ∀ steps observer,
    SameOutcome (EngineResult.Renumbered σ) (runTyped p steps observer).result (runTyped q steps observer).result

theorem runsAlike_of_renumberedBy (fine : p.error? = none) (same : p.body.RenumberedBy σ other) :
    RunsAlike σ p { p with body := other } := by
  have solved := Problem.sameOutcome_solve same fine
  refine ⟨Problem.error?_renumbered same fine, solved, fun steps observer => ?_, fun steps observer => ?_⟩
  · rw [(ends_runTyped p steps observer).views_eq, (ends_runTyped _ steps observer).views_eq,
      Problem.shows_renumbered same fine]
  · rw [(ends_runTyped p steps observer).result_eq, (ends_runTyped _ steps observer).result_eq,
      Problem.shows_renumbered same fine]
    have tables (solution found : Solution (Catalogue.Carrier i)) (alike : solution.Renumbered σ found) :
        (solution.toResult p.body).Renumbered σ (found.toResult other) := alike.toResult same
    refine SameOutcome.map tables ?_
    cases (watched (observer.map (sealObserver i)) ((p.shows steps).map (sealView i))).2 with
    | error e => exact .error e
    | ok _ => exact solved steps

/-- The numbers of the blocks do not matter. Whoever gives them others, and keeps the order in each list of edges, runs
the problem as before. The numbers can be permuted in any way, so they can be those of the printed text, which begins
with the entry: what is read from there is run as before, if it lists the predecessors in the order they had. -/
theorem runTyped_renumbered (p : Problem (Catalogue.Carrier i)) (fine : p.error? = none) :
    (∀ σ other, p.body.RenumberedBy σ other → RunsAlike σ p { p with body := other }) ∧
    (∀ σ : Equiv.Perm Block, (∀ b, p.body.blocks.contains (σ b) = p.body.blocks.contains b) →
      p.body.RenumberedBy σ (p.body.renumber σ)) ∧
    ∃ σ : Equiv.Perm Block, (∀ b, p.body.blocks.contains b = true → σ b = p.body.place b) ∧
      RunsAlike σ p { p with body := p.body.renumber σ } ∧
      ∀ indent, p.body.Named → p.body.Fresh → (∀ c ∈ indent.toList, isBlank c = true) →
        ∃ text again, p.body.text? indent = some text ∧ Body.parse text = .ok again ∧
          ((∀ b, p.body.blocks.contains b = true → again.preds (σ b) = (p.body.preds b).map σ) →
            RunsAlike σ p { p with body := again }) := by
  have ok := Problem.consistent_of_error? fine
  obtain ⟨σ, inside, places⟩ := Body.exists_perm_place ok.entry_mem
  refine ⟨fun σ other same => runsAlike_of_renumberedBy fine same, fun σ => Body.renumberedBy_renumber, σ, places,
    runsAlike_of_renumberedBy fine (Body.renumberedBy_renumber inside), fun indent named fresh blank => ?_⟩
  obtain ⟨text, printed, read⟩ := Body.parse_text_outline ok named fresh blank
  refine ⟨text, p.body.outline.toBody, printed, read, fun preds => ?_⟩
  exact runsAlike_of_renumberedBy fine ((Body.renumbered_outline ok).renumberedBy ok inside places preds)

/-- Of two blocks that jump to each other the second is the entry. The text begins with it, and what is read from there
is run as before. -/
theorem runTyped_renumbered_jump :
    let p : Problem (Catalogue.Carrier (Shape.must .var)) :=
      { body := .jump "goto", pass := { analysis := Analysis.assigned } }
    p.error? = none ∧ (p.solve 20).map Solution.trail = .ok [.slot 1, .slot 0, .slot 1] ∧
      ∃ (σ : Equiv.Perm Block) (text : String) (again : Body), σ (.slot 0) = .slot 1 ∧ σ (.slot 1) = .slot 0 ∧
        p.body.text? "" = some text ∧ Body.parse text = .ok again ∧ RunsAlike σ p { p with body := again } := by
  intro p
  have fine : p.error? = none := by decide +kernel
  have trail : (p.solve 20).map Solution.trail = .ok [.slot 1, .slot 0, .slot 1] := by decide +kernel
  have round : (p.body.text? "").map Body.parse = some (.ok (Body.pair (.slot 0)
      { label := some "goto", preds := [.slot 1, .slot 1], succs := [.slot 1] }
      { label := some "block0", elements := [.stmt (.assign (.slot 0) (.use (.lit (.int 1))))], preds := [.slot 0],
        succs := [.slot 0, .slot 0] })) := by decide +kernel
  obtain ⟨_, _, σ, places, _, printing⟩ := runTyped_renumbered p fine
  have first : σ (.slot 0) = .slot 1 := places (.slot 0) rfl
  have second : σ (.slot 1) = .slot 0 := places (.slot 1) rfl
  obtain ⟨text, again, printed, read, alike⟩ := printing "" (Body.jump_named (by decide)) (Body.jump_fresh (by decide))
    fun c mem => absurd mem List.not_mem_nil
  refine ⟨fine, trail, σ, text, again, first, second, printed, read, alike fun b inside => ?_⟩
  rw [printed, Option.map_some, read] at round
  cases round
  obtain ⟨n, rfl, short⟩ := Body.exists_slot_of_contains inside
  match n with
  | 0 =>
    rw [first]
    exact congrArg (fun b => [b]) second.symm
  | 1 =>
    rw [second]
    exact congrArg (fun b => [b, b]) first.symm
  | n + 2 => exact absurd short (by simp [p, Body.jump, Body.pair])

end Engine

end ForwardFlow
