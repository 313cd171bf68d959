import ForwardFlow.Analysis.Assigned
import ForwardFlow.Proofs.Engine.Run

namespace ForwardFlow

open Recorded

/-- A solution as the engine hands it out, with an entry for every block of the body. -/
def Solution.toResult {L : Type} (body : Body) (solution : Solution L) : EngineResult L :=
  ⟨.ofIndices body.blocks.size fun b => solution.exits[b]?, solution.visits⟩

namespace Problem

variable {L : Type} [JoinLattice L] {p : Problem L} {steps : Nat}

theorem error_of_observe {observer : Observer L} {e : RunError} (failed : (p.observe steps observer).2 = .error e) :
    p.error? = some e ∨ e = .fault .outOfSteps ∨
      ∃ shown view complaint, observer shown view = some complaint ∧ e = .observer complaint := by
  unfold observe at failed
  split at failed
  · rename_i run
    cases failed
    exact (error_of_solve run).imp_right .inl
  · split at failed
    · rename_i watched
      cases failed
      obtain ⟨shown, view, complaint⟩ := Observer.exists_of_watch (congrArg Prod.snd watched)
      exact .inr (.inr ⟨shown, view, _, complaint, rfl⟩)
    · cases failed

end Problem

namespace Engine

variable {ι : Type} [DecidableEq ι] [Catalogue ι] {i : ι} {p : Problem (Catalogue.Carrier i)} {steps : Nat}

theorem error_of_map {α β : Type} {f : α → β} {result : Except RunError α} {e : RunError}
    (failed : result.map f = .error e) : result = .error e := by
  cases result with
  | error other =>
    cases failed
    rfl
  | ok a => cases failed

/-- One who knows the tag sees what the engine shows, and can open what it finds. -/
theorem ends_runTyped (p : Problem (Catalogue.Carrier i)) (steps : Nat)
    (observer : Option (Observer (Catalogue.Carrier i))) :
    (runTyped p steps observer).Ends
      (watched (observer.map (sealObserver i)) ((p.shows steps).map (sealView i))).1
      (((watched (observer.map (sealObserver i)) ((p.shows steps).map (sealView i))).2.bind fun _ =>
        p.solve steps).map (Solution.toResult p.body)) := by
  have ends := ends_run p steps (observer.map (sealObserver i))
  generalize watched (observer.map (sealObserver i)) ((p.shows steps).map (sealView i)) = shown at ends ⊢
  generalize (shown.2.bind fun _ => p.solve steps) = found at ends ⊢
  cases found with
  | error e => exact ends.bind_error
  | ok solution =>
    have opened : openExits i (sealExits p.body solution.exits) = _ := openExits_sealExits
    refine List.append_nil shown.1 ▸ ends.bind ?_
    simp only [sealResult, opened, checked_ok]
    exact gives_pure _

/-- Without an observer, the engine finds what the run over typed values finds. -/
theorem ends_runTyped_none (p : Problem (Catalogue.Carrier i)) (steps : Nat) :
    (runTyped p steps none).Ends [] ((p.solve steps).map (Solution.toResult p.body)) :=
  ends_runTyped p steps none

theorem ends_runTyped_some (p : Problem (Catalogue.Carrier i)) (steps : Nat)
    (observer : Observer (Catalogue.Carrier i)) :
    (runTyped p steps (some observer)).Ends ((p.observe steps observer).1.map (sealView i))
      ((p.observe steps observer).2.map (Solution.toResult p.body)) := by
  have ends := ends_runTyped p steps (some observer)
  rw [Option.map_some, watched, Option.elim_some, ← List.map_nil,
    SealedObserver.watch_map (sealObserver_sealView observer)] at ends
  rw [Problem.observe_eq]
  generalize observer.watch [] (p.shows steps) = shown at ends ⊢
  obtain ⟨views, _ | complaint⟩ := shown <;> exact ends

/-- A run of the engine fails in three ways: something is refused before it, the steps do not suffice, or the observer
complains. -/
theorem error_of_runTyped {observer : Option (Observer (Catalogue.Carrier i))} {e : RunError}
    (failed : (runTyped p steps observer).result = .error e) :
    p.error? = some e ∨ e = .fault .outOfSteps ∨
      ∃ watching, observer = some watching ∧
        ∃ shown view complaint, watching shown view = some complaint ∧ e = .observer complaint := by
  cases observer with
  | none =>
    have solved := error_of_map ((ends_runTyped_none p steps).result_eq.symm.trans failed)
    exact (Problem.error_of_solve solved).imp_right .inl
  | some watching =>
    have observed := error_of_map ((ends_runTyped_some p steps watching).result_eq.symm.trans failed)
    exact (Problem.error_of_observe observed).imp_right (.imp_right fun complaint => ⟨watching, rfl, complaint⟩)

/-- The engine, which sees no lattice value, does what the same algorithm does over typed values. No look into a table
and no opening of a value fails. Stage for stage, its table holds the typed states under the tag, and so does whatever
arrives at the start of a block. An observer is shown the same views, and the result is the same. -/
theorem runTyped_refines (p : Problem (Catalogue.Carrier i)) (steps : Nat) :
    ((runTyped p steps none).views = [] ∧
      (runTyped p steps none).result = (p.solve steps).map (Solution.toResult p.body)) ∧
    (∀ observer, (runTyped p steps (some observer)).views = (p.observe steps observer).1.map (sealView i) ∧
      (runTyped p steps (some observer)).result = (p.observe steps observer).2.map (Solution.toResult p.body)) ∧
    (∀ observer fault, (runTyped p steps observer).result = .error (.fault fault) → fault = .outOfSteps) ∧
    initial p = sealState i p.initial ∧
    ∀ order, p.body.checkedOrder = .ok order →
      (∀ progress, p.Stage progress → ∃ engine, Stage p order engine ∧ Follows p engine progress) ∧
      ∀ engine, Stage p order engine → ∃ progress, p.Stage progress ∧ Follows p engine progress ∧
        ∀ b, p.body.blocks.contains b = true →
          (input p engine.exits b).result = .ok ((p.input progress.exits b).map (sealState i)) := by
  have quiet := ends_runTyped_none p steps
  have shown := ends_runTyped_some p steps
  refine ⟨⟨quiet.views_eq, quiet.result_eq⟩, fun observer => ⟨(shown observer).views_eq, (shown observer).result_eq⟩,
    fun observer fault failed => ?_, rfl, fun order checked => ?_⟩
  · obtain refused | outOfSteps | ⟨_, _, _, _, _, _, complaint⟩ := error_of_runTyped failed
    · exact (Problem.isStructural_of_error? refused).elim
    · exact RunError.fault.inj outOfSteps
    · cases complaint
  · have graph : p.body.graphError? = none := by
      cases found : p.body.graphError? with
      | none => rfl
      | some error =>
        rw [Body.checkedOrder, found] at checked
        cases checked
    have ok := Body.consistent_of_graphError? graph
    cases (Body.checkedOrder_of_graphError? graph).symm.trans checked
    refine ⟨fun progress stage => exists_stage ok stage, fun engine stage => ?_⟩
    obtain ⟨progress, typed, follows⟩ := stage.exists_follows ok
    refine ⟨progress, typed, follows, fun b inside => ?_⟩
    rw [follows.exits]
    exact (gives_input p ok progress.exits inside).result_eq

/-- The engine starts on the loop that counts where the typed run does, and finds the same in twenty steps. -/
theorem runTyped_refines_countingLoop :
    let p : Problem (Catalogue.Carrier (Shape.must .var)) :=
      { body := .countingLoop, pass := { analysis := Analysis.assigned } }
    (runTyped p 20 none).result = (p.solve 20).map (Solution.toResult p.body) ∧
      ∃ order, p.body.checkedOrder = .ok order ∧ ∃ progress, p.Stage progress ∧ Follows p (start p order) progress := by
  intro p
  obtain ⟨⟨_, result⟩, _, _, _, stages⟩ := runTyped_refines p 20
  have graph : p.body.graphError? = none := by decide +kernel
  have checked := Body.checkedOrder_of_graphError? graph
  obtain ⟨progress, typed, follows, _⟩ := (stages _ checked).2 _ .start
  exact ⟨result, _, checked, progress, typed, follows⟩

end Engine

end ForwardFlow
