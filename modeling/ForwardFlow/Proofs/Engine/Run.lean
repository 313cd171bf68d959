import ForwardFlow.Proofs.Engine.Replay
import ForwardFlow.Proofs.Engine.Stage
import ForwardFlow.Proofs.Program.Checked

namespace ForwardFlow

open Recorded

namespace Problem

variable {L : Type} [JoinLattice L] {p : Problem L} {steps : Nat}

omit [JoinLattice L] in
/-- Whatever is refused before a run lies in the body. -/
theorem isStructural_of_error? {e : RunError} (refused : p.error? = some e) : e.IsStructural := by
  obtain graph | ⟨_, uses⟩ := Option.or_eq_some_iff.mp refused
  · obtain ⟨_, _, rfl⟩ := Option.map_eq_some_iff.mp graph
    trivial
  · obtain ⟨_, _, _, _, refusal, _, _, _, rfl⟩ := Knowledge.exists_of_bodyError? uses
    exact RunError.isStructural_ofRefusal refusal

/-- What a run has to show: the replay of what it finds, or nothing if it does not come to its end. -/
def shows (p : Problem L) (steps : Nat) : List (View L) :=
  match p.solve steps with
  | .ok solution => p.replay solution.exits
  | .error _ => []

/-- A run ends with what is refused before it, or because the steps do not suffice. -/
theorem error_of_solve {e : RunError} (failed : p.solve steps = .error e) :
    p.error? = some e ∨ e = .fault .outOfSteps := by
  unfold solve at failed
  split at failed
  · rename_i refused
    cases failed
    exact .inl refused
  · dsimp only at failed
    split at failed <;> cases failed
    exact .inr rfl

theorem observe_eq (p : Problem L) (steps : Nat) (observer : Observer L) :
    p.observe steps observer = ((observer.watch [] (p.shows steps)).1,
      (observer.watch [] (p.shows steps)).2.elim (p.solve steps) fun complaint => .error (.observer complaint)) := by
  unfold observe shows
  cases p.solve steps with
  | error e => rfl
  | ok solution =>
    dsimp only
    rcases observer.watch [] (p.replay solution.exits) with ⟨shown, _ | complaint⟩ <;> rfl

end Problem

namespace Engine

variable {ι : Type} [DecidableEq ι] [Catalogue ι] {i : ι} {p : Problem (Catalogue.Carrier i)} {steps : Nat}
  {observer : Option (SealedObserver ι)}

/-- A solution as the engine finds it, with the lattice values under the tag. -/
def sealResult (body : Body) (solution : Solution (Catalogue.Carrier i)) : EngineResult (Sealed ι) :=
  ⟨sealExits body solution.exits, solution.visits⟩

/-- What comes of showing views to someone, if there is someone. -/
def watched (observer : Option (SealedObserver ι)) (views : List (View (Sealed ι))) :
    List (View (Sealed ι)) × Except RunError Unit :=
  observer.elim ([], .ok ()) fun observer => observer.watch [] views

theorem watched_nil (observer : Option (SealedObserver ι)) : watched observer [] = ([], .ok ()) := by
  cases observer <;> rfl

/-- A run that is refused does nothing at all. -/
theorem run_of_error {e : RunError} (refused : p.error? = some e) : run p steps observer = fail e := by
  obtain graph | ⟨fine, uses⟩ := Option.or_eq_some_iff.mp refused
  · obtain ⟨error, found, rfl⟩ := Option.map_eq_some_iff.mp graph
    rw [run, Body.checkedOrder, found]
  · rw [run, Body.checkedOrder_of_graphError? (Option.map_eq_none_iff.mp fine)]
    simp only [uses]

theorem run_of_fine (fine : p.error? = none) :
    run p steps observer = do
      let done ← iterate p p.order steps (start p p.order)
      replay p observer p.order done.exits
      return ⟨done.exits, done.visits⟩ := by
  obtain ⟨graph, uses⟩ := Option.or_eq_none_iff.mp fine
  rw [run, Body.checkedOrder_of_graphError? (Option.map_eq_none_iff.mp graph)]
  simp only [uses]
  rfl

theorem ends_watched (ok : p.body.Consistent) (observer : Option (SealedObserver ι))
    (exits : Exits (Catalogue.Carrier i)) :
    (replay p observer p.order (sealExits p.body exits)).Ends
      (watched observer ((p.replay exits).map (sealView i))).1
      (watched observer ((p.replay exits).map (sealView i))).2 := by
  cases observer with
  | none => exact gives_pure ()
  | some observer => exact ends_replay p ok observer exits

/-- The engine finds what the run over typed values finds, under the tag, and shows its replay. -/
theorem ends_run (p : Problem (Catalogue.Carrier i)) (steps : Nat) (observer : Option (SealedObserver ι)) :
    (run p steps observer).Ends (watched observer ((p.shows steps).map (sealView i))).1
      (((watched observer ((p.shows steps).map (sealView i))).2.bind fun _ => p.solve steps).map
        (sealResult p.body)) := by
  unfold Problem.shows Problem.solve
  cases fine : p.error? with
  | some e =>
    rw [run_of_error fine, List.map_nil, watched_nil]
    exact ends_fail e
  | none =>
    have ok := Problem.consistent_of_error? fine
    have iterated := (follows_start ok).ends_iterate ok steps .start
    rw [run_of_fine fine]
    dsimp only
    cases done : p.iterate p.order steps { pending := p.order.toList } with
    | none =>
      rw [done] at iterated
      dsimp only
      rw [List.map_nil, watched_nil]
      exact iterated.bind_error
    | some last =>
      rw [done] at iterated
      obtain ⟨⟨table, worklist, visits⟩, gives, follows⟩ := iterated
      obtain ⟨rfl, _, rfl⟩ := follows
      have replayed := ends_watched ok observer last.exits
      refine gives.bind_ends ?_
      dsimp only
      generalize watched observer ((p.replay last.exits).map (sealView i)) = shown at replayed ⊢
      obtain ⟨views, e | _⟩ := shown
      · exact replayed.bind_error
      · exact List.append_nil views ▸ replayed.bind (gives_pure _)

/-- A run of the engine fails in three ways: something is refused before it, the steps do not suffice, or the observer
complains or makes a fault. -/
theorem error_of_run {e : RunError} (failed : (run p steps observer).result = .error e) :
    p.error? = some e ∨ e = .fault .outOfSteps ∨
      ∃ watching, observer = some watching ∧ ∃ shown view,
        (∃ complaint, watching shown view = .ok (some complaint) ∧ e = .observer complaint) ∨
          ∃ fault, watching shown view = .error fault ∧ e = .fault fault := by
  rw [(ends_run p steps observer).result_eq] at failed
  cases stopped : watched observer ((p.shows steps).map (sealView i)) with
  | mk views outcome =>
  rw [stopped] at failed
  cases outcome with
  | error other =>
    cases failed
    cases observer with
    | none => cases stopped
    | some watching => exact .inr (.inr ⟨watching, rfl, SealedObserver.exists_of_watch stopped⟩)
  | ok _ =>
    cases solved : p.solve steps with
    | ok solution =>
      rw [solved] at failed
      cases failed
    | error other =>
      rw [solved] at failed
      cases failed
      exact (Problem.error_of_solve solved).imp_right .inl

end Engine

end ForwardFlow
