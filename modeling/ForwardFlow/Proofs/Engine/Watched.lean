import ForwardFlow.Proofs.Engine.Refinement
import ForwardFlow.Proofs.Graph.Postorder

namespace ForwardFlow

/-- An observer of a run that would show some views changes nothing but its end. If it accepts them all, the run ends as
without it. If it accepts some and complains about the next, it is shown no more, and its complaint is what the run ends
with. -/
structure Observer.Passive {L V R : Type} (views : List (View L)) (image : View L → V)
    (run : Option (Observer L) → List V × Except RunError R) : Prop where
  unseen : (run none).1 = []
  quiet : ∀ observer : Observer L, observer.Accepts views → run (some observer) = (views.map image, (run none).2)
  prompt : ∀ (observer : Observer L) (n : Nat) (more : n < views.length) (complaint : String),
    observer.Accepts (views.take n) → observer (views.take n) views[n] = some complaint →
    run (some observer) = ((views.take (n + 1)).map image, .error (.observer complaint))
  late : ∀ (observer : Observer L) (n : Nat), views.length ≤ n → observer.Accepts (views.take n) →
    run (some observer) = (views.map image, (run none).2)

namespace Observer

variable {L : Type} {observer : Observer L}

theorem accepts_of_silent (silent : ∀ shown view, observer shown view = none) (views : List (View L)) :
    observer.Accepts views := fun shown view _ => silent shown view

/-- An observer accepts as many views as it has calls without a complaint. -/
theorem accepts_take {n : Nat} (silent : ∀ shown view, shown.length < n → observer shown view = none)
    (views : List (View L)) : observer.Accepts (views.take n) := by
  intro shown view inside
  have short := inside.length_le
  rw [List.length_append, List.length_singleton, List.length_take] at short
  exact silent shown view (by omega)

theorem accepts_failsAt (n : Nat) (views : List (View L)) : (failsAt n).Accepts (views.take n) :=
  accepts_take (fun _ _ short => if_neg short.ne) views

theorem failsAt_take {views : List (View L)} {n : Nat} (more : n < views.length) :
    failsAt n (views.take n) views[n] = some s!"stop at {n}" := by
  rw [failsAt, if_pos (List.length_take_of_le more.le)]

theorem watch_eq_of_some {views : List (View L)} {n : Nat} (more : n < views.length) {complaint : String}
    (accepts : observer.Accepts (views.take n)) (complains : observer (views.take n) views[n] = some complaint) :
    observer.watch [] views = (views.take (n + 1), some complaint) := by
  have before : observer.watch [] (views.take n) = ([] ++ views.take n, none) := watch_eq_of_none accepts
  have split : views = views.take n ++ views[n] :: views.drop (n + 1) := by
    rw [← List.drop_eq_getElem_cons, List.take_append_drop]
  conv_lhs => rw [split, watch_append, before]
  dsimp only
  rw [List.nil_append, watch, complains, List.take_succ_eq_append_getElem more]

/-- Whoever shows views until the first complaint, and otherwise ends as without an observer, leaves it passive. -/
theorem passive_of_watch {V R : Type} {views : List (View L)} {image : View L → V}
    {run : Option (Observer L) → List V × Except RunError R} (unseen : (run none).1 = [])
    (seen : ∀ observer : Observer L, run (some observer) = ((observer.watch [] views).1.map image,
      (observer.watch [] views).2.elim (run none).2 fun complaint => .error (.observer complaint))) :
    Passive views image run := by
  have quiet (observer : Observer L) (accepts : observer.Accepts views) :
      run (some observer) = (views.map image, (run none).2) := by
    have watched : observer.watch [] views = ([] ++ views, none) := watch_eq_of_none accepts
    rw [seen, watched]
    rfl
  refine ⟨unseen, quiet, fun observer n more complaint accepts complains => ?_, fun observer n few accepts => ?_⟩
  · rw [seen, watch_eq_of_some more accepts complains]
    rfl
  · rw [List.take_of_length_le few] at accepts
    exact quiet observer accepts

end Observer

namespace Engine

variable {ι : Type} [DecidableEq ι] [Catalogue ι] {i : ι}

/-- An observer that cannot make a fault. -/
def total (observer : Observer (Sealed ι)) : SealedObserver ι := fun shown view => .ok (observer shown view)

theorem watch_total (observer : Observer (Sealed ι)) (views : List (View (Sealed ι))) :
    (total observer).watch [] views = ((observer.watch [] views).1,
      (observer.watch [] views).2.elim (.ok ()) fun complaint => .error (.observer complaint)) := by
  have same : ∀ shown view, total observer (shown.map id) (id view) = .ok (observer shown view) := fun shown view => by
    rw [List.map_id]
    rfl
  simpa only [List.map_id, List.map_nil] using SealedObserver.watch_map same [] views

/-- A run does the same whether it is observed or not, as far as the observer lets it: the table, the number of visits and
the views do not depend on it, and at its first complaint the run is over. This is so for one who knows the tag, and for
one who does not. -/
theorem observer_passive (p : Problem (Catalogue.Carrier i)) (steps : Nat) (fine : p.error? = none) :
    Observer.Passive (p.shows steps) (sealView i)
      (fun observer => ((runTyped p steps observer).views, (runTyped p steps observer).result)) ∧
    Observer.Passive ((p.shows steps).map (sealView i)) id
      (fun observer => ((run p steps (observer.map total)).views, (run p steps (observer.map total)).result)) ∧
    ((∃ found, (runTyped p steps none).result = .ok found) ∨
      p.shows steps = [] ∧ (runTyped p steps none).result = .error (.fault .outOfSteps)) := by
  have typed := ends_runTyped_none p steps
  have erased := ends_run p steps none
  refine ⟨Observer.passive_of_watch typed.views_eq fun observer => ?_,
    Observer.passive_of_watch erased.views_eq fun observer => ?_, ?_⟩
  · have ends := ends_runTyped_some p steps observer
    rw [Problem.observe_eq] at ends
    dsimp only
    rw [ends.views_eq, ends.result_eq, typed.result_eq]
    cases (observer.watch [] (p.shows steps)).2 <;> rfl
  · have ends := ends_run p steps (some (total observer))
    simp only [watched, Option.elim_some, watch_total] at ends
    simp only [Option.map_some, Option.map_none, ends.views_eq, ends.result_eq, erased.result_eq, List.map_id]
    cases (observer.watch [] ((p.shows steps).map (sealView i))).2 <;> rfl
  · rw [typed.result_eq]
    cases solved : p.solve steps with
    | ok solution => exact .inl ⟨_, rfl⟩
    | error e =>
      obtain refused | rfl := Problem.error_of_solve solved
      · cases fine.symm.trans refused
      · exact .inr ⟨by rw [Problem.shows, solved], rfl⟩

/-- On the fork, an observer that complains about its third view stops the run there, before the fourth, and one that
never complains does not change the result. -/
theorem observer_passive_fork :
    let p : Problem (Catalogue.Carrier (Shape.must .var)) :=
      { body := .fork, pass := { analysis := Analysis.assigned } }
    p.error? = none ∧ (p.shows 20).length = 4 ∧
      (runTyped p 20 (some .silent)).result = (runTyped p 20 none).result ∧
      (runTyped p 20 (some (.failsAt 2))).views = ((p.shows 20).take 3).map (sealView _) ∧
      (runTyped p 20 (some (.failsAt 2))).result = .error (.observer s!"stop at {2}") := by
  intro p
  have fine : p.error? = none := by decide +kernel
  have length : (p.shows 20).length = 4 := by decide +kernel
  have more : 2 < (p.shows 20).length := length ▸ by decide
  obtain ⟨passive, _, _⟩ := observer_passive p 20 fine
  -- The rest is about runs in general, and nothing has to be computed.
  clear_value p
  have silent := passive.quiet .silent (Observer.accepts_of_silent (fun _ _ => rfl) _)
  have stopped := passive.prompt (.failsAt 2) 2 more _ (Observer.accepts_failsAt 2 _) (Observer.failsAt_take more)
  exact ⟨fine, length, congrArg Prod.snd silent, congrArg Prod.fst stopped, congrArg Prod.snd stopped⟩

end Engine

end ForwardFlow
