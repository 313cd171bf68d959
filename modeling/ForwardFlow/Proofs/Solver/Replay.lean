import Mathlib.Data.List.Forall2
import ForwardFlow.Proofs.Solver.Visited

namespace ForwardFlow

theorem Observer.watch_prefix {L : Type} (observer : Observer L) (shown views : List (View L)) :
    (observer.watch shown views).1 <+: shown ++ views := by
  induction views generalizing shown with
  | nil => exact List.prefix_append shown []
  | cons view views ih =>
    have next : shown ++ view :: views = (shown ++ [view]) ++ views := by simp
    unfold watch
    rw [next]
    cases observer shown view with
    | some complaint => exact List.prefix_append _ _
    | none => exact ih _

theorem Observer.watch_append {L : Type} (observer : Observer L) (shown views later : List (View L)) :
    observer.watch shown (views ++ later) =
      match observer.watch shown views with
      | (seen, some complaint) => (seen, some complaint)
      | (seen, none) => observer.watch seen later := by
  induction views generalizing shown with
  | nil => rfl
  | cons view views ih =>
    simp only [List.cons_append, watch]
    cases observer shown view with
    | some complaint => rfl
    | none => exact ih _

theorem Observer.exists_of_watch {L : Type} {observer : Observer L} {shown views : List (View L)} {complaint : String}
    (stopped : (observer.watch shown views).2 = some complaint) :
    ∃ shown view, observer shown view = some complaint := by
  induction views generalizing shown with
  | nil => cases stopped
  | cons view views ih =>
    unfold watch at stopped
    cases complained : observer shown view with
    | some complaint' =>
      rw [complained] at stopped
      cases stopped
      exact ⟨shown, view, complained⟩
    | none =>
      rw [complained] at stopped
      exact ih stopped

/-- The observer does not complain about any of some views, when they are shown to it one after another. -/
def Observer.Accepts {L : Type} (observer : Observer L) (views : List (View L)) : Prop :=
  ∀ shown view, shown ++ [view] <+: views → observer shown view = none

theorem Observer.watch_eq_of_none {L : Type} {observer : Observer L} {shown views : List (View L)}
    (quiet : ∀ front view, front ++ [view] <+: views → observer (shown ++ front) view = none) :
    observer.watch shown views = (shown ++ views, none) := by
  induction views generalizing shown with
  | nil => simp only [watch, List.append_nil]
  | cons view views ih =>
    have first := quiet [] view (List.prefix_append [view] views)
    rw [List.append_nil] at first
    have rest := @ih (shown ++ [view]) fun front later inside => by
      rw [List.append_assoc]
      exact quiet (view :: front) later (List.cons_prefix_cons.mpr ⟨rfl, inside⟩)
    rw [watch, first]
    dsimp only
    rw [rest, List.append_assoc, List.singleton_append]

namespace Problem

variable {L : Type} [JoinLattice L]

omit [JoinLattice L] in
/-- The points at which an observer can be shown something: each element of each reachable block, by the block and the
number of the element. -/
def points (p : Problem L) : List (Block × Nat) :=
  p.order.toList.flatMap fun b => (List.range (p.body.elements b).length).map fun n => (b, n)

/-- What the replay has to show at a point, when the states at the ends of the blocks are given. -/
def ViewAt (p : Problem L) (exits : Exits L) (view : View L) (point : Block × Nat) : Prop :=
  p.body.Reaches point.1 ∧ ∃ s, p.input exits point.1 = some s ∧
    (p.body.elements point.1)[point.2]? = some view.element ∧
    view.state = p.pass.transferAll s ((p.body.elements point.1).take (point.2 + 1))

variable {p : Problem L} {steps : Nat} {solution : Solution L}

omit [JoinLattice L] in
theorem getElem?_viewsFrom (p : Problem L) (s : State L) (elements : List Element) (n : Nat) :
    (p.viewsFrom s elements)[n]? =
      elements[n]?.map fun e => ⟨e, p.pass.transferAll s (elements.take (n + 1))⟩ := by
  induction elements generalizing s n with
  | nil => simp [viewsFrom]
  | cons e elements ih =>
    cases n with
    | zero => simp [viewsFrom, Pass.transferAll]
    | succ n =>
      simp only [viewsFrom, List.getElem?_cons_succ, ih, List.take_succ_cons]
      rfl

omit [JoinLattice L] in
theorem length_viewsFrom (p : Problem L) (s : State L) (elements : List Element) :
    (p.viewsFrom s elements).length = elements.length := by
  induction elements generalizing s with
  | nil => rfl
  | cons e elements ih => simp [viewsFrom, ih]

omit [JoinLattice L] in
theorem map_element_viewsFrom (p : Problem L) (s : State L) (elements : List Element) :
    (p.viewsFrom s elements).map View.element = elements := by
  induction elements generalizing s with
  | nil => rfl
  | cons e elements ih => rw [viewsFrom, List.map_cons, ih]

omit [JoinLattice L] in
/-- The last view is of the state after all elements. -/
theorem state_of_getLast?_viewsFrom {s : State L} {elements : List Element} {view : View L}
    (last : (p.viewsFrom s elements).getLast? = some view) : view.state = p.pass.transferAll s elements := by
  rw [List.getLast?_eq_getElem?, getElem?_viewsFrom, length_viewsFrom] at last
  obtain ⟨e, atLast, rfl⟩ := Option.map_eq_some_iff.mp last
  obtain ⟨inside, _⟩ := List.getElem?_eq_some_iff.mp atLast
  have whole : elements.length - 1 + 1 = elements.length := by omega
  rw [whole, List.take_length]

theorem viewAt_blockViews {exits : Exits L} {b : Block} {s t : State L} (reach : p.body.Reaches b)
    (arrived : p.input exits b = some s) (found : exits[b]? = some t) :
    List.Forall₂ (p.ViewAt exits) (p.blockViews exits b)
      ((List.range (p.body.elements b).length).map fun n => (b, n)) := by
  rw [blockViews_of_input arrived found, List.forall₂_map_right_iff, List.forall₂_iff_get]
  refine ⟨by simp [length_viewsFrom], fun n inside _ => ⟨reach, s, arrived, ?_⟩⟩
  have view := getElem?_viewsFrom p s (p.body.elements b) n
  rw [List.getElem?_eq_getElem inside, eq_comm, Option.map_eq_some_iff] at view
  obtain ⟨e, atN, same⟩ := view
  simpa only [List.get_eq_getElem, List.getElem_range, ← same, and_true] using atN

/-- At the end of a run, the replay has one view for each point. -/
theorem viewAt_replay (run : p.solve steps = .ok solution) :
    List.Forall₂ (p.ViewAt solution.exits) (p.replay solution.exits) p.points := by
  have ok := consistent_of_error? (solve_eq_ok run).1
  refine List.rel_flatMap (R := fun a b => a = b ∧ p.body.Reaches a) ?_ ?_
  · exact List.forall₂_same.mpr fun b mem => ⟨rfl, (mem_order ok).mp mem⟩
  · rintro b _ ⟨rfl, reach⟩
    obtain ⟨s, t, arrived, found⟩ := exists_input_of_reaches run reach
    exact viewAt_blockViews reach arrived found

/-- To an observer that accepts it, the whole replay is shown, block by block. -/
theorem observe_eq_of_accepts (run : p.solve steps = .ok solution) {observer : Observer L}
    (accepts : observer.Accepts (p.replay solution.exits)) :
    p.observe steps observer = (p.body.reversePostorder.flatMap (p.blockViews solution.exits), .ok solution) := by
  have watched : observer.watch [] (p.replay solution.exits) = ([] ++ p.replay solution.exits, none) :=
    Observer.watch_eq_of_none accepts
  unfold observe
  rw [run]
  dsimp only
  rw [watched]
  rfl

/-- Whatever an observer complains about and when, each view it is shown is that of the point it stands at. -/
theorem viewAt_of_shown (run : p.solve steps = .ok solution) {observer : Observer L} {i : Nat} {view : View L}
    (shown : (p.observe steps observer).1[i]? = some view) :
    ∃ point, p.points[i]? = some point ∧ p.ViewAt solution.exits view point := by
  have part : (p.observe steps observer).1 <+: p.replay solution.exits := by
    have watched := observer.watch_prefix [] (p.replay solution.exits)
    rw [List.nil_append] at watched
    unfold observe
    rw [run]
    dsimp only
    generalize observer.watch [] (p.replay solution.exits) = result at watched
    obtain ⟨views, _ | complaint⟩ := result <;> exact watched
  obtain ⟨rest, replay⟩ := part
  obtain ⟨inside, _⟩ := List.getElem?_eq_some_iff.mp shown
  have here : (p.replay solution.exits)[i]? = some view := by
    rw [← replay, List.getElem?_append_left inside, shown]
  obtain ⟨inside, same⟩ := List.getElem?_eq_some_iff.mp here
  have all := viewAt_replay run
  have inside' : i < p.points.length := all.length_eq ▸ inside
  refine ⟨p.points[i], List.getElem?_eq_getElem inside', ?_⟩
  have one := all.get inside inside'
  simpa only [List.get_eq_getElem, same] using one

end Problem

end ForwardFlow
