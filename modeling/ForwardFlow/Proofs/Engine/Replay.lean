import ForwardFlow.Proofs.Engine.Sealing
import ForwardFlow.Proofs.Solver.Replay

namespace ForwardFlow

open Recorded

namespace SealedObserver

variable {ι : Type} [DecidableEq ι] [Catalogue ι]

/-- Shows views until the first complaint, or until the observer makes a fault itself: the views shown, and the error
that stopped it. -/
def watch (observer : SealedObserver ι) (shown : List (View (Sealed ι))) :
    List (View (Sealed ι)) → List (View (Sealed ι)) × Except RunError Unit
  | [] => (shown, .ok ())
  | view :: rest =>
    match observer shown view with
    | .error fault => (shown ++ [view], .error (.fault fault))
    | .ok (some complaint) => (shown ++ [view], .error (.observer complaint))
    | .ok none => watch observer (shown ++ [view]) rest

variable {observer : SealedObserver ι} {shown views seen : List (View (Sealed ι))}

theorem watch_append (observer : SealedObserver ι) (shown views later : List (View (Sealed ι))) :
    observer.watch shown (views ++ later) =
      match observer.watch shown views with
      | (seen, .ok _) => observer.watch seen later
      | (seen, .error e) => (seen, .error e) := by
  induction views generalizing shown with
  | nil => rfl
  | cons view views ih =>
    simp only [List.cons_append, watch]
    cases observer shown view with
    | error fault => rfl
    | ok complaint? =>
      cases complaint? with
      | none => exact ih _
      | some complaint => rfl

/-- An observer that does not stop is shown all views. -/
theorem eq_append_of_watch (quiet : observer.watch shown views = (seen, .ok ())) : seen = shown ++ views := by
  induction views generalizing shown with
  | nil =>
    cases quiet
    exact (List.append_nil _).symm
  | cons view views ih =>
    unfold watch at quiet
    split at quiet
    · cases quiet
    · cases quiet
    · rw [ih quiet, List.append_assoc, List.singleton_append]

/-- Only the observer itself stops the views. -/
theorem exists_of_watch {e : RunError} (stopped : observer.watch shown views = (seen, .error e)) :
    ∃ shown view, (∃ complaint, observer shown view = .ok (some complaint) ∧ e = .observer complaint) ∨
      ∃ fault, observer shown view = .error fault ∧ e = .fault fault := by
  induction views generalizing shown with
  | nil => cases stopped
  | cons view views ih =>
    unfold watch at stopped
    split at stopped
    · rename_i fault failed
      cases stopped
      exact ⟨shown, view, Or.inr ⟨fault, failed, rfl⟩⟩
    · rename_i complaint complained
      cases stopped
      exact ⟨shown, view, Or.inl ⟨complaint, complained, rfl⟩⟩
    · exact ih stopped

/-- An observer that answers for the images of some views as another one does for these is shown the images of what the
other one is shown. -/
theorem watch_map {L : Type} {other : Observer L} {image : View L → View (Sealed ι)}
    (same : ∀ shown view, observer (shown.map image) (image view) = .ok (other shown view)) (shown views : List (View L)) :
    observer.watch (shown.map image) (views.map image) =
      ((other.watch shown views).1.map image,
        (other.watch shown views).2.elim (.ok ()) fun complaint => .error (.observer complaint)) := by
  induction views generalizing shown with
  | nil => rfl
  | cons view views ih =>
    rw [List.map_cons, watch, same, Observer.watch]
    have snoc : shown.map image ++ [image view] = (shown ++ [view]).map image := by rw [List.map_append, List.map_singleton]
    cases other shown view with
    | some complaint => rw [snoc]; rfl
    | none =>
      rw [snoc]
      exact ih _

end SealedObserver

namespace Engine

variable {ι : Type} [DecidableEq ι] [Catalogue ι] {i : ι} {α β : Type}

/-- A computation shows some views to an observer that was shown others before. It stops where the observer stops it, and
gives a value if there is no such view. -/
def Watches (observer : SealedObserver ι) (shown views : List (View (Sealed ι))) (x : Recorded (Sealed ι) α) (a : α) :
    Prop :=
  ∃ seen outcome, observer.watch shown views = (shown ++ seen, outcome) ∧ x.Ends seen (outcome.map fun _ => a)

section Watches

variable {observer : SealedObserver ι} {shown views later : List (View (Sealed ι))} {x : Recorded (Sealed ι) α}
  {f : α → Recorded (Sealed ι) β} {a : α} {b : β}

theorem watches_of_gives (gives : x.Gives a) : Watches observer shown [] x a :=
  ⟨[], .ok (), by rw [SealedObserver.watch, List.append_nil], gives⟩

theorem Watches.bind (first : Watches observer shown views x a)
    (next : Watches observer (shown ++ views) later (f a) b) :
    Watches observer shown (views ++ later) (x >>= f) b := by
  obtain ⟨seen, e | _, watched, ends⟩ := first
  · refine ⟨seen, .error e, ?_, ends.bind_error⟩
    rw [SealedObserver.watch_append, watched]
  · cases List.append_cancel_left (SealedObserver.eq_append_of_watch watched)
    obtain ⟨seen', outcome, watched', ends'⟩ := next
    refine ⟨views ++ seen', outcome, ?_, ends.bind ends'⟩
    rw [SealedObserver.watch_append, watched]
    dsimp only
    rw [watched', List.append_assoc]

theorem gives_bind_watches (first : x.Gives a) (next : Watches observer shown views (f a) b) :
    Watches observer shown views (x >>= f) b := by
  obtain ⟨seen, outcome, watched, ends⟩ := next
  exact ⟨seen, outcome, watched, first.bind_ends ends⟩

theorem Watches.bind_gives (first : Watches observer shown views x a) (next : (f a).Gives b) :
    Watches observer shown views (x >>= f) b := by
  have both := first.bind (watches_of_gives next)
  rwa [List.append_nil] at both

theorem watches_present (view : View (Sealed ι)) :
    Watches observer shown [view] (present observer shown view) (shown ++ [view]) := by
  simp only [Watches, present, SealedObserver.watch]
  rcases observer shown view with fault | _ | complaint
  · exact ⟨[view], .error (.fault fault), rfl, rfl, rfl⟩
  · exact ⟨[view], .ok (), rfl, rfl, rfl⟩
  · exact ⟨[view], .error (.observer complaint), rfl, rfl, rfl⟩

section Problem

variable (p : Problem (Catalogue.Carrier i))

/-- Inside a block, the engine shows the views from the state at its start. -/
theorem watches_elements (s : State (Catalogue.Carrier i)) (elements : List Element) :
    Watches observer shown ((p.viewsFrom s elements).map (sealView i))
      (elements.foldlM (replayElement p observer) (shown, sealState i s))
      (shown ++ (p.viewsFrom s elements).map (sealView i), sealState i (p.pass.transferAll s elements)) := by
  induction elements generalizing shown s with
  | nil =>
    rw [Problem.viewsFrom, List.map_nil, List.append_nil]
    exact watches_of_gives (gives_pure _)
  | cons e elements ih =>
    let after : View (Sealed ι) := ⟨e, sealState i (p.pass.transfer s e)⟩
    have here : Watches observer shown [after] (replayElement p observer (shown, sealState i s) e)
        (shown ++ [after], after.state) :=
      gives_bind_watches (gives_transfer p s e) ((watches_present after).bind_gives (gives_pure _))
    have rest := @ih (shown ++ [after]) (p.pass.transfer s e)
    rw [List.append_assoc, List.singleton_append] at rest
    rw [List.foldlM_cons]
    exact here.bind rest

theorem watches_block (ok : p.body.Consistent) (exits : Exits (Catalogue.Carrier i)) {b : Block}
    (inside : p.body.blocks.contains b = true) :
    Watches observer shown ((p.blockViews exits b).map (sealView i))
      (replayBlock p observer (sealExits p.body exits) shown b)
      (shown ++ (p.blockViews exits b).map (sealView i)) := by
  have nothing : Watches observer shown (([] : List (View _)).map (sealView i))
      (pure shown : Recorded (Sealed ι) _) (shown ++ ([] : List (View _)).map (sealView i)) := by
    rw [List.map_nil, List.append_nil]
    exact watches_of_gives (gives_pure _)
  rw [replayBlock, read_sealExits inside, checked_ok, pure_bind, Problem.blockViews]
  cases exits[b]? with
  | none => exact nothing
  | some t =>
    refine gives_bind_watches (gives_input p ok exits inside) ?_
    cases p.input exits b with
    | none => exact nothing
    | some s =>
      obtain ⟨d, found⟩ := Table.exists_get? inside
      have elements : p.body.elements b = d.elements := by rw [Body.elements, found, Option.elim_some]
      simp only [Option.map_some, Table.read, found, checked_ok, pure_bind, elements]
      exact (watches_elements p s d.elements).bind_gives (gives_pure _)

theorem watches_blocks (ok : p.body.Consistent) (exits : Exits (Catalogue.Carrier i)) {blocks : List Block}
    (inside : ∀ b ∈ blocks, p.body.blocks.contains b = true) :
    Watches observer shown ((blocks.flatMap (p.blockViews exits)).map (sealView i))
      (blocks.foldlM (replayBlock p observer (sealExits p.body exits)) shown)
      (shown ++ (blocks.flatMap (p.blockViews exits)).map (sealView i)) := by
  induction blocks generalizing shown with
  | nil =>
    rw [List.flatMap_nil, List.map_nil, List.append_nil]
    exact watches_of_gives (gives_pure _)
  | cons b blocks ih =>
    have first : Watches observer shown _ _ _ := watches_block p ok exits (inside b List.mem_cons_self)
    have rest := @ih (shown ++ (p.blockViews exits b).map (sealView i)) fun c mem =>
      inside c (List.mem_cons_of_mem b mem)
    rw [List.append_assoc] at rest
    rw [List.foldlM_cons, List.flatMap_cons, List.map_append]
    exact first.bind rest

/-- An observer is shown the replay of the typed run under the tag, up to the view at which it stops. -/
theorem ends_replay (ok : p.body.Consistent) (observer : SealedObserver ι) (exits : Exits (Catalogue.Carrier i)) :
    (replay p (some observer) p.order (sealExits p.body exits)).Ends
      (observer.watch [] ((p.replay exits).map (sealView i))).1
      (observer.watch [] ((p.replay exits).map (sealView i))).2 := by
  have inside : ∀ b ∈ p.order.toList, p.body.blocks.contains b = true := fun _ mem =>
    ((Problem.mem_order ok).mp mem).contains ok
  have whole : Watches observer [] ((p.replay exits).map (sealView i))
      (replay p (some observer) p.order (sealExits p.body exits)) () :=
    (watches_blocks p ok exits inside).bind_gives (gives_pure _)
  obtain ⟨seen, outcome, watched, ends⟩ := whole
  rw [watched]
  cases outcome <;> exact ends

end Problem

end Watches

/-- An observer of typed values is shown the same views as without the tag. -/
theorem sealObserver_sealView (observer : Observer (Catalogue.Carrier i)) (shown : List (View (Catalogue.Carrier i)))
    (view : View (Catalogue.Carrier i)) :
    sealObserver i observer (shown.map (sealView i)) (sealView i view) = .ok (observer shown view) := by
  rw [sealObserver, mapM_map_of_inverse openView_sealView, openView_sealView]
  rfl

end Engine

end ForwardFlow
