import ForwardFlow.Knowledge.Join
import ForwardFlow.Solver.Recorded

namespace ForwardFlow

namespace Recorded

variable {L α β : Type} {x : Recorded L α} {f : α → Recorded L β} {a : α} {b : β}

/-- A computation shows some views and comes to a result. What else it records is left open. -/
structure Ends (x : Recorded L α) (views : List (View L)) (result : Except RunError α) : Prop where
  views_eq : x.views = views
  result_eq : x.result = result

/-- A computation gives a value, and shows nothing on the way. -/
def Gives (x : Recorded L α) (a : α) : Prop := x.Ends [] (.ok a)

theorem gives_pure (a : α) : (pure a : Recorded L α).Gives a := ⟨rfl, rfl⟩

theorem checked_ok (a : α) : (checked (.ok a) : Recorded L α) = pure a := rfl

theorem ends_fail (e : RunError) : (fail e : Recorded L α).Ends [] (.error e) := ⟨rfl, rfl⟩

theorem Ends.bind {views later : List (View L)} {result : Except RunError β} (first : x.Ends views (.ok a))
    (next : (f a).Ends later result) : (x >>= f).Ends (views ++ later) result := by
  obtain ⟨events, outcome⟩ := x
  obtain ⟨rfl, rfl⟩ := first
  obtain ⟨rfl, rfl⟩ := next
  exact ⟨List.filterMap_append, rfl⟩

theorem Ends.bind_error {views : List (View L)} {e : RunError} (first : x.Ends views (.error e)) :
    (x >>= f).Ends views (.error e) := by
  obtain ⟨events, outcome⟩ := x
  obtain ⟨rfl, rfl⟩ := first
  exact ⟨rfl, rfl⟩

theorem Gives.bind_ends {views : List (View L)} {result : Except RunError β} (first : x.Gives a)
    (next : (f a).Ends views result) : (x >>= f).Ends views result :=
  Ends.bind first next

theorem Gives.bind (first : x.Gives a) (next : (f a).Gives b) : (x >>= f).Gives b := first.bind_ends next

theorem result_bind_eq_ok : (x >>= f).result = .ok b ↔ ∃ a, x.result = .ok a ∧ (f a).result = .ok b := by
  obtain ⟨events, e | a⟩ := x
  · simp [Recorded.bind_error]
  · simp [Recorded.bind_ok]

theorem result_checked_eq_ok {looked : Except Fault α} :
    (checked looked : Recorded L α).result = .ok a ↔ looked = .ok a := by
  cases looked <;> simp [checked]

/-- A fold whose steps do what others do, seen through a map. -/
theorem gives_foldlM {σ τ : Type} {step : τ → α → Recorded L τ} {next : σ → α → σ} (image : σ → τ) {l : List α}
    (each : ∀ s, ∀ a ∈ l, (step (image s) a).Gives (image (next s a))) (s : σ) :
    (l.foldlM step (image s)).Gives (image (l.foldl next s)) := by
  induction l generalizing s with
  | nil => exact gives_pure _
  | cons a l ih =>
    rw [List.foldlM_cons]
    exact (each s a List.mem_cons_self).bind (ih (fun s b mem => each s b (List.mem_cons_of_mem a mem)) _)

/-- A merger that records what it is asked still joins as the merger itself does. -/
theorem gives_joinM {merge : Ty → Fact → Fact → Knowledge → Recorded L (Option Fact × Knowledge)} {merger : Merger}
    (each : ∀ ty a b joined, (merge ty a b joined).Gives (merger ty a b joined)) (k l : Knowledge) :
    (k.joinM merge l).Gives (k.join merger l) := by
  refine gives_foldlM id (fun joined pair _ => ?_) _
  obtain ⟨v, a⟩ := pair
  simp only [Knowledge.joinFactM, Knowledge.joinFact, id_eq]
  cases l.fact? v with
  | none => exact gives_pure _
  | some b =>
    dsimp only
    split
    · exact gives_pure _
    · cases k.ty? v with
      | none => exact gives_pure _
      | some ty =>
        dsimp only
        refine (each ty a b joined).bind ?_
        obtain ⟨_ | fact, joined⟩ := merger ty a b joined <;> exact gives_pure _

end Recorded

end ForwardFlow
