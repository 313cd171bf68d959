import ForwardFlow.Solver.Problem

namespace ForwardFlow

/-- What happens in a run that someone outside can notice: calls of models, hooks and the merger, and the views shown to
an observer. -/
inductive Event (L : Type)
  | model (handled : Bool)
  | element (element : Element)
  | stmt (stmt : Stmt)
  | merge (ty : Ty) (left right : Fact)
  | shown (view : View L)

/-- A computation that records events and may stop with an error. The events before the error are kept. -/
structure Recorded (L α : Type) where
  events : List (Event L)
  result : Except RunError α

namespace Recorded

variable {L α β γ : Type}

protected def pure (a : α) : Recorded L α := ⟨[], .ok a⟩

protected def bind (x : Recorded L α) (f : α → Recorded L β) : Recorded L β :=
  match x with
  | ⟨events, .ok a⟩ =>
    let next := f a
    ⟨events ++ next.events, next.result⟩
  | ⟨events, .error e⟩ => ⟨events, .error e⟩

instance : Monad (Recorded L) where
  pure := Recorded.pure
  bind := Recorded.bind

instance : LawfulMonad (Recorded L) :=
  LawfulMonad.mk' _
    (fun ⟨events, result⟩ => by
      cases result with
      | ok a => exact congrArg (Recorded.mk · _) (List.append_nil events)
      | error e => rfl)
    (fun a f => rfl)
    (fun ⟨events, result⟩ f g => by
      cases result with
      | error e => rfl
      | ok a =>
        show Recorded.bind (Recorded.bind ⟨events, .ok a⟩ f) g = Recorded.bind ⟨events, .ok a⟩ fun a => Recorded.bind (f a) g
        simp only [Recorded.bind]
        rcases f a with ⟨later, _ | b⟩
        · rfl
        · simp only [List.append_assoc])

def record (event : Event L) : Recorded L Unit := ⟨[event], .ok ()⟩

def fail (e : RunError) : Recorded L α := ⟨[], .error e⟩

/-- A step that may be at fault, with no events. -/
def checked : Except Fault α → Recorded L α
  | .ok a => ⟨[], .ok a⟩
  | .error f => ⟨[], .error (.fault f)⟩

/-- The views among the events. -/
def views (x : Recorded L α) : List (View L) :=
  x.events.filterMap fun
    | .shown view => some view
    | _ => none

theorem bind_ok (events : List (Event L)) (a : α) (f : α → Recorded L β) :
    ((⟨events, .ok a⟩ : Recorded L α) >>= f) = ⟨events ++ (f a).events, (f a).result⟩ := rfl

theorem bind_error (events : List (Event L)) (e : RunError) (f : α → Recorded L β) :
    ((⟨events, .error e⟩ : Recorded L α) >>= f) = ⟨events, .error e⟩ := rfl

end Recorded

end ForwardFlow
