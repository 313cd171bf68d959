import ForwardFlow.Proofs.Engine.Run
import ForwardFlow.Proofs.Program.Uses

namespace ForwardFlow

theorem Problem.error?_eq_some_iff {L : Type} {p : Problem L} {e : RunError} :
    p.error? = some e ↔
      p.body.checkedOrder = .error e ∨ (∃ order, p.body.checkedOrder = .ok order) ∧ p.start.RefusesFirst p.body e := by
  simp only [error?, Option.or_eq_some_iff, Option.map_eq_some_iff, Option.map_eq_none_iff,
    Body.exists_checkedOrder_iff, Body.checkedOrder_eq_error_iff, Knowledge.bodyError?_eq_some_iff, eq_comm (a := e)]

namespace Engine

variable {ι : Type} [DecidableEq ι] [Catalogue ι] {i : ι} {p : Problem (Catalogue.Carrier i)} {steps : Nat}
  {observer : Option (SealedObserver ι)}

/-- What lies in the body is found before the run, and by nothing else. -/
theorem result_eq_error_iff {e : RunError} (structural : e.IsStructural) :
    (run p steps observer).result = .error e ↔ p.error? = some e := by
  constructor
  · intro failed
    obtain refused | rfl | ⟨_, _, _, _, ⟨_, _, rfl⟩ | ⟨_, _, rfl⟩⟩ := error_of_run failed
    · exact refused
    all_goals exact structural.elim
  · intro refused
    rw [run_of_error refused, Recorded.fail]

/-- A run refuses a body exactly if its graph has a fault, or an element anywhere in it mentions a variable that is not
declared, or declared as a record. The error is that of the graph, or else that of the first such mention. Nothing was
called by then. Any other error comes from the observer, or the steps did not suffice. -/
theorem run_refuses (p : Problem (Catalogue.Carrier i)) (steps : Nat) (observer : Option (SealedObserver ι)) :
    (∀ e : RunError, e.IsStructural → ((run p steps observer).result = .error e ↔ p.body.checkedOrder = .error e ∨
      (∃ order, p.body.checkedOrder = .ok order) ∧ p.start.RefusesFirst p.body e)) ∧
    ((∃ e : RunError, e.IsStructural ∧ (run p steps observer).result = .error e) ↔
      (∃ e, p.body.checkedOrder = .error e) ∨ ∃ here v, p.body.UsesAt here v ∧
        (p.start.ty? v = none ∨ ∃ name, p.start.ty? v = some (.record name))) ∧
    ∀ e, (run p steps observer).result = .error e → e.IsStructural ∧ (run p steps observer).events = [] ∨
      e = .fault .outOfSteps ∨ ∃ watching, observer = some watching ∧ ∃ shown view,
        (∃ complaint, watching shown view = .ok (some complaint) ∧ e = .observer complaint) ∨
          ∃ fault, watching shown view = .error fault ∧ e = .fault fault := by
  refine ⟨fun e structural => ?_, ?_, fun e failed => ?_⟩
  · rw [result_eq_error_iff structural, Problem.error?_eq_some_iff]
  · simp only [← Knowledge.not_allows_iff, ← Knowledge.exists_bodyError?_iff]
    constructor
    · rintro ⟨e, structural, failed⟩
      obtain graph | ⟨_, uses⟩ := Problem.error?_eq_some_iff.mp ((result_eq_error_iff structural).mp failed)
      · exact .inl ⟨e, graph⟩
      · exact .inr ⟨e, Knowledge.bodyError?_eq_some_iff.mpr uses⟩
    · intro either
      have refused : ∃ e, p.error? = some e := by
        simp only [Problem.error?_eq_some_iff]
        obtain ⟨e, graph⟩ | ⟨e, uses⟩ := either
        · exact ⟨e, .inl graph⟩
        · cases checked : p.body.checkedOrder with
          | error other => exact ⟨other, .inl rfl⟩
          | ok order => exact ⟨e, .inr ⟨⟨order, rfl⟩, Knowledge.bodyError?_eq_some_iff.mp uses⟩⟩
      obtain ⟨e, refused⟩ := refused
      have structural := Problem.isStructural_of_error? refused
      exact ⟨e, structural, (result_eq_error_iff structural).mpr refused⟩
  · obtain refused | late := error_of_run failed
    · refine .inl ⟨Problem.isStructural_of_error? refused, ?_⟩
      rw [run_of_error refused, Recorded.fail]
    · exact .inr late

end Engine

end ForwardFlow
