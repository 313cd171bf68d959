import ForwardFlow.Proofs.Graph.Consistency
import ForwardFlow.Proofs.Program.Execution
import ForwardFlow.Solver.RunError

namespace ForwardFlow

/-- An error that lies in the body itself: its graph, or a use of a variable. -/
def RunError.IsStructural : RunError → Prop
  | .graph _ | .undeclaredVar .. | .unmodelledVar .. => True
  | .observer _ | .fault _ => False

theorem RunError.isStructural_ofRefusal {b : Block} {place : Nat} {v : Var} (refusal : Knowledge.Refusal) :
    (ofRefusal b place v refusal).IsStructural := by
  cases refusal <;> trivial

namespace Knowledge

theorem refusal?_eq_none_iff {k : Knowledge} {v : Var} :
    k.refusal? v = none ↔ ∃ ty, k.ty? v = some ty ∧ ty.isModelled = true := by
  unfold refusal?
  cases k.ty? v with
  | none => simp
  | some ty => simp

theorem elementError?_eq_none_iff {k : Knowledge} {b : Block} {place : Nat} {e : Element} :
    k.elementError? b place e = none ↔ ∀ v ∈ e.vars, k.refusal? v = none := by
  simp only [elementError?, elementRefusal?, Option.map_eq_none_iff, List.findSome?_eq_none_iff]

/-- A run refuses no element if it may use every variable that is mentioned anywhere. -/
theorem bodyError?_eq_none_iff {k : Knowledge} {body : Body} :
    k.bodyError? body = none ↔ ∀ b, ∀ e ∈ body.elements b, ∀ v ∈ e.vars, k.refusal? v = none := by
  simp only [bodyError?, List.findSome?_eq_none_iff, elementError?_eq_none_iff, Prod.forall, Table.mem_toPairs,
    List.mem_zipIdx_iff_getElem?]
  constructor
  · intro every b e mem
    obtain ⟨d, found, inside⟩ := Body.get?_of_mem_elements mem
    obtain ⟨n, atN⟩ := List.getElem?_of_mem inside
    exact every b d found e n atN
  · intro every b d found e n atN
    refine every b e ?_
    rw [Body.elements, found]
    exact List.mem_of_getElem? atN

/-- What a run refuses names the element, the variable and the reason. -/
theorem exists_of_bodyError? {k : Knowledge} {body : Body} {error : RunError}
    (refused : k.bodyError? body = some error) :
    ∃ b place e v refusal, (body.elements b)[place]? = some e ∧ v ∈ e.vars ∧ k.refusal? v = some refusal ∧
      error = .ofRefusal b place v refusal := by
  obtain ⟨⟨b, d⟩, mem, atBlock⟩ := List.exists_of_findSome?_eq_some refused
  obtain ⟨⟨e, place⟩, listed, atElement⟩ := List.exists_of_findSome?_eq_some atBlock
  obtain ⟨⟨v, refusal⟩, found, rfl⟩ := Option.map_eq_some_iff.mp atElement
  obtain ⟨w, mentioned, reason⟩ := List.exists_of_findSome?_eq_some found
  obtain ⟨refusal, reason, same⟩ := Option.map_eq_some_iff.mp reason
  cases same
  refine ⟨b, place, e, v, refusal, ?_, mentioned, reason, rfl⟩
  rw [Body.elements, Table.mem_toPairs.mp mem, Option.elim_some]
  exact List.mem_zipIdx_iff_getElem?.mp listed

end Knowledge

theorem Ty.exists_literal {ty : Ty} (modelled : ty.isModelled = true) : ∃ c : Literal, c.ty = ty := by
  cases ty with
  | int => exact ⟨.int 0, rfl⟩
  | bool => exact ⟨.bool false, rfl⟩
  | record name => cases modelled

theorem Element.mem_vars_of_target? {e : Element} {v : Var} (target : v ∈ e.target?) : v ∈ e.vars := by
  obtain ⟨⟨w, source⟩, writes, rfl⟩ := Option.map_eq_some_iff.mp target
  rcases Element.write?_eq_some.mp writes with rfl | rfl <;> exact List.mem_cons_self

/-- A well-typed body that a run does not refuse can be executed along any blocks. -/
theorem Body.WellTyped.exists_executes {body : Body} (wellTyped : body.WellTyped)
    (fine : (Knowledge.ofBody body).bodyError? body = none) (blocks : List Block) :
    ∃ store, body.Executes (body.elementsOf blocks) .empty store := by
  refine exists_along (wellTyped.elementsOf blocks) (fun e mem target written ty ofTarget => ?_) Store.typed_empty
  obtain ⟨b, _, inside⟩ := List.mem_flatMap.mp mem
  have allowed := Knowledge.bodyError?_eq_none_iff.mp fine b e inside target (Element.mem_vars_of_target? written)
  obtain ⟨ty', declared, modelled⟩ := Knowledge.refusal?_eq_none_iff.mp allowed
  rw [Knowledge.ty?_ofBody] at declared
  cases ofTarget.symm.trans declared
  exact Ty.exists_literal modelled

end ForwardFlow
