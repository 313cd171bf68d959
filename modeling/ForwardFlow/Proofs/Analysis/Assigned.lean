import ForwardFlow.Analysis.Assigned
import ForwardFlow.Proofs.Analysis.Transfer
import ForwardFlow.Proofs.Lasting
import ForwardFlow.Proofs.Lattice.MustSet

namespace ForwardFlow

/-- Some element writes the variable, and no later one ends its scope. -/
def Assigned (x : Var) (elements : List Element) : Prop :=
  ∃ before e after, elements = before ++ e :: after ∧ e.target? = some x ∧ .scopeEnd x ∉ after

variable {x : Var} {e : Element} {front back elements : List Element} {m : MustSet Var}

theorem not_assigned_nil : ¬Assigned x [] := not_lasting_nil

theorem assigned_snoc : Assigned x (elements ++ [e]) ↔ e.target? = some x ∨ Assigned x elements ∧ .scopeEnd x ≠ e :=
  lasting_snoc

theorem assigned_append :
    Assigned x (front ++ back) ↔ Assigned x back ∨ Assigned x front ∧ .scopeEnd x ∉ back := lasting_append

/-- What an element does to the set of the assigned variables. -/
def Element.assign : Element → MustSet Var → MustSet Var
  | .scopeEnd v, m => m.erase v
  | e, m => e.target?.elim m m.insert

theorem mem_assign : x ∈ (e.assign m).elems ↔ e.target? = some x ∨ x ∈ m.elems ∧ .scopeEnd x ≠ e := by
  cases e with
  | scopeEnd v => simp [Element.assign, Element.target?, Element.write?, MustSet.mem_erase, and_comm, eq_comm (a := v)]
  | init v source => simp [Element.assign, Element.target?, Element.write?, MustSet.mem_insert]
  | stmt s => cases s <;> simp [Element.assign, Element.target?, Element.write?, MustSet.mem_insert]

/-- What an element brings about by writing the variable and takes away by ending its scope, elements one after another
bring about if the variable is assigned along them, and leave if its scope does not end. -/
theorem actAll_iff_assigned {L : Type} {act : Element → L → L} {P : L → Prop}
    (step : ∀ e a, P (act e a) ↔ e.target? = some x ∨ P a ∧ .scopeEnd x ≠ e) (a : L) :
    P (Pass.actAll act elements a) ↔ Assigned x elements ∨ P a ∧ .scopeEnd x ∉ elements := by
  induction elements using List.reverseRecOn with
  | nil => simp [Pass.actAll, not_assigned_nil]
  | append_singleton elements e ih =>
    have last : Pass.actAll act (elements ++ [e]) a = act e (Pass.actAll act elements a) := by simp [Pass.actAll]
    rw [last, step, ih, assigned_snoc, List.mem_append, List.mem_singleton]
    tauto

theorem mem_assignAll : x ∈ (Pass.actAll Element.assign elements m).elems ↔
    Assigned x elements ∨ x ∈ m.elems ∧ .scopeEnd x ∉ elements :=
  actAll_iff_assigned (P := fun m : MustSet Var => x ∈ m.elems) (fun _ _ => mem_assign) m

theorem assign_mono (e : Element) : Monotone e.assign := by
  intro s t le a mem
  exact mem_assign.mpr ((mem_assign.mp mem).imp_right fun ⟨old, other⟩ => ⟨le a old, other⟩)

theorem assigned_acts (models : List Model) :
    Pass.ActsBy { analysis := Analysis.assigned, models } (fun _ => True) Element.assign where
  lattice s e _ := by
    cases e with
    | scopeEnd v => rfl
    | init v source => rfl
    | stmt s => cases s <;> rfl
  known _ _ _ := trivial
  join _ _ _ _ := trivial

end ForwardFlow
