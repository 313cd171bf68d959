import ForwardFlow.Proofs.Knowledge.Fits

namespace ForwardFlow

/-- The type of the values a fact is true of. -/
def Fact.ty : Fact → Ty
  | .int _ => .int
  | .bool _ => .bool
  | .range _ _ => .int

/-- What is known of a variable fits its type. -/
def Knowledge.Typed (types : Var → Option Ty) (k : Knowledge) : Prop :=
  ∀ x fact, k.fact? x = some fact → types x = some fact.ty

/-- What a merger picks for two facts has the type of the first one. -/
def Merger.KeepsTy (pick : Ty → Fact → Fact → Option Fact) : Prop :=
  ∀ ty a b fact, pick ty a b = some fact → fact.ty = a.ty

namespace Fact

variable {a b fact : Fact}

theorem ty_ofLiteral (c : Literal) : (ofLiteral c).ty = c.ty := by
  cases c <;> rfl

theorem ty_of_not? (result : a.not? = some fact) : fact.ty = .bool := by
  cases a <;> cases result
  rfl

theorem ty_of_binary? {op : BinOp} {operand ty : Ty} (hasTy : op.HasTy operand ty)
    (result : binary? op a b = some fact) : fact.ty = ty := by
  have arith {checked : Option Int64} (result : checked.map Fact.int = some fact) : fact.ty = .int := by
    obtain ⟨_, _, rfl⟩ := Option.map_eq_some_iff.mp result
    rfl
  cases a with
  | range _ _ => cases hasTy <;> cases result
  | bool m => cases b <;> cases hasTy <;> cases result <;> rfl
  | int m =>
    cases b with
    | range _ _ => cases hasTy <;> cases result
    | bool _ => cases hasTy <;> cases result
    | int n =>
      cases hasTy with
      | add | sub | mul => exact arith result
      | lt | eq | ne =>
        cases result
        rfl
      | and | or => cases result

end Fact

namespace Merger

theorem keepsTy_strict : KeepsTy fun _ _ _ => none := by
  intro _ _ _ _ picked
  cases picked

theorem keepsTy_ranges : KeepsTy fun ty a b => if ty = .int then around? a b else none := by
  intro ty a b fact picked
  obtain ⟨_, around⟩ := Option.ite_none_right_eq_some.mp picked
  match a, b, around with
  | .int _, .int _, rfl | .int _, .range _ _, rfl | .range _ _, .int _, rfl | .range _ _, .range _ _, rfl => rfl

end Merger

namespace Knowledge

variable {types : Var → Option Ty} {k l : Knowledge} {ty : Ty} {fact : Fact}

theorem typed_ofBody {body : Body} : (ofBody body).Typed types := by
  intro x fact known
  cases (fact?_ofBody body x).symm.trans known

namespace Typed

theorem operand? (typed : k.Typed types) {o : Operand} (hasTy : o.HasTy types ty)
    (known : k.operand? o = some fact) : fact.ty = ty := by
  cases o with
  | lit c =>
    cases known
    exact (Fact.ty_ofLiteral c).trans hasTy
  | var v => exact Option.some.inj ((typed v fact known).symm.trans hasTy)

theorem eval? (typed : k.Typed types) {source : Expr} (hasTy : source.HasTy types ty)
    (known : k.eval? source = some fact) : fact.ty = ty := by
  cases hasTy with
  | use operand => exact typed.operand? operand known
  | not _ =>
    obtain ⟨a, _, result⟩ := Option.bind_eq_some_iff.mp known
    exact Fact.ty_of_not? result
  | binary op _ _ =>
    obtain ⟨a, _, rest⟩ := Option.bind_eq_some_iff.mp known
    obtain ⟨b, _, result⟩ := Option.bind_eq_some_iff.mp rest
    exact Fact.ty_of_binary? op result
  | call => cases known

theorem apply (typed : k.Typed types) {e : Element} (wellTyped : e.WellTyped types) : (k.apply e).Typed types := by
  intro x fact known
  obtain old | ⟨source, writes, value⟩ := fact?_apply known
  · exact typed x fact old
  · obtain ⟨ty, ofTarget, hasTy⟩ := wellTyped x source writes
    rw [ofTarget, typed.eval? hasTy value]

theorem join {merger : Merger} {pick : Ty → Fact → Fact → Option Fact} (picks : merger.Picks pick)
    (keeps : Merger.KeepsTy pick) (typed : k.Typed types) : (k.join merger l).Typed types := by
  intro x fact known
  obtain ⟨atK, _⟩ | ⟨a, b, ty, atK, _, _, _, picked⟩ := fact?_join_cases picks known
  · exact typed x fact atK
  · rw [typed x a atK, keeps ty a b fact picked]

end Typed

end Knowledge

end ForwardFlow
