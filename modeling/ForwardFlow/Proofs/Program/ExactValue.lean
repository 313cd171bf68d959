import ForwardFlow.Proofs.Program.Execution

namespace ForwardFlow

/-- A value with no limit on the integers. -/
inductive Exact
  | int (n : Int)
  | bool (b : Bool)
deriving DecidableEq

def Literal.exact : Literal → Exact
  | .int n => .int n.toInt
  | .bool b => .bool b

/-- The result of an operator on two values it is made for. -/
def BinOp.exactResult? : BinOp → Exact → Exact → Option Exact
  | .add, .int a, .int b => some (.int (a + b))
  | .sub, .int a, .int b => some (.int (a - b))
  | .mul, .int a, .int b => some (.int (a * b))
  | .lt, .int a, .int b => some (.bool (decide (a < b)))
  | .eq, .int a, .int b => some (.bool (decide (a = b)))
  | .eq, .bool a, .bool b => some (.bool (decide (a = b)))
  | .ne, .int a, .int b => some (.bool (decide (a ≠ b)))
  | .ne, .bool a, .bool b => some (.bool (decide (a ≠ b)))
  | .and, .bool a, .bool b => some (.bool (a && b))
  | .or, .bool a, .bool b => some (.bool (a || b))
  | _, _, _ => none

def Exact.not? : Exact → Option Exact
  | .bool b => some (.bool !b)
  | .int _ => none

def Operand.exactValue? (o : Operand) (store : Store) : Option Exact := (o.value? store).map Literal.exact

/-- The value of an expression in a store as mathematics has it. There is none if a variable without a value is read, if
an operator is not made for its operands, or for a call. -/
def Expr.exactValue? (store : Store) : Expr → Option Exact
  | .use o => o.exactValue? store
  | .not o => (o.exactValue? store).bind Exact.not?
  | .binary op l r => (l.exactValue? store).bind fun a => (r.exactValue? store).bind fun b => op.exactResult? a b
  | .call _ _ => none

/-- What a right-hand side may give: its exact value where there is one that fits a word, and anything elsewhere, such
as for a call or after an overflow. -/
def Expr.MayGive (store : Store) (source : Expr) (value : Option Literal) : Prop :=
  ∀ c : Literal, source.exactValue? store = some c.exact → value = some c

/-- What an element does to a store, whatever types the variables have. -/
inductive Element.Runs : Element → Store → Store → Prop
  | write {e target source store value} : e.write? = some (target, source) → source.MayGive store value →
      Runs e store (Function.update store target value)
  | scopeEnd {v store} : Runs (.scopeEnd v) store (Function.update store v none)
  | idle {e store} : e.write? = none → (∀ v, e ≠ .scopeEnd v) → Runs e store store

theorem Literal.exact_inj {c d : Literal} (same : c.exact = d.exact) : c = d := by
  cases c with
  | int m =>
    cases d with
    | int n => exact congrArg int (Int64.toInt_inj.mp (Exact.int.inj same))
    | bool b => cases same
  | bool a =>
    cases d with
    | int n => cases same
    | bool b => exact congrArg bool (Exact.bool.inj same)

theorem Literal.IsOrOverflows.eq_of_exact {n : Int} {c d : Literal} (result : c.IsOrOverflows n)
    (given : Exact.int n = d.exact) : c = d := by
  cases c with
  | bool b => cases result
  | int m =>
    cases d with
    | bool b => cases given
    | int word => exact congrArg int (Literal.IsOrOverflows.eq result (Exact.int.inj given).symm).symm

/-- An operator gives nothing but its exact result, where that fits a word. -/
theorem BinOp.Yields.eq_of_exact {op : BinOp} {a b c d : Literal} (yields : op.Yields a b c)
    (given : op.exactResult? a.exact b.exact = some d.exact) : c = d := by
  have truth {p q : Prop} [Decidable p] [Decidable q] (same : p ↔ q) (yields : c = .bool (decide p))
      (given : some (Exact.bool (decide q)) = some d.exact) : c = d := by
    refine Literal.exact_inj (Eq.trans ?_ (Option.some.inj given))
    rw [yields, decide_eq_decide.mpr same]
    rfl
  cases a with
  | int m =>
    cases b with
    | bool n => cases op <;> cases given
    | int n =>
      cases op with
      | add | sub | mul => exact Literal.IsOrOverflows.eq_of_exact yields (Option.some.inj given)
      | lt => exact truth Iff.rfl yields given
      | eq => exact truth Int64.toInt_inj.symm yields given
      | ne => exact truth Int64.toInt_inj.symm.not yields given
      | and | or => cases yields
  | bool m =>
    cases b with
    | int n => cases op <;> cases given
    | bool n =>
      cases op with
      | add | sub | mul | lt => cases yields
      | eq | ne | and | or =>
        cases yields
        exact Literal.exact_inj (Option.some.inj given)

/-- An expression that reads a variable without a value has none. -/
theorem Expr.exactValue?_of_missing {store : Store} {source : Expr} {o : Operand} (mem : o ∈ source.operands)
    (missing : o.value? store = none) : source.exactValue? store = none := by
  have nothing : o.exactValue? store = none := by rw [Operand.exactValue?, missing]; rfl
  cases source with
  | call => rfl
  | use l =>
    cases List.mem_singleton.mp mem
    exact nothing
  | not l =>
    cases List.mem_singleton.mp mem
    rw [exactValue?, nothing]
    rfl
  | binary op l r =>
    rcases List.mem_cons.mp mem with rfl | rest
    · rw [exactValue?, nothing]
      rfl
    · cases List.mem_singleton.mp rest
      rw [exactValue?, nothing]
      cases l.exactValue? store <;> rfl

theorem Expr.exists_mayGive (store : Store) (source : Expr) : ∃ value, source.MayGive store value := by
  by_cases fits : ∃ c : Literal, source.exactValue? store = some c.exact
  · obtain ⟨c, value⟩ := fits
    exact ⟨some c, fun d value' => congrArg some (Literal.exact_inj (Option.some.inj (value.symm.trans value')))⟩
  · exact ⟨none, fun c value => absurd ⟨c, value⟩ fits⟩

theorem Element.exists_runs (e : Element) (store : Store) : ∃ store', e.Runs store store' := by
  obtain ⟨target, source, writes⟩ | ⟨v, rfl⟩ | ⟨idle, inScope⟩ := e.writes_or_ends_or_idle
  · obtain ⟨value, gives⟩ := source.exists_mayGive store
    exact ⟨_, .write writes gives⟩
  · exact ⟨_, .scopeEnd⟩
  · exact ⟨store, .idle idle inScope⟩

theorem Expr.Yields.mayGive {ty : Ty} {store : Store} {source : Expr} {value : Option Literal}
    (yields : source.Yields ty store value) : source.MayGive store value := by
  intro c given
  cases yields with
  | call => cases given
  | use value =>
    rw [exactValue?, Operand.exactValue?, value] at given
    exact congrArg some (Literal.exact_inj (Option.some.inj given))
  | not value =>
    rw [exactValue?, Operand.exactValue?, value] at given
    exact congrArg some (Literal.exact_inj (Option.some.inj given))
  | binary left right yields =>
    rw [exactValue?, Operand.exactValue?, left, Operand.exactValue?, right] at given
    exact congrArg some (yields.eq_of_exact given)
  | undefined mem missing =>
    rw [exactValue?_of_missing mem missing] at given
    cases given

/-- What a program with declared types does is one of the things that may happen whatever the types are. -/
theorem Element.Step.runs {types : Var → Option Ty} {e : Element} {store store' : Store}
    (step : e.Step types store store') : e.Runs store store' := by
  cases step with
  | write writes _ yields => exact .write writes yields.mayGive
  | scopeEnd => exact .scopeEnd
  | idle writes ends => exact .idle writes ends

end ForwardFlow
