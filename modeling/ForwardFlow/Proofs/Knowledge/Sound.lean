import ForwardFlow.Proofs.Knowledge.Join
import ForwardFlow.Proofs.Program.ExactValue

namespace ForwardFlow

/-- The greater of two words is their least upper bound. -/
instance instLawfulOrderLeftLeaningMaxInt64 : Std.LawfulOrderLeftLeaningMax Int64 where
  max_eq_left a b below := by
    show (if a ≤ b then b else a) = a
    split
    · rename_i above
      exact Int64.le_antisymm below above
    · rfl
  max_eq_right a b above := if_pos ((Int64.le_total a b).resolve_right above)

/-- The values a fact is true of. -/
def Fact.Describes : Fact → Literal → Prop
  | .int n, c => c = .int n
  | .bool b, c => c = .bool b
  | .range low high, c => ∃ n, c = .int n ∧ low ≤ n ∧ n ≤ high

/-- What is known of the store is true of every variable that has a value. -/
def Knowledge.Describes (k : Knowledge) (store : Store) : Prop :=
  ∀ x fact c, k.fact? x = some fact → store x = some c → fact.Describes c

/-- What is known holds in a store: a variable of which something is known has a value, of which that is true. Of the
other variables nothing is said. -/
def Knowledge.Holds (k : Knowledge) (store : Store) : Prop :=
  ∀ x fact, k.fact? x = some fact → ∃ c, store x = some c ∧ fact.Describes c

namespace Fact

variable {a b fact : Fact} {c d : Literal}

theorem ofLiteral_describes (c : Literal) : (ofLiteral c).Describes c := by
  cases c <;> rfl

theorem exists_exact_not? (result : a.not? = some fact) (describes : a.Describes c) :
    ∃ value : Literal, c.exact.not? = some value.exact ∧ fact.Describes value := by
  cases a with
  | int n => cases result
  | range low high => cases result
  | bool b =>
    cases describes
    cases result
    exact ⟨.bool !b, rfl, rfl⟩

theorem exists_exact_binary? {op : BinOp} (result : binary? op a b = some fact) (left : a.Describes c)
    (right : b.Describes d) :
    ∃ value : Literal, op.exactResult? c.exact d.exact = some value.exact ∧ fact.Describes value := by
  have word {exact : Int} {checked : Option Int64} (only : ∀ word, checked = some word → word.toInt = exact)
      (result : checked.map Fact.int = some fact) :
      ∃ value : Literal, some (Exact.int exact) = some value.exact ∧ fact.Describes value := by
    obtain ⟨word, found, rfl⟩ := Option.map_eq_some_iff.mp result
    exact ⟨.int word, congrArg (fun n => some (Exact.int n)) (only word found).symm, rfl⟩
  have truth {p q : Prop} [Decidable p] [Decidable q] (same : p ↔ q)
      (result : some (Fact.bool (decide p)) = some fact) :
      ∃ value : Literal, some (Exact.bool (decide q)) = some value.exact ∧ fact.Describes value := by
    cases result
    exact ⟨.bool (decide p), congrArg (fun b => some (Exact.bool b)) (decide_eq_decide.mpr same.symm), rfl⟩
  cases a with
  | range low high => cases op <;> cases result
  | int m =>
    cases b with
    | range low high => cases op <;> cases result
    | bool b => cases op <;> cases result
    | int n =>
      cases left
      cases right
      cases op with
      | add => exact word (fun _ => Checked.add?_eq_some_iff.mp) result
      | sub => exact word (fun _ => Checked.sub?_eq_some_iff.mp) result
      | mul => exact word (fun _ => Checked.mul?_eq_some_iff.mp) result
      | lt => exact truth Int64.lt_iff_toInt_lt result
      | eq => exact truth Int64.toInt_inj.symm result
      | ne => exact truth Int64.toInt_inj.symm.not result
      | and => cases result
      | or => cases result
  | bool m =>
    cases b with
    | range low high => cases op <;> cases result
    | int n => cases op <;> cases result
    | bool n =>
      cases left
      cases right
      cases op <;> cases result <;> exact ⟨_, rfl, rfl⟩

theorem not?_describes {value : Bool} (result : a.not? = some fact) (describes : a.Describes (.bool value)) :
    fact.Describes (.bool !value) := by
  obtain ⟨c, negated, describes'⟩ := exists_exact_not? result describes
  rwa [Literal.exact_inj (Option.some.inj negated : Literal.exact (.bool !value) = c.exact)]

theorem binary?_describes {op : BinOp} {value : Literal} (result : binary? op a b = some fact)
    (left : a.Describes c) (right : b.Describes d) (yields : op.Yields c d value) : fact.Describes value := by
  obtain ⟨exact, only, describes⟩ := exists_exact_binary? result left right
  rwa [yields.eq_of_exact only]

end Fact

/-- What a merger picks is true of whatever one of the two facts is true of. -/
def Merger.Widens (pick : Ty → Fact → Fact → Option Fact) : Prop :=
  ∀ ty a b fact c, pick ty a b = some fact → a.Describes c ∨ b.Describes c → fact.Describes c

namespace Merger

theorem widens_strict : Widens fun _ _ _ => none := by
  intro _ _ _ _ _ picked
  cases picked

theorem bounds?_spec {a : Fact} {low high : Int64} {c : Literal} (bounds : bounds? a = some (low, high))
    (describes : a.Describes c) : ∃ n, c = .int n ∧ low ≤ n ∧ n ≤ high := by
  cases a with
  | int n =>
    cases bounds
    exact ⟨_, describes, Int64.le_refl _, Int64.le_refl _⟩
  | range _ _ =>
    cases bounds
    exact describes
  | bool b => cases bounds

theorem widens_ranges : Widens fun ty a b => if ty = .int then around? a b else none := by
  intro ty a b fact c picked either
  rw [Option.ite_none_right_eq_some] at picked
  obtain ⟨_, around⟩ := picked
  simp only [around?, Option.bind_eq_bind, Option.bind_eq_some_iff, Option.pure_def, Option.some.injEq] at around
  obtain ⟨⟨alow, ahigh⟩, left, ⟨blow, bhigh⟩, right, rfl⟩ := around
  obtain describes | describes := either
  · obtain ⟨n, same, low, high⟩ := bounds?_spec left describes
    exact ⟨n, same, Int64.le_trans Std.min_le_left low, Int64.le_trans high Std.left_le_max⟩
  · obtain ⟨n, same, low, high⟩ := bounds?_spec right describes
    exact ⟨n, same, Int64.le_trans Std.min_le_right low, Int64.le_trans high Std.right_le_max⟩

end Merger

namespace Knowledge

variable {k l : Knowledge} {store store' : Store} {types : Var → Option Ty} {fact : Fact} {c : Literal}

theorem describes_empty (k : Knowledge) : k.Describes .empty := by
  intro x fact c _ value
  cases value

theorem operand?_describes (describes : k.Describes store) {o : Operand} (known : k.operand? o = some fact)
    (value : o.value? store = some c) : fact.Describes c := by
  cases o with
  | lit literal =>
    cases known
    cases value
    exact Fact.ofLiteral_describes _
  | var v => exact describes v fact c known value

theorem eval?_describes (describes : k.Describes store) {ty : Ty} {source : Expr} (known : k.eval? source = some fact)
    (yields : source.Yields ty store (some c)) : fact.Describes c := by
  cases yields with
  | use value => exact operand?_describes describes known value
  | not value =>
    obtain ⟨a, atO, result⟩ := Option.bind_eq_some_iff.mp known
    exact Fact.not?_describes result (operand?_describes describes atO value)
  | binary left right yields =>
    obtain ⟨a, atL, rest⟩ := Option.bind_eq_some_iff.mp known
    obtain ⟨b, atR, result⟩ := Option.bind_eq_some_iff.mp rest
    exact Fact.binary?_describes result (operand?_describes describes atL left) (operand?_describes describes atR right)
      yields
  | call => cases known

/-- What relates what is known of each variable to its value is kept if both are updated in step. -/
theorem forall_update {P : Option Fact → Option Literal → Prop} (rest : ∀ x, P (k.fact? x) (store x)) {v : Var}
    {known : Option Fact} {value : Option Literal} (here : P known value) (x : Var) :
    P ((k.update v known).fact? x) (Function.update store v value x) := by
  rw [fact?_update]
  by_cases same : v = x
  · subst same
    rwa [if_pos rfl, Function.update_self]
  · rw [if_neg same, Function.update_of_ne (Ne.symm same)]
    exact rest x

theorem update_describes (describes : k.Describes store) {v : Var} {known : Option Fact} {value : Option Literal}
    (here : ∀ fact c, known = some fact → value = some c → fact.Describes c) :
    (k.update v known).Describes (Function.update store v value) :=
  forall_update (P := fun known value => ∀ fact c, known = some fact → value = some c → fact.Describes c) describes here

theorem holds_of_unknown (unknown : ∀ x, k.fact? x = none) : k.Holds store := fun x _ found =>
  nomatch (unknown x).symm.trans found

theorem Holds.update (holds : k.Holds store) {v : Var} {known : Option Fact} {value : Option Literal}
    (here : ∀ fact, known = some fact → ∃ c, value = some c ∧ fact.Describes c) :
    (k.update v known).Holds (Function.update store v value) :=
  forall_update (P := fun known value => ∀ fact, known = some fact → ∃ c, value = some c ∧ fact.Describes c) holds here

theorem apply_of_write {e : Element} {target : Var} {source : Expr} (writes : e.write? = some (target, source)) :
    k.apply e = k.update target (k.eval? source) := by
  rcases Element.write?_eq_some.mp writes with rfl | rfl <;> rfl

theorem apply_of_idle {e : Element} (idle : e.write? = none) (inScope : ∀ v, e ≠ .scopeEnd v) : k.apply e = k := by
  cases e with
  | scopeEnd v => exact absurd rfl (inScope v)
  | init v source => cases idle
  | stmt s =>
    cases s with
    | assign v source => cases idle
    | _ => rfl

/-- What is known after an element is true of the store after it. -/
theorem apply_describes {e : Element} (step : e.Step types store store') (describes : k.Describes store) :
    (k.apply e).Describes store' := by
  cases step with
  | write writes _ yields =>
    rw [apply_of_write writes]
    refine update_describes describes fun fact c known value => ?_
    subst value
    exact eval?_describes describes known yields
  | @scopeEnd v _ =>
    have nothing (fact : Fact) (c : Literal) (known : none = some fact) (_ : none = some c) : fact.Describes c := by
      cases known
    exact update_describes describes nothing
  | idle writes ends =>
    rw [apply_of_idle writes ends]
    exact describes

/-- Where a join knows a fact of a variable, both sides know one, and the fact of the join is true of all values that
either of them is true of. -/
theorem exists_of_fact?_join {merger : Merger} {pick : Ty → Fact → Fact → Option Fact} (picks : merger.Picks pick)
    (widens : Merger.Widens pick) {x : Var} (known : (k.join merger l).fact? x = some fact) :
    ∃ a b, k.fact? x = some a ∧ l.fact? x = some b ∧ ∀ c, a.Describes c ∨ b.Describes c → fact.Describes c := by
  obtain ⟨atK, atL⟩ | ⟨a, b, ty, atK, atL, _, _, picked⟩ := fact?_join_cases picks known
  · exact ⟨fact, fact, atK, atL, fun c one => one.elim id id⟩
  · exact ⟨a, b, atK, atL, fun c one => widens ty a b fact c picked one⟩

/-- A join is true of the stores either side is true of. -/
theorem join_describes {merger : Merger} {pick : Ty → Fact → Fact → Option Fact} (picks : merger.Picks pick)
    (widens : Merger.Widens pick) (either : k.Describes store ∨ l.Describes store) :
    (k.join merger l).Describes store := by
  intro x fact c found value
  obtain ⟨a, b, atK, atL, wider⟩ := exists_of_fact?_join picks widens found
  exact wider c (either.imp (fun describes => describes x a c atK value) fun describes => describes x b c atL value)

/-- A join holds in the stores in which either side holds. -/
theorem join_holds {merger : Merger} {pick : Ty → Fact → Fact → Option Fact} (picks : merger.Picks pick)
    (widens : Merger.Widens pick) (either : k.Holds store ∨ l.Holds store) : (k.join merger l).Holds store := by
  intro x fact found
  obtain ⟨a, b, atK, atL, wider⟩ := exists_of_fact?_join picks widens found
  obtain holds | holds := either
  · obtain ⟨c, value, describes⟩ := holds x a atK
    exact ⟨c, value, wider c (.inl describes)⟩
  · obtain ⟨c, value, describes⟩ := holds x b atL
    exact ⟨c, value, wider c (.inr describes)⟩

end Knowledge

end ForwardFlow
