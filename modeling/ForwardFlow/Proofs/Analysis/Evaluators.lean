import ForwardFlow.Analysis.Constants
import ForwardFlow.Proofs.Lattice.Pointwise

namespace ForwardFlow

theorem Flat.ofOption_eq_value_iff {α : Type} {o : Option α} {a : α} : ofOption o = .value a ↔ o = some a := by
  cases o <;> simp [ofOption]

theorem Flat.top_or_bottom {α : Type} {s : Flat α} (other : ∀ a, s ≠ .value a) : s = .top ∨ s = .bottom := by
  cases s with
  | bottom => exact Or.inr rfl
  | value a => exact absurd rfl (other a)
  | top => exact Or.inl rfl

namespace Fact

/-- Only sums, differences and products are known to be integers, and those only of integers. -/
theorem binary?_eq_int_iff {op : BinOp} {a b : Fact} {n : Int64} :
    binary? op a b = some (.int n) ↔ ∃ i j, a = .int i ∧ b = .int j ∧ Constants.fold? op i j = some n := by
  have arith (checked : Option Int64) : checked.map Fact.int = some (.int n) ↔ checked = some n := by
    cases checked <;> simp
  cases a with
  | range low high => cases op <;> simp [binary?]
  | bool a => cases b <;> cases op <;> simp [binary?]
  | int i =>
    cases b with
    | range low high => cases op <;> simp [binary?]
    | bool b => cases op <;> simp [binary?]
    | int j => cases op <;> simp [binary?, Constants.fold?, arith]

theorem not?_ne_int {a : Fact} {n : Int64} : a.not? ≠ some (.int n) := by
  cases a <;> simp [not?]

theorem none_or_bool_or_range {known : Option Fact} (other : ∀ n, known ≠ some (.int n)) :
    known = none ∨ (∃ b, known = some (.bool b)) ∨ ∃ low high, known = some (.range low high) := by
  cases known with
  | none => exact .inl rfl
  | some fact =>
    cases fact with
    | int n => exact absurd rfl (other n)
    | bool b => exact .inr (.inl ⟨b, rfl⟩)
    | range low high => exact .inr (.inr ⟨low, high, rfl⟩)

end Fact

section Binary

variable {op : BinOp} {l r : Operand} {n : Int64}

theorem Knowledge.eval?_binary_eq_int_iff {k : Knowledge} : k.eval? (.binary op l r) = some (.int n) ↔
    ∃ i j, k.operand? l = some (.int i) ∧ k.operand? r = some (.int j) ∧ Constants.fold? op i j = some n := by
  constructor
  · intro known
    obtain ⟨a, atL, rest⟩ := Option.bind_eq_some_iff.mp known
    obtain ⟨b, atR, result⟩ := Option.bind_eq_some_iff.mp rest
    obtain ⟨i, j, rfl, rfl, folds⟩ := Fact.binary?_eq_int_iff.mp result
    exact ⟨i, j, atL, atR, folds⟩
  · rintro ⟨i, j, atL, atR, folds⟩
    have result : Fact.binary? op (.int i) (.int j) = some (.int n) :=
      Fact.binary?_eq_int_iff.mpr ⟨i, j, rfl, rfl, folds⟩
    exact Option.bind_eq_some_iff.mpr ⟨_, atL, Option.bind_eq_some_iff.mpr ⟨_, atR, result⟩⟩

theorem Constants.eval_binary_eq_value_iff {constants : Constants} : constants.eval (.binary op l r) = .value n ↔
    ∃ i j, constants.operand l = .value i ∧ constants.operand r = .value j ∧ fold? op i j = some n := by
  dsimp only [eval]
  generalize constants.operand l = a, constants.operand r = b
  cases a with
  | value i =>
    cases b with
    | value j => simp [Flat.ofOption_eq_value_iff]
    | _ => simp
  | _ => cases b <;> simp

end Binary

namespace Constants

variable {constants : Constants} {k : Knowledge} {n : Int64}

/-- The same variables have the same integers on both sides. -/
def SameInts (constants : Constants) (k : Knowledge) : Prop :=
  ∀ v n, constants.get? v = some (.value n) ↔ k.fact? v = some (.int n)

theorem SameInts.operand (same : SameInts constants k) (o : Operand) :
    constants.operand o = .value n ↔ k.operand? o = some (.int n) := by
  cases o with
  | lit literal => cases literal <;> simp [Constants.operand, Knowledge.operand?, Fact.ofLiteral]
  | var v =>
    refine Iff.trans ?_ (same v n)
    rw [Constants.operand]
    cases constants.get? v <;> simp

theorem SameInts.eval (same : SameInts constants k) (source : Expr) :
    constants.eval source = .value n ↔ k.eval? source = some (.int n) := by
  cases source with
  | use o => exact same.operand o
  | call callee args => exact iff_of_false (fun value => nomatch value) fun known => nomatch known
  | not o =>
    refine iff_of_false (fun value => nomatch value) fun known => ?_
    obtain ⟨a, _, result⟩ := Option.bind_eq_some_iff.mp known
    exact Fact.not?_ne_int result
  | binary op l r => simp only [eval_binary_eq_value_iff, Knowledge.eval?_binary_eq_int_iff, same.operand]

/-- The two ways in which an expression is evaluated agree on integers. Where the constants and what is known have the
same integers, an expression has an integer constant just where it is known to be that integer. Elsewhere the one gives
no constant, and the other nothing, a truth value or bounds. -/
theorem eval_agrees (same : ∀ v n, constants.get? v = some (.value n) ↔ k.fact? v = some (.int n)) (source : Expr) :
    (∀ n, constants.eval source = .value n ↔ k.eval? source = some (.int n)) ∧
    ((∀ n, constants.eval source ≠ .value n) →
      (constants.eval source = .top ∨ constants.eval source = .bottom) ∧
      (k.eval? source = none ∨ (∃ b, k.eval? source = some (.bool b)) ∨
        ∃ low high, k.eval? source = some (.range low high))) := by
  have agree (n : Int64) := SameInts.eval (n := n) same source
  refine ⟨agree, fun other => ⟨Flat.top_or_bottom other, Fact.none_or_bool_or_range fun n known => ?_⟩⟩
  exact other n ((agree n).mpr known)

/-- The sum of the greatest integer and one is no constant and not known, while their difference is on both sides. -/
theorem eval_agrees_at_limit :
    let greatest : Int64 := 9223372036854775807
    let constants : Constants := (Pointwise.empty.insert (.slot 0) (.value greatest)).insert (.slot 1) .top
    let known : Knowledge := (Knowledge.empty.learn (.slot 0) (.int greatest)).learn (.slot 1) (.range 0 5)
    let sum : Expr := .binary .add (.var (.slot 0)) (.lit (.int 1))
    let difference : Expr := .binary .sub (.var (.slot 0)) (.lit (.int 1))
    (∀ v n, constants.get? v = some (.value n) ↔ known.fact? v = some (.int n)) ∧
      constants.eval sum = .top ∧ (∀ n, known.eval? sum ≠ some (.int n)) ∧
      constants.eval difference = .value 9223372036854775806 ∧
      known.eval? difference = some (.int 9223372036854775806) := by
  intro greatest constants known sum difference
  have same (v : Var) (n : Int64) : constants.get? v = some (.value n) ↔ known.fact? v = some (.int n) := by
    have noConstant : (Pointwise.empty : Constants).get? v = none := Std.ExtTreeMap.getElem?_empty
    have noFact : Knowledge.empty.fact? v = none := Std.ExtTreeMap.getElem?_empty
    simp only [constants, known, Pointwise.get?_insert, Knowledge.fact?_learn, noConstant, noFact]
    split
    · simp
    split
    · simp
    · simp
  have overflows : constants.eval sum = .top := by decide +kernel
  have fits : constants.eval difference = .value 9223372036854775806 := by decide +kernel
  refine ⟨same, overflows, fun n known => ?_, fits, ((eval_agrees same difference).1 _).mp fits⟩
  have value := ((eval_agrees same sum).1 n).mpr known
  cases overflows.symm.trans value

end Constants

end ForwardFlow
