import ForwardFlow.Proofs.Knowledge.Sound

namespace ForwardFlow

namespace Knowledge

variable {k : Knowledge} {store store' : Store} {fact : Fact}

theorem Holds.operand? (holds : k.Holds store) {o : Operand} (known : k.operand? o = some fact) :
    ∃ value, o.value? store = some value ∧ fact.Describes value := by
  cases o with
  | lit literal =>
    cases known
    exact ⟨literal, rfl, Fact.ofLiteral_describes literal⟩
  | var v => exact holds v fact known

/-- What is known of an expression is true of its exact value, which is there and fits a word. -/
theorem Holds.eval? (holds : k.Holds store) {source : Expr} (known : k.eval? source = some fact) :
    ∃ value : Literal, source.exactValue? store = some value.exact ∧ fact.Describes value := by
  have operand {o : Operand} {fact : Fact} (known : k.operand? o = some fact) :
      ∃ value : Literal, o.exactValue? store = some value.exact ∧ fact.Describes value := by
    obtain ⟨value, found, describes⟩ := holds.operand? known
    exact ⟨value, by rw [Operand.exactValue?, found]; rfl, describes⟩
  cases source with
  | use o => exact operand known
  | call callee args => cases known
  | not o =>
    obtain ⟨a, atO, result⟩ := Option.bind_eq_some_iff.mp known
    obtain ⟨c, value, describes⟩ := operand atO
    obtain ⟨d, negated, describes'⟩ := Fact.exists_exact_not? result describes
    exact ⟨d, by rw [Expr.exactValue?, value]; exact negated, describes'⟩
  | binary op l r =>
    obtain ⟨a, atL, rest⟩ := Option.bind_eq_some_iff.mp known
    obtain ⟨b, atR, result⟩ := Option.bind_eq_some_iff.mp rest
    obtain ⟨c, left, describes⟩ := operand atL
    obtain ⟨d, right, describes'⟩ := operand atR
    obtain ⟨value, given, describes''⟩ := Fact.exists_exact_binary? result describes describes'
    exact ⟨value, by rw [Expr.exactValue?, left, right]; exact given, describes''⟩

theorem Holds.apply (holds : k.Holds store) {e : Element} (runs : e.Runs store store') : (k.apply e).Holds store' := by
  cases runs with
  | write writes gives =>
    rw [apply_of_write writes]
    refine holds.update fun fact known => ?_
    obtain ⟨value, given, describes⟩ := holds.eval? known
    exact ⟨value, gives value given, describes⟩
  | @scopeEnd v _ =>
    show (k.update v none).Holds _
    exact holds.update fun _ known => nomatch known
  | idle writes ends =>
    rw [apply_of_idle writes ends]
    exact holds

/-- What is known is a sound abstraction of what an element does, whatever a call returns, an overflow leaves or an end
of a scope undoes. If it holds in a store, then what is known of an expression is true of its exact value, which is
there and is that of a literal; and what is known after an element holds in every store the element may leave. -/
theorem elements_sound (holds : k.Holds store) :
    (∀ source fact, k.eval? source = some fact →
      ∃ value : Literal, source.exactValue? store = some value.exact ∧ fact.Describes value) ∧
    ∀ e : Element, (∃ store', e.Runs store store') ∧ ∀ store', e.Runs store store' → (k.apply e).Holds store' :=
  ⟨fun _ _ known => holds.eval? known, fun e => ⟨e.exists_runs store, fun _ runs => holds.apply runs⟩⟩

/-- A variable that is known to be four is known to be sixteen once it is assigned its square. -/
theorem elements_sound_square :
    let known : Knowledge := Knowledge.empty.learn (.slot 0) (.int 4)
    let store : Store := Function.update Store.empty (.slot 0) (some (.int 4))
    let square : Expr := .binary .mul (.var (.slot 0)) (.var (.slot 0))
    known.Holds store ∧ known.eval? square = some (.int 16) ∧ square.exactValue? store = some (.int 16) ∧
      (known.apply (.stmt (.assign (.slot 0) square))).Holds (Function.update store (.slot 0) (some (.int 16))) := by
  intro known store square
  have holds : known.Holds store := by
    show (Knowledge.empty.update (.slot 0) (some (.int 4))).Holds _
    refine (holds_of_unknown fun x => Std.ExtTreeMap.getElem?_empty).update fun fact four => ⟨.int 4, rfl, ?_⟩
    cases four
    rfl
  have sixteen : known.eval? square = some (.int 16) := by decide +kernel
  obtain ⟨evaluates, steps⟩ := elements_sound holds
  obtain ⟨value, given, describes⟩ := evaluates square (.int 16) sixteen
  cases describes
  refine ⟨holds, sixteen, given, (steps _).2 _ (.write rfl fun c same => ?_)⟩
  rw [Literal.exact_inj (Option.some.inj (given.symm.trans same))]

end Knowledge

end ForwardFlow
