import ForwardFlow.Proofs.Program.Checked

namespace ForwardFlow

/-! ### The variables of an element -/

/-- An expression reads a variable as one of its operands, which are numbered from left to right. -/
inductive Expr.ReadsAt : Expr → Nat → Var → Prop
  | use {v : Var} : ReadsAt (.use (.var v)) 0 v
  | not {v : Var} : ReadsAt (.not (.var v)) 0 v
  | left {op : BinOp} {v : Var} {right : Operand} : ReadsAt (.binary op (.var v) right) 0 v
  | right {op : BinOp} {left : Operand} {v : Var} : ReadsAt (.binary op left (.var v)) 1 v
  | arg {callee : String} {args : List Operand} {n : Nat} {v : Var} : args[n]? = some (.var v) →
    ReadsAt (.call callee args) n v

/-- An element mentions a variable at one of its slots. The variable it writes comes first, and its operands follow. -/
inductive Element.MentionsAt : Element → Nat → Var → Prop
  | assigned {v : Var} {source : Expr} : MentionsAt (.stmt (.assign v source)) 0 v
  | source {target v : Var} {source : Expr} {n : Nat} : source.ReadsAt n v →
    MentionsAt (.stmt (.assign target source)) (n + 1) v
  | evaluated {expr : Expr} {n : Nat} {v : Var} : expr.ReadsAt n v → MentionsAt (.stmt (.eval expr)) n v
  | condition {v : Var} : MentionsAt (.stmt (.branch (.var v))) 0 v
  | returned {v : Var} : MentionsAt (.stmt (.ret (some (.var v)))) 0 v
  | initialized {v : Var} {source : Expr} : MentionsAt (.init v source) 0 v
  | initializer {target v : Var} {source : Expr} {n : Nat} : source.ReadsAt n v →
    MentionsAt (.init target source) (n + 1) v
  | ended {v : Var} : MentionsAt (.scopeEnd v) 0 v

/-- The slots of an element, with a variable or a literal in each. -/
def Element.slots : Element → List Operand
  | .stmt (.assign target source) => .var target :: source.operands
  | .stmt (.eval e) => e.operands
  | .stmt (.branch o) => [o]
  | .stmt (.ret o) => o.toList
  | .init target source => .var target :: source.operands
  | .scopeEnd v => [.var v]

theorem Expr.readsAt_iff {e : Expr} {n : Nat} {v : Var} : e.ReadsAt n v ↔ e.operands[n]? = some (.var v) := by
  constructor
  · rintro (_ | _ | _ | _ | found)
    case arg => exact found
    all_goals rfl
  · intro found
    match e, n, found with
    | .use _, 0, rfl => exact .use
    | .not _, 0, rfl => exact .not
    | .binary .., n, found =>
      rcases n with _ | _ | n <;> cases found
      · exact .left
      · exact .right
    | .call .., _, found => exact .arg found

namespace Element

variable {e : Element} {n : Nat} {v : Var}

theorem mentionsAt_iff : e.MentionsAt n v ↔ e.slots[n]? = some (.var v) := by
  constructor
  · rintro (_ | read | read | _ | _ | _ | read | _)
    case source => exact Expr.readsAt_iff.mp read
    case evaluated => exact Expr.readsAt_iff.mp read
    case initializer => exact Expr.readsAt_iff.mp read
    all_goals rfl
  · intro found
    match e, n, found with
    | .stmt (.assign ..), 0, rfl => exact .assigned
    | .stmt (.assign ..), _ + 1, found => exact .source (Expr.readsAt_iff.mpr found)
    | .stmt (.eval _), _, found => exact .evaluated (Expr.readsAt_iff.mpr found)
    | .stmt (.branch _), 0, rfl => exact .condition
    | .stmt (.ret (some _)), 0, rfl => exact .returned
    | .init .., 0, rfl => exact .initialized
    | .init .., _ + 1, found => exact .initializer (Expr.readsAt_iff.mpr found)
    | .scopeEnd _, 0, rfl => exact .ended

/-- The variables are listed slot by slot. -/
theorem vars_eq (e : Element) : e.vars = e.slots.filterMap Operand.var? := by
  cases e with
  | stmt s =>
    cases s with
    | assign target source => rfl
    | eval source => rfl
    | branch o => cases o <;> rfl
    | ret o => rcases o with _ | _ | _ <;> rfl
  | init target source => rfl
  | scopeEnd v => rfl

theorem mem_vars_iff : v ∈ e.vars ↔ ∃ n, e.MentionsAt n v := by
  simp only [vars_eq, List.mem_filterMap, mentionsAt_iff]
  constructor
  · rintro ⟨_ | _, listed, same⟩ <;> cases same
    exact List.getElem?_of_mem listed
  · rintro ⟨n, found⟩
    exact ⟨_, List.mem_of_getElem? found, rfl⟩

end Element

/-! ### The first use that is refused -/

/-- A place in a body at which it may use a variable: a slot of an element of a block. -/
structure Place where
  block : Nat
  element : Nat
  slot : Nat

/-- Block by block, element by element and slot by slot. -/
def Place.Before (here there : Place) : Prop :=
  here.block < there.block ∨ here.block = there.block ∧
    (here.element < there.element ∨ here.element = there.element ∧ here.slot < there.slot)

/-- A body, reachable or not, uses a variable somewhere. -/
def Body.UsesAt (body : Body) (here : Place) (v : Var) : Prop :=
  ∃ e, (body.elements (.slot here.block))[here.element]? = some e ∧ e.MentionsAt here.slot v

/-- Only variables that are declared, as integers or as truth values, may be used. -/
def Knowledge.Allows (k : Knowledge) (v : Var) : Prop := k.ty? v = some .int ∨ k.ty? v = some .bool

/-- The error for a use of a variable that is not declared, or declared as a record. -/
inductive Knowledge.Refuses (k : Knowledge) (here : Place) (v : Var) : RunError → Prop
  | undeclared : k.ty? v = none → Refuses k here v (.undeclaredVar (.slot here.block) here.element v)
  | record {name : String} : k.ty? v = some (.record name) →
    Refuses k here v (.unmodelledVar (.slot here.block) here.element v (.record name))

/-- The error for the first use in a body that is not allowed. -/
def Knowledge.RefusesFirst (k : Knowledge) (body : Body) (error : RunError) : Prop :=
  ∃ here v, body.UsesAt here v ∧ k.Refuses here v error ∧
    ∀ earlier w, earlier.Before here → body.UsesAt earlier w → k.Allows w

/-- A search through a list finds what it finds at the first place where there is something. -/
theorem findSome?_eq_some_iff_getElem? {α β : Type} {l : List α} {f : α → Option β} {b : β} :
    l.findSome? f = some b ↔
      ∃ (n : Nat) (a : α), l[n]? = some a ∧ f a = some b ∧ ∀ m < n, ∀ c, l[m]? = some c → f c = none := by
  rw [List.findSome?_eq_some_iff]
  constructor
  · rintro ⟨before, a, after, rfl, found, nothing⟩
    refine ⟨before.length, a, by simp, found, fun m less c atM => nothing c ?_⟩
    rw [List.getElem?_append_left less] at atM
    exact List.mem_of_getElem? atM
  · rintro ⟨n, a, atN, found, nothing⟩
    obtain ⟨inside, rfl⟩ := List.getElem?_eq_some_iff.mp atN
    refine ⟨l.take n, l[n], l.drop (n + 1), ?_, found, fun c mem => ?_⟩
    · rw [← List.drop_eq_getElem_cons, List.take_append_drop]
    · obtain ⟨m, less, rfl⟩ := List.mem_take_iff_getElem.mp mem
      exact nothing m (by omega) _ (List.getElem?_eq_getElem (by omega))

theorem findSome?_zipIdx_eq_some_iff {α β : Type} {l : List α} {f : α × Nat → Option β} {b : β} :
    l.zipIdx.findSome? f = some b ↔ ∃ (n : Nat) (a : α), l[n]? = some a ∧ f (a, n) = some b ∧
      ∀ m < n, ∀ c, l[m]? = some c → f (c, m) = none := by
  simp only [findSome?_eq_some_iff_getElem?, List.getElem?_zipIdx, Nat.zero_add, Option.map_eq_some_iff]
  constructor
  · rintro ⟨n, _, ⟨a, atN, rfl⟩, found, first⟩
    exact ⟨n, a, atN, found, fun m less c atM => first m less _ ⟨c, atM, rfl⟩⟩
  · rintro ⟨n, a, atN, found, first⟩
    refine ⟨n, _, ⟨a, atN, rfl⟩, found, ?_⟩
    rintro m less _ ⟨c, atM, rfl⟩
    exact first m less c atM

theorem Body.getElem?_elements {body : Body} {b n : Nat} {e : Element} :
    (body.elements (.slot b))[n]? = some e ↔ ∃ d, body.blocks.toList[b]? = some d ∧ d.elements[n]? = some e := by
  rw [elements, Table.get?_slot]
  cases body.blocks.toList[b]? <;> simp

namespace Knowledge

variable {k : Knowledge} {body : Body} {error : RunError}

theorem refusal?_eq_none_iff_allows {v : Var} : k.refusal? v = none ↔ k.Allows v := by
  rw [refusal?_eq_none_iff]
  constructor
  · rintro ⟨_ | _ | _, declared, modelled⟩
    · exact Or.inl declared
    · exact Or.inr declared
    · cases modelled
  · rintro (declared | declared) <;> exact ⟨_, declared, rfl⟩

theorem not_allows_iff {v : Var} : ¬k.Allows v ↔ k.ty? v = none ∨ ∃ name, k.ty? v = some (.record name) := by
  unfold Allows
  rcases k.ty? v with _ | _ | _ | name <;> simp

/-- A variable is refused with the reason why it is not allowed. -/
theorem refuses_iff {here : Place} {v : Var} :
    k.Refuses here v error ↔ ∃ refusal, k.refusal? v = some refusal ∧
      error = .ofRefusal (.slot here.block) here.element v refusal := by
  unfold refusal?
  constructor
  · rintro (undeclared | record)
    · exact ⟨.undeclared, by rw [undeclared], rfl⟩
    · exact ⟨.unmodelled _, by rw [record]; rfl, rfl⟩
  · rintro ⟨refusal, reason, rfl⟩
    cases declared : k.ty? v with
    | none =>
      rw [declared] at reason
      cases reason
      exact .undeclared declared
    | some ty =>
      rw [declared] at reason
      cases ty <;> cases reason
      exact .record declared

theorem elementError?_eq_some_iff {b n : Nat} {e : Element} :
    k.elementError? (.slot b) n e = some error ↔ ∃ slot v, e.MentionsAt slot v ∧ k.Refuses ⟨b, n, slot⟩ v error ∧
      ∀ earlier < slot, ∀ w, e.MentionsAt earlier w → k.Allows w := by
  have slots : k.elementRefusal? e = e.slots.findSome? fun o => o.var?.bind fun v => (k.refusal? v).map (v, ·) := by
    rw [elementRefusal?, Element.vars_eq, ← List.head?_filterMap, List.filterMap_filterMap, List.head?_filterMap]
  simp only [elementError?, slots, Option.map_eq_some_iff, findSome?_eq_some_iff_getElem?, Element.mentionsAt_iff,
    refuses_iff, ← refusal?_eq_none_iff_allows]
  constructor
  · rintro ⟨_, ⟨slot, o, atSlot, found, first⟩, rfl⟩
    obtain ⟨v, ofVar, refused⟩ := Option.bind_eq_some_iff.mp found
    obtain ⟨refusal, reason, rfl⟩ := Option.map_eq_some_iff.mp refused
    cases o <;> cases ofVar
    refine ⟨slot, v, atSlot, ⟨refusal, reason, rfl⟩, fun earlier less w mentioned => ?_⟩
    exact Option.map_eq_none_iff.mp (first earlier less _ mentioned)
  · rintro ⟨slot, v, atSlot, ⟨refusal, reason, rfl⟩, first⟩
    refine ⟨(v, refusal), ⟨slot, .var v, atSlot, by simp [Operand.var?, reason], fun earlier less o mentioned => ?_⟩, rfl⟩
    cases o with
    | lit c => rfl
    | var w => exact Option.map_eq_none_iff.mpr (first earlier less w mentioned)

/-- The error of a body is that of the first element that has one. -/
theorem bodyError?_eq_some_iff_element :
    k.bodyError? body = some error ↔ ∃ b n e, (body.elements (.slot b))[n]? = some e ∧
      k.elementError? (.slot b) n e = some error ∧
      ∀ b' n' e', b' < b ∨ b' = b ∧ n' < n → (body.elements (.slot b'))[n']? = some e' →
        k.elementError? (.slot b') n' e' = none := by
  simp only [bodyError?, Table.toPairs_eq, List.findSome?_map, findSome?_zipIdx_eq_some_iff, Function.comp_apply,
    Body.getElem?_elements]
  constructor
  · rintro ⟨b, d, atB, ⟨n, e, atN, found, firstElement⟩, firstBlock⟩
    refine ⟨b, n, e, ⟨d, atB, atN⟩, found, ?_⟩
    rintro b' n' e' (less | ⟨rfl, less⟩) ⟨d', atB', atN'⟩
    · have nothing := List.findSome?_eq_none_iff.mp (firstBlock b' less d' atB')
      exact nothing (e', n') (List.mk_mem_zipIdx_iff_getElem?.mpr atN')
    · cases atB'.symm.trans atB
      exact firstElement n' less e' atN'
  · rintro ⟨b, n, e, ⟨d, atB, atN⟩, found, first⟩
    refine ⟨b, d, atB, ⟨n, e, atN, found, fun n' less e' atN' => ?_⟩, fun b' less d' atB' => ?_⟩
    · exact first b n' e' (.inr ⟨rfl, less⟩) ⟨d, atB, atN'⟩
    · refine List.findSome?_eq_none_iff.mpr fun pair listed => ?_
      obtain ⟨e', n'⟩ := pair
      exact first b' n' e' (.inl less) ⟨d', atB', List.mk_mem_zipIdx_iff_getElem?.mp listed⟩

/-- A run refuses a body for its first use of a variable that is not allowed, and gives the error for that use. -/
theorem bodyError?_eq_some_iff : k.bodyError? body = some error ↔ k.RefusesFirst body error := by
  rw [bodyError?_eq_some_iff_element]
  constructor
  · rintro ⟨b, n, e, atPlace, found, first⟩
    obtain ⟨slot, v, mentioned, refused, before⟩ := elementError?_eq_some_iff.mp found
    refine ⟨⟨b, n, slot⟩, v, ⟨e, atPlace, mentioned⟩, refused, ?_⟩
    rintro ⟨b', n', slot'⟩ w earlier ⟨e', atEarlier, mentioned'⟩
    have allowed {b' n' e'} (earlier : b' < b ∨ b' = b ∧ n' < n) (atEarlier : (body.elements (.slot b'))[n']? = some e')
        (mentioned' : e'.MentionsAt slot' w) : k.Allows w := by
      have fine := elementError?_eq_none_iff.mp (first b' n' e' earlier atEarlier)
      exact refusal?_eq_none_iff_allows.mp (fine w (Element.mem_vars_iff.mpr ⟨slot', mentioned'⟩))
    rcases earlier with block | ⟨rfl, element | ⟨rfl, less⟩⟩
    · exact allowed (.inl block) atEarlier mentioned'
    · exact allowed (.inr ⟨rfl, element⟩) atEarlier mentioned'
    · cases atEarlier.symm.trans atPlace
      exact before slot' less w mentioned'
  · rintro ⟨⟨b, n, slot⟩, v, ⟨e, atPlace, mentioned⟩, refused, first⟩
    refine ⟨b, n, e, atPlace, elementError?_eq_some_iff.mpr ⟨slot, v, mentioned, refused, ?_⟩, ?_⟩
    · intro earlier less w mentioned'
      exact first ⟨b, n, earlier⟩ w (.inr ⟨rfl, .inr ⟨rfl, less⟩⟩) ⟨e, atPlace, mentioned'⟩
    · intro b' n' e' earlier atEarlier
      refine elementError?_eq_none_iff.mpr fun w listed => refusal?_eq_none_iff_allows.mpr ?_
      obtain ⟨slot', mentioned'⟩ := Element.mem_vars_iff.mp listed
      have before : Place.Before ⟨b', n', slot'⟩ ⟨b, n, slot⟩ := earlier.imp_right (And.imp_right .inl)
      exact first ⟨b', n', slot'⟩ w before ⟨e', atEarlier, mentioned'⟩

/-- The arguments of a call count, and so do blocks that cannot be reached. -/
example : Knowledge.empty.bodyError? ⟨"f", ∅, .slot 0, .ofList [{}, { elements :=
    [.stmt (.branch (.lit (.bool true))), .stmt (.eval (.call "g" [.lit (.bool true), .var (.slot 4)]))] }]⟩ =
      some (.undeclaredVar (.slot 1) 1 (.slot 4)) := by
  decide +kernel

theorem exists_bodyError?_iff :
    (∃ error, k.bodyError? body = some error) ↔ ∃ here v, body.UsesAt here v ∧ ¬k.Allows v := by
  constructor
  · rintro ⟨error, refused⟩
    obtain ⟨here, v, uses, reason, _⟩ := bodyError?_eq_some_iff.mp refused
    obtain ⟨refusal, found, _⟩ := refuses_iff.mp reason
    refine ⟨here, v, uses, fun allowed => ?_⟩
    cases (refusal?_eq_none_iff_allows.mpr allowed).symm.trans found
  · rintro ⟨here, v, ⟨e, listed, mentioned⟩, notAllowed⟩
    refine Option.ne_none_iff_exists'.mp fun fine => notAllowed (refusal?_eq_none_iff_allows.mp ?_)
    exact bodyError?_eq_none_iff.mp fine _ e (List.mem_of_getElem? listed) v (Element.mem_vars_iff.mpr ⟨_, mentioned⟩)

end Knowledge

end ForwardFlow
