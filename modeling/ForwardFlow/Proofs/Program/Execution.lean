import Mathlib.Logic.Function.Basic
import ForwardFlow.Arith.Checked
import ForwardFlow.Proofs.Graph.Path

namespace ForwardFlow

/-- The values of the variables that have one. -/
abbrev Store := Var → Option Literal

def Store.empty : Store := fun _ => none

def Literal.ty : Literal → Ty
  | .int _ => .int
  | .bool _ => .bool

/-- The literal is an exact integer, or any word if no word stands for it. -/
def Literal.IsOrOverflows (exact : Int) : Literal → Prop
  | .int n => n.toInt = exact ∨ ∀ word : Int64, word.toInt ≠ exact
  | .bool _ => False

/-- What an operator gives for two values. There is nothing for values it is not made for. -/
def BinOp.Yields : BinOp → Literal → Literal → Literal → Prop
  | .add, .int a, .int b, c => c.IsOrOverflows (a.toInt + b.toInt)
  | .sub, .int a, .int b, c => c.IsOrOverflows (a.toInt - b.toInt)
  | .mul, .int a, .int b, c => c.IsOrOverflows (a.toInt * b.toInt)
  | .lt, .int a, .int b, c => c = .bool (decide (a.toInt < b.toInt))
  | .eq, .int a, .int b, c => c = .bool (decide (a = b))
  | .eq, .bool a, .bool b, c => c = .bool (decide (a = b))
  | .ne, .int a, .int b, c => c = .bool (decide (a ≠ b))
  | .ne, .bool a, .bool b, c => c = .bool (decide (a ≠ b))
  | .and, .bool a, .bool b, c => c = .bool (a && b)
  | .or, .bool a, .bool b, c => c = .bool (a || b)
  | _, _, _, _ => False

def Operand.value? (store : Store) : Operand → Option Literal
  | .lit literal => some literal
  | .var v => store v

/-- What the right-hand side of a variable of some type may give: no value if it reads a variable without one. A call
gives any value of the type. -/
inductive Expr.Yields (ty : Ty) (store : Store) : Expr → Option Literal → Prop
  | use {o c} : o.value? store = some c → Yields ty store (.use o) (some c)
  | not {o c} : o.value? store = some (.bool c) → Yields ty store (.not o) (some (.bool !c))
  | binary {op l r a b c} : l.value? store = some a → r.value? store = some b → op.Yields a b c →
      Yields ty store (.binary op l r) (some c)
  | call {callee args c} : c.ty = ty → Yields ty store (.call callee args) (some c)
  | undefined {e o} : o ∈ e.operands → o.value? store = none → Yields ty store e none

/-- What an element does to a store, where the variables have certain types. -/
inductive Element.Step (types : Var → Option Ty) : Element → Store → Store → Prop
  | write {e target source ty store value} : e.write? = some (target, source) → types target = some ty →
      source.Yields ty store value → Step types e store (Function.update store target value)
  | scopeEnd {v store} : Step types (.scopeEnd v) store (Function.update store v none)
  | idle {e store} : e.write? = none → (∀ v, e ≠ .scopeEnd v) → Step types e store store

def Body.ty? (body : Body) (v : Var) : Option Ty := (body.vars.get? v).map VarDecl.ty

abbrev Body.Executes (body : Body) : List Element → Store → Store → Prop := Along (Element.Step body.ty?)

def Operand.HasTy (types : Var → Option Ty) (ty : Ty) : Operand → Prop
  | .lit literal => literal.ty = ty
  | .var v => types v = some ty

/-- The type of the operands of an operator, and that of its result. -/
inductive BinOp.HasTy : BinOp → Ty → Ty → Prop
  | add : HasTy .add .int .int
  | sub : HasTy .sub .int .int
  | mul : HasTy .mul .int .int
  | lt : HasTy .lt .int .bool
  | eq {ty} : HasTy .eq ty .bool
  | ne {ty} : HasTy .ne ty .bool
  | and : HasTy .and .bool .bool
  | or : HasTy .or .bool .bool

inductive Expr.HasTy (types : Var → Option Ty) : Ty → Expr → Prop
  | use {ty o} : o.HasTy types ty → HasTy types ty (.use o)
  | not {o} : o.HasTy types .bool → HasTy types .bool (.not o)
  | binary {op operand ty l r} : op.HasTy operand ty → l.HasTy types operand → r.HasTy types operand →
      HasTy types ty (.binary op l r)
  | call {ty callee args} : HasTy types ty (.call callee args)

/-- What the element writes has the type of the variable. -/
def Element.WellTyped (types : Var → Option Ty) (e : Element) : Prop :=
  ∀ target source, e.write? = some (target, source) → ∃ ty, types target = some ty ∧ source.HasTy types ty

def Body.WellTyped (body : Body) : Prop := ∀ b, ∀ e ∈ body.elements b, e.WellTyped body.ty?

def Store.Typed (types : Var → Option Ty) (store : Store) : Prop := ∀ v c, store v = some c → types v = some c.ty

/-- An element writes a variable, ends its scope, or does neither. -/
theorem Element.writes_or_ends_or_idle (e : Element) : (∃ target source, e.write? = some (target, source)) ∨
    (∃ v, e = .scopeEnd v) ∨ e.write? = none ∧ ∀ v, e ≠ .scopeEnd v := by
  have idle (s : Stmt) (v : Var) : Element.stmt s ≠ .scopeEnd v := by
    intro same
    cases same
  cases e with
  | init target source => exact Or.inl ⟨target, source, rfl⟩
  | scopeEnd v => exact Or.inr (Or.inl ⟨v, rfl⟩)
  | stmt s =>
    cases s with
    | assign target source => exact Or.inl ⟨target, source, rfl⟩
    | _ => exact Or.inr (Or.inr ⟨rfl, idle _⟩)

section

variable {types : Var → Option Ty} {ty : Ty} {store store' : Store} {o : Operand} {source : Expr} {c : Literal}

theorem Store.typed_empty : Store.Typed types .empty := by
  intro v c value
  cases value

theorem Store.Typed.operand (typed : store.Typed types) (hasTy : o.HasTy types ty) (value : o.value? store = some c) :
    c.ty = ty := by
  cases o with
  | lit literal =>
    cases value
    exact hasTy
  | var v => exact Option.some.inj ((typed v c value).symm.trans hasTy)

theorem Literal.exists_bool (bool : c.ty = .bool) : ∃ b, c = .bool b := by
  cases c with
  | int n => cases bool
  | bool b => exact ⟨b, rfl⟩

theorem Literal.ty_of_isOrOverflows {exact : Int} (result : c.IsOrOverflows exact) : c.ty = .int := by
  cases c with
  | int n => rfl
  | bool b => cases result

theorem Literal.IsOrOverflows.eq {exact : Int} {n word : Int64} (result : (Literal.int n).IsOrOverflows exact)
    (same : word.toInt = exact) : word = n := by
  obtain fits | overflows := result
  · exact Int64.toInt_inj.mp (same.trans fits.symm)
  · exact absurd same (overflows word)

theorem Literal.exists_isOrOverflows (exact : Int) : ∃ c : Literal, c.IsOrOverflows exact := by
  by_cases fits : ∃ word : Int64, word.toInt = exact
  · obtain ⟨word, same⟩ := fits
    exact ⟨.int word, Or.inl same⟩
  · exact ⟨.int 0, Or.inr fun word same => fits ⟨word, same⟩⟩

theorem BinOp.HasTy.yields {op : BinOp} {operand : Ty} (hasTy : op.HasTy operand ty) {a b : Literal}
    (result : op.Yields a b c) : c.ty = ty := by
  cases hasTy <;> cases a <;> cases b <;> first | exact Literal.ty_of_isOrOverflows result | (cases result; try rfl)

theorem BinOp.HasTy.exists_yields {op : BinOp} {operand : Ty} (hasTy : op.HasTy operand ty) {a b : Literal}
    (left : a.ty = operand) (right : b.ty = operand) : ∃ c, op.Yields a b c := by
  cases a <;> cases b <;> subst left <;> cases hasTy <;>
    first | exact Literal.exists_isOrOverflows _ | exact ⟨_, rfl⟩ | cases right

theorem BinOp.HasTy.int_operands {op : BinOp} {operand : Ty} (hasTy : op.HasTy operand .int) {a b : Literal}
    (result : op.Yields a b c) : operand = .int ∧ ∃ m n, a = .int m ∧ b = .int n := by
  cases hasTy <;> cases a <;> cases b <;> first | exact ⟨rfl, _, _, rfl, rfl⟩ | cases result

/-- A right-hand side gives a value of its type, if it gives one. -/
theorem Expr.HasTy.yields (hasTy : source.HasTy types ty) (typed : store.Typed types)
    (yields : source.Yields ty store (some c)) : c.ty = ty := by
  cases yields with
  | use value =>
    cases hasTy with
    | use operand => exact typed.operand operand value
  | not _ =>
    cases hasTy with
    | not _ => rfl
  | binary _ _ result =>
    cases hasTy with
    | binary op _ _ => exact op.yields result
  | call ofTy => exact ofTy

/-- A right-hand side always gives something, if there is a value of its type. -/
theorem Expr.HasTy.exists_yields (hasTy : source.HasTy types ty) (typed : store.Typed types) (ofTy : c.ty = ty) :
    ∃ value, source.Yields ty store value := by
  by_cases undefined : ∃ o ∈ source.operands, o.value? store = none
  · obtain ⟨o, mem, missing⟩ := undefined
    exact ⟨none, .undefined mem missing⟩
  have defined (o : Operand) (mem : o ∈ source.operands) : ∃ a, o.value? store = some a :=
    Option.ne_none_iff_exists'.mp fun missing => undefined ⟨o, mem, missing⟩
  cases hasTy with
  | @use _ o _ =>
    obtain ⟨a, value⟩ := defined o (by simp [Expr.operands])
    exact ⟨_, .use value⟩
  | @not o operand =>
    obtain ⟨a, value⟩ := defined o (by simp [Expr.operands])
    obtain ⟨b, rfl⟩ := Literal.exists_bool (typed.operand operand value)
    exact ⟨_, .not value⟩
  | @binary op operand _ l r ofOp ofLeft ofRight =>
    obtain ⟨a, left⟩ := defined l (by simp [Expr.operands])
    obtain ⟨b, right⟩ := defined r (by simp [Expr.operands])
    obtain ⟨c, result⟩ := ofOp.exists_yields (typed.operand ofLeft left) (typed.operand ofRight right)
    exact ⟨_, .binary left right result⟩
  | call => exact ⟨_, .call ofTy⟩

theorem Store.Typed.update (typed : store.Typed types) {v : Var} {value : Option Literal}
    (ofTy : ∀ c, value = some c → types v = some c.ty) : Store.Typed types (Function.update store v value) := by
  intro w c found
  by_cases here : w = v
  · subst here
    rw [Function.update_self] at found
    exact ofTy c found
  · rw [Function.update_of_ne here] at found
    exact typed w c found

theorem Element.Step.typed {e : Element} (step : e.Step types store store') (wellTyped : e.WellTyped types)
    (typed : store.Typed types) : store'.Typed types := by
  cases step with
  | @write _ target source ty _ value writes ofTarget yields =>
    refine typed.update fun c found => ?_
    subst found
    obtain ⟨ty', ofTarget', hasTy⟩ := wellTyped target source writes
    cases ofTarget.symm.trans ofTarget'
    rw [ofTarget, hasTy.yields typed yields]
  | scopeEnd => exact typed.update fun c found => by cases found
  | idle => exact typed

theorem Along.typed {elements : List Element} (along : Along (Element.Step types) elements store store')
    (wellTyped : ∀ e ∈ elements, e.WellTyped types) (typed : store.Typed types) : store'.Typed types := by
  induction along with
  | nil => exact typed
  | @cons e elements _ _ _ step _ ih =>
    have here := step.typed (wellTyped e List.mem_cons_self) typed
    exact ih (fun f mem => wellTyped f (List.mem_cons_of_mem e mem)) here

theorem Element.WellTyped.exists_step {e : Element} (wellTyped : e.WellTyped types) (typed : store.Typed types)
    (inhabited : ∀ target ∈ e.target?, ∀ ty, types target = some ty → ∃ c : Literal, c.ty = ty) :
    ∃ store', e.Step types store store' := by
  obtain ⟨target, source, writes⟩ | ⟨v, rfl⟩ | ⟨idle, inScope⟩ := e.writes_or_ends_or_idle
  · obtain ⟨ty, ofTarget, hasTy⟩ := wellTyped target source writes
    obtain ⟨c, ofTy⟩ := inhabited target (by simp [Element.target?, writes]) ty ofTarget
    obtain ⟨value, yields⟩ := hasTy.exists_yields typed ofTy
    exact ⟨_, .write writes ofTarget yields⟩
  · exact ⟨_, .scopeEnd⟩
  · exact ⟨store, .idle idle inScope⟩

theorem exists_along {elements : List Element} (wellTyped : ∀ e ∈ elements, e.WellTyped types)
    (inhabited : ∀ e ∈ elements, ∀ target ∈ e.target?, ∀ ty, types target = some ty → ∃ c : Literal, c.ty = ty)
    (typed : store.Typed types) : ∃ store', Along (Element.Step types) elements store store' := by
  induction elements generalizing store with
  | nil => exact ⟨store, .nil⟩
  | cons e elements ih =>
    have here := wellTyped e List.mem_cons_self
    obtain ⟨mid, step⟩ := here.exists_step typed (inhabited e List.mem_cons_self)
    obtain ⟨store', rest⟩ := ih (fun f mem => wellTyped f (List.mem_cons_of_mem e mem))
      (fun f mem => inhabited f (List.mem_cons_of_mem e mem)) (step.typed here typed)
    exact ⟨store', .cons step rest⟩

end

theorem Element.write?_eq_some {e : Element} {target : Var} {source : Expr} :
    e.write? = some (target, source) ↔ e = .stmt (.assign target source) ∨ e = .init target source := by
  cases e with
  | scopeEnd v => simp [Element.write?]
  | init v value => simp [Element.write?]
  | stmt s => cases s <;> simp [Element.write?]

theorem Along.and_mem {σ : Type} {step : Element → σ → σ → Prop} {P : Element → Prop} {elements : List Element}
    {c c' : σ} (along : Along step elements c c') (every : ∀ e ∈ elements, P e) :
    Along (fun e c c' => P e ∧ step e c c') elements c c' := by
  induction along with
  | nil => exact .nil
  | cons first _ ih =>
    exact .cons ⟨every _ List.mem_cons_self, first⟩ (ih fun e mem => every e (List.mem_cons_of_mem _ mem))

theorem Body.WellTyped.elementsOf {body : Body} (wellTyped : body.WellTyped) (blocks : List Block) :
    ∀ e ∈ body.elementsOf blocks, e.WellTyped body.ty? := by
  intro e mem
  obtain ⟨b, _, inside⟩ := List.mem_flatMap.mp mem
  exact wellTyped b e inside

/-- Every value a well-typed body stores is of the type of its variable. -/
theorem Body.WellTyped.typed {body : Body} (wellTyped : body.WellTyped) {blocks : List Block} {store : Store}
    (executes : body.Executes (body.elementsOf blocks) .empty store) : store.Typed body.ty? :=
  Along.typed executes (wellTyped.elementsOf blocks) Store.typed_empty

namespace Body

theorem countingLoop_wellTyped : countingLoop.WellTyped := by
  have int : countingLoop.ty? (.slot 0) = some .int := rfl
  intro b e mem target source writes
  match b with
  | .slot 0 =>
    cases List.mem_singleton.mp mem
    cases writes
    exact ⟨.int, int, .use rfl⟩
  | .slot 2 =>
    cases List.mem_singleton.mp mem
    cases writes
    exact ⟨.int, int, .binary .add int rfl⟩
  | .slot 1 | .slot 3 | .slot (_ + 4) | .invalid => cases mem

theorem countingLoop_executes : ∃ store, store (.slot 0) = some (.int 2) ∧
    countingLoop.Executes (countingLoop.elementsOf [.slot 0, .slot 1, .slot 2, .slot 1, .slot 2]) .empty store := by
  have int : countingLoop.ty? (.slot 0) = some .int := rfl
  have step {m n : Int64} {store : Store} (value : store (.slot 0) = some (.int m)) (next : n.toInt = m.toInt + 1) :
      Element.Step countingLoop.ty? (.stmt (.assign (.slot 0) (.binary .add (.var (.slot 0)) (.lit (.int 1))))) store
        (Function.update store (.slot 0) (some (.int n))) :=
    .write rfl int (.binary value rfl (Or.inl next))
  have zero : Element.Step countingLoop.ty? (.stmt (.assign (.slot 0) (.use (.lit (.int 0))))) .empty
      (Function.update Store.empty (.slot 0) (some (.int 0))) :=
    .write rfl int (.use rfl)
  exact ⟨_, Function.update_self .., .cons zero (.cons (step (m := 0) (n := 1) (Function.update_self ..) (by decide))
    (.cons (step (m := 1) (n := 2) (Function.update_self ..) (by decide)) .nil))⟩

end Body

end ForwardFlow
