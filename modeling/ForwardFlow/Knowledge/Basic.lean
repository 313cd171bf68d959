import Std.Data.ExtTreeMap
import ForwardFlow.Knowledge.Fact
import ForwardFlow.Program.Body

namespace ForwardFlow

/-- What is known of the store at a point of a body: the declared type of each variable, and facts about some. -/
structure Knowledge where
  decls : Std.ExtTreeMap Var Ty := ∅
  facts : Std.ExtTreeMap Var Fact := ∅

/-- The values of a record cannot be known. -/
def Ty.isModelled : Ty → Bool
  | .int => true
  | .bool => true
  | .record _ => false

namespace Knowledge

def empty : Knowledge := {}

instance : Inhabited Knowledge := ⟨empty⟩

instance : DecidableEq Knowledge
  | ⟨decls, facts⟩, ⟨decls', facts'⟩ =>
    decidable_of_iff (decls = decls' ∧ facts = facts') (by rw [Knowledge.mk.injEq])

/-- The variables of a body are declared, and nothing is known of them. -/
def ofBody (body : Body) : Knowledge where
  decls := .ofList (body.vars.toPairs.map fun (v, decl) => (v, decl.ty))

def declare (k : Knowledge) (v : Var) (ty : Ty) : Knowledge := { k with decls := k.decls.insert v ty }

def ty? (k : Knowledge) (v : Var) : Option Ty := k.decls[v]?

def fact? (k : Knowledge) (v : Var) : Option Fact := k.facts[v]?

def learn (k : Knowledge) (v : Var) (fact : Fact) : Knowledge := { k with facts := k.facts.insert v fact }

def forget (k : Knowledge) (v : Var) : Knowledge := { k with facts := k.facts.erase v }

/-- Keeps a fact about a variable, or forgets the variable where there is none. -/
def update (k : Knowledge) (v : Var) : Option Fact → Knowledge
  | some fact => k.learn v fact
  | none => k.forget v

/-- The facts, by ascending variable. -/
def toList (k : Knowledge) : List (Var × Fact) := k.facts.toList

/-- Two states that know the same facts are equivalent, whatever they declare. -/
def equivalent (k l : Knowledge) : Bool := decide (k.facts = l.facts)

def operand? (k : Knowledge) : Operand → Option Fact
  | .lit literal => some (.ofLiteral literal)
  | .var v => k.fact? v

/-- What is known of the value of an expression. Bounds pass through a plain use and nothing else. -/
def eval? (k : Knowledge) : Expr → Option Fact
  | .use o => k.operand? o
  | .not o => (k.operand? o).bind Fact.not?
  | .binary op l r => (k.operand? l).bind fun a => (k.operand? r).bind fun b => Fact.binary? op a b
  | .call _ _ => none

/-- What is known after an element. Only writes and ends of scopes matter. -/
def apply (k : Knowledge) : Element → Knowledge
  | .scopeEnd v => k.forget v
  | .stmt (.assign target source) => k.update target (k.eval? source)
  | .init target source => k.update target (k.eval? source)
  | _ => k

def text (k : Knowledge) (scope : Scope) : String :=
  "\x7b" ++ ", ".intercalate (k.toList.map fun (v, fact) => s!"{scope.nameOf v} = {fact.text}") ++ "\x7d"

/-- Why a variable may not be used. -/
inductive Refusal
  | undeclared
  | unmodelled (ty : Ty)
deriving DecidableEq, Repr

def refusal? (k : Knowledge) (v : Var) : Option Refusal :=
  match k.ty? v with
  | none => some .undeclared
  | some ty => if ty.isModelled then none else some (.unmodelled ty)

/-- The first variable of an element that may not be used. -/
def elementRefusal? (k : Knowledge) (e : Element) : Option (Var × Refusal) :=
  e.vars.findSome? fun v => (k.refusal? v).map fun refusal => (v, refusal)

theorem fact?_learn (k : Knowledge) (v w : Var) (fact : Fact) :
    (k.learn v fact).fact? w = if v = w then some fact else k.fact? w := by
  simp [learn, fact?, Std.ExtTreeMap.getElem?_insert]

theorem fact?_forget (k : Knowledge) (v w : Var) : (k.forget v).fact? w = if v = w then none else k.fact? w := by
  simp [forget, fact?, Std.ExtTreeMap.getElem?_erase]

theorem ty?_ofBody (body : Body) (v : Var) : (ofBody body).ty? v = (body.vars.get? v).map VarDecl.ty := by
  have distinct : (body.vars.toPairs.map fun (v, decl) => (v, decl.ty)).Pairwise fun a b => ¬compare a.1 b.1 = .eq := by
    have nodup := Table.map_fst_toPairs body.vars ▸ Table.nodup_indices body.vars
    rw [List.pairwise_map]
    rw [List.Nodup, List.pairwise_map] at nodup
    exact nodup.imp fun ne eq => ne (Std.LawfulEqOrd.eq_of_compare eq)
  simp only [ofBody, ty?]
  match found : body.vars.get? v with
  | some decl =>
    refine Std.ExtTreeMap.getElem?_ofList_of_mem Std.ReflCmp.compare_self distinct ?_
    exact List.mem_map.mpr ⟨(v, decl), Table.mem_toPairs.mpr found, rfl⟩
  | none =>
    refine Std.ExtTreeMap.getElem?_ofList_of_contains_eq_false ?_
    rw [Bool.eq_false_iff, ne_eq, List.contains_iff_mem, List.map_map, List.mem_map]
    rintro ⟨⟨w, decl⟩, mem, rfl⟩
    simp [Table.mem_toPairs.mp mem] at found

theorem fact?_ofBody (body : Body) (v : Var) : (ofBody body).fact? v = none := Std.ExtTreeMap.getElem?_empty

end Knowledge

end ForwardFlow
