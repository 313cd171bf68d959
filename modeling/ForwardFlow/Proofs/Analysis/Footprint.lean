import ForwardFlow.Proofs.Analysis.Assigned
import ForwardFlow.Proofs.Analysis.KnownSound
import ForwardFlow.Proofs.Program.Checked
import ForwardFlow.Proofs.Solver.Invariant

namespace ForwardFlow

namespace Element

variable {e : Element} {x : Var}

/-- The element writes the variable, or ends its scope. -/
def Touches (e : Element) (x : Var) : Prop := e.target? = some x ∨ e = .scopeEnd x

theorem touches_of_write {target : Var} {source : Expr} (writes : e.write? = some (target, source)) :
    e.Touches x ↔ target = x := by
  have written : e.target? = some target := congrArg (Option.map Prod.fst) writes
  constructor
  · rintro (same | rfl)
    · exact Option.some.inj (written.symm.trans same)
    · cases writes
  · rintro rfl
    exact .inl written

theorem touches_scopeEnd {v : Var} : (Element.scopeEnd v).Touches x ↔ v = x := by
  constructor
  · rintro (impossible | same)
    · cases impossible
    · exact scopeEnd.inj same
  · rintro rfl
    exact .inr rfl

theorem mem_vars_of_touches (touches : e.Touches x) : x ∈ e.vars := by
  obtain writes | rfl := touches
  · exact mem_vars_of_target? writes
  · exact List.mem_singleton_self x

theorem vars_of_write {target : Var} {source : Expr} (writes : e.write? = some (target, source)) :
    e.vars = target :: source.vars := by
  rcases write?_eq_some.mp writes with rfl | rfl <;> rfl

/-- A change keeps to what the element names, as far as certain entries of variables go. The entries of variables the
element does not touch stay as they are. The new entry of the variable it touches depends on nothing but what is read of
the variables it mentions. -/
structure Within {σ ε ρ : Type} (e : Element) (entry : σ → Var → ε) (reads : σ → Var → ρ) (change : σ → σ) :
    Prop where
  other : ∀ s x, ¬e.Touches x → entry (change s) x = entry s x
  named : ∀ s t, (∀ v ∈ e.vars, reads s v = reads t v) → ∀ x, e.Touches x →
    entry (change s) x = entry (change t) x

/-- To change nothing is to keep to what is named, if the entries are read. -/
theorem within_id {σ ε ρ : Type} {entry : σ → Var → ε} {reads : σ → Var → ρ}
    (seen : ∀ s t v, reads s v = reads t v → entry s v = entry t v) : e.Within entry reads fun s => s where
  other _ _ _ := rfl
  named s t same x touches := seen s t x (same x (mem_vars_of_touches touches))

/-- To give one variable a new entry is to keep to what is named, if it is the variable the element touches, and the
entry depends on what is read of the variables the element mentions. -/
theorem Within.of_set {σ ε ρ : Type} {entry : σ → Var → ε} {reads : σ → Var → ρ} {change : σ → σ} {value : σ → ε}
    {v : Var} (touches : ∀ {x}, e.Touches x ↔ v = x)
    (entries : ∀ s x, entry (change s) x = if v = x then value s else entry s x)
    (same : ∀ s t, (∀ x ∈ e.vars, reads s x = reads t x) → value s = value t) : e.Within entry reads change where
  other s x other := (entries s x).trans (if_neg fun here => other (touches.mpr here))
  named s t alike x here := by
    rw [entries, entries, if_pos (touches.mp here), if_pos (touches.mp here)]
    exact same s t alike

end Element

theorem Expr.mem_vars_of_operand {source : Expr} {o : Operand} (mem : o ∈ source.operands) {v : Var}
    (var : v ∈ o.var?) : v ∈ source.vars := List.mem_filterMap.mpr ⟨o, mem, var⟩

namespace Knowledge

variable {k l : Knowledge}

theorem operand?_congr {o : Operand} (same : ∀ v ∈ o.var?, k.fact? v = l.fact? v) :
    k.operand? o = l.operand? o := by
  cases o with
  | lit literal => rfl
  | var v => exact same v rfl

/-- What is known of the value of an expression depends on what is known of its variables. -/
theorem eval?_congr {source : Expr} (same : ∀ v ∈ source.vars, k.fact? v = l.fact? v) :
    k.eval? source = l.eval? source := by
  have operand {o : Operand} (mem : o ∈ source.operands) : k.operand? o = l.operand? o :=
    operand?_congr fun v var => same v (Expr.mem_vars_of_operand mem var)
  cases source with
  | use o => exact operand (List.mem_singleton_self o)
  | not o => rw [eval?, eval?, operand (List.mem_singleton_self o)]
  | binary op a b => rw [eval?, eval?, operand List.mem_cons_self, operand (List.mem_cons_of_mem a List.mem_cons_self)]
  | call callee args => rfl

theorem apply_within (e : Element) : e.Within fact? fact? (·.apply e) := by
  obtain ⟨target, source, writes⟩ | ⟨v, rfl⟩ | ⟨idle, inScope⟩ := e.writes_or_ends_or_idle
  · have entries (k : Knowledge) (x : Var) :
        (k.apply e).fact? x = if target = x then k.eval? source else k.fact? x := by
      rw [apply_of_write writes, fact?_update]
    refine .of_set (Element.touches_of_write writes) entries fun k l same => eval?_congr fun v mem => same v ?_
    rw [Element.vars_of_write writes]
    exact List.mem_cons_of_mem target mem
  · exact .of_set Element.touches_scopeEnd (fun k x => fact?_forget ..) fun _ _ _ => rfl
  · have idles : (fun k : Knowledge => k.apply e) = fun k => k := funext fun k => apply_of_idle idle inScope
    rw [idles]
    exact Element.within_id fun _ _ _ same => same

/-- A join knows of a variable what both sides know, if that is the same. -/
theorem fact?_join_of_eq {merger : Merger} {pick : Ty → Fact → Fact → Option Fact} (picks : merger.Picks pick)
    {x : Var} {fact : Option Fact} (left : k.fact? x = fact) (right : l.fact? x = fact) :
    (k.join merger l).fact? x = fact := by
  rw [fact?_join picks, left]
  cases fact with
  | none => rfl
  | some a => rw [Option.bind_some, factWith?, right, Option.bind_some, if_pos rfl]

end Knowledge

namespace State

variable {L ε : Type}

/-- What the lattice value of a state says of a variable. -/
def entry (look : L → Var → ε) (s : State L) (x : Var) : ε := look s.lattice x

/-- The declared type of a variable, and what the lattice value says of it. -/
def typedEntry (look : L → Var → ε) (s : State L) (x : Var) : Option Ty × ε := (s.known.ty? x, look s.lattice x)

end State

theorem Element.within_same {L ε : Type} {look : L → Var → ε} (e : Element) :
    e.Within (State.entry look) (State.typedEntry look) fun s => s :=
  within_id fun _ _ _ same => congrArg Prod.snd same

/-- Whether a variable is in the set. -/
def MustSet.contains (m : MustSet Var) (x : Var) : Bool := m.elems.contains x

theorem MustSet.onElement_within (e : Element) :
    e.Within (State.entry contains) (State.typedEntry contains) (Analysis.assigned.onElement e) := by
  have entries (s : State (MustSet Var)) (x : Var) : (Analysis.assigned.onElement e s).entry contains x = true ↔
      e.target? = some x ∨ s.entry contains x = true ∧ .scopeEnd x ≠ e := by
    have acts : Analysis.assigned.onElement e s = { s with lattice := e.assign s.lattice } := by
      cases e with
      | scopeEnd v => rfl
      | init v source => rfl
      | stmt st => cases st <;> rfl
    rw [acts]
    exact mem_assign
  refine ⟨fun s x other => ?_, fun s t _ x touches => ?_⟩
  · obtain ⟨unwritten, inScope⟩ := not_or.mp other
    rw [Bool.eq_iff_iff, entries]
    simp [unwritten, Ne.symm inScope]
  · rw [Bool.eq_iff_iff, entries, entries]
    obtain writes | rfl := touches
    · simp [writes]
    · simp

namespace Constants

theorem operand_congr {m n : Constants} {o : Operand} (same : ∀ v ∈ o.var?, m.get? v = n.get? v) :
    m.operand o = n.operand o := by
  cases o with
  | lit literal => cases literal <;> rfl
  | var v => rw [operand, operand, same v rfl]

theorem eval_congr {m n : Constants} {source : Expr} (same : ∀ v ∈ source.vars, m.get? v = n.get? v) :
    m.eval source = n.eval source := by
  have operand {o : Operand} (mem : o ∈ source.operands) : m.operand o = n.operand o :=
    operand_congr fun v var => same v (Expr.mem_vars_of_operand mem var)
  cases source with
  | use o => exact operand (List.mem_singleton_self o)
  | binary op a b => rw [eval, eval, operand List.mem_cons_self, operand (List.mem_cons_of_mem a List.mem_cons_self)]
  | not o => rfl
  | call callee args => rfl

theorem define_within {e : Element} {target : Var} {source : Expr} (writes : e.write? = some (target, source)) :
    e.Within (State.entry Pointwise.get?) (State.typedEntry Pointwise.get?) (define target source) := by
  -- A target that is no integer keeps its entry, which is that of a variable the element mentions.
  have entries (s : State Constants) (x : Var) : (define target source s).entry Pointwise.get? x =
      if target = x then
        if s.known.ty? target = some .int then some (s.lattice.eval source) else s.lattice.get? target
      else s.lattice.get? x := by
    rw [State.entry, lattice_define]
    by_cases int : s.known.ty? target = some .int
    · simp [int, Pointwise.get?_insert]
    · rw [if_neg int, if_neg int]
      split
      · rename_i here
        rw [here]
      · rfl
  refine .of_set (Element.touches_of_write writes) entries fun s t same => ?_
  rw [Element.vars_of_write writes] at same
  obtain ⟨ty, old⟩ := Prod.mk.inj (same target List.mem_cons_self)
  have value : eval s.lattice source = eval t.lattice source :=
    eval_congr fun v mem => congrArg Prod.snd (same v (List.mem_cons_of_mem target mem))
  rw [ty, old, value]

theorem erase_within (v : Var) : (Element.scopeEnd v).Within (State.entry Pointwise.get?)
    (State.typedEntry Pointwise.get?) fun s : State Constants => { s with lattice := s.lattice.erase v } :=
  .of_set Element.touches_scopeEnd (fun _ _ => Pointwise.get?_erase) fun _ _ _ => rfl

end Constants

namespace Bundled

/-- What a bundled analysis says of a variable: whether it is assigned, or its constant. -/
def Entry : Bundled → Type
  | .assigned => Bool
  | .constants => Option (Flat Int64)

def look : (analysis : Bundled) → analysis.Lattice → Var → analysis.Entry
  | .assigned => MustSet.contains
  | .constants => Pointwise.get?

/-- A hook keeps to what an element names, and leaves what is known of the store as it is. -/
structure HookWithin (analysis : Bundled) (e : Element) (hook : State analysis.Lattice → State analysis.Lattice) : Prop
    extends e.Within (State.entry analysis.look) (State.typedEntry analysis.look) hook where
  known : ∀ s, (hook s).known = s.known

theorem onElement_within (analysis : Bundled) (e : Element) :
    analysis.HookWithin e (analysis.pass.analysis.onElement e) := by
  cases analysis with
  | assigned =>
    refine ⟨MustSet.onElement_within e, fun s => ?_⟩
    cases e with
    | stmt st => cases st <;> rfl
    | _ => rfl
  | constants =>
    cases e with
    | init target source => exact ⟨Constants.define_within rfl, Constants.known_define target source⟩
    | scopeEnd v => exact ⟨Constants.erase_within v, fun _ => rfl⟩
    | stmt st => exact ⟨Element.within_same _, fun _ => rfl⟩

theorem onStmt_within (analysis : Bundled) (st : Stmt) :
    analysis.HookWithin (.stmt st) (analysis.pass.analysis.onStmt st) := by
  cases analysis with
  | assigned => exact ⟨Element.within_same _, fun _ => rfl⟩
  | constants =>
    cases st with
    | assign target source => exact ⟨Constants.define_within rfl, Constants.known_define target source⟩
    | _ => exact ⟨Element.within_same _, fun _ => rfl⟩

end Bundled

/-- Some element of a reachable block touches the variable. -/
def Body.Touches (body : Body) (x : Var) : Prop := ∃ b, body.Reaches b ∧ ∃ e ∈ body.elements b, e.Touches x

/-- The same is known of a variable as at the start of a run: its declared type, and a fact about it or none. -/
def Problem.KeepsKnown {L : Type} (p : Problem L) (x : Var) (s : State L) : Prop :=
  s.known.ty? x = p.start.ty? x ∧ s.known.fact? x = p.start.fact? x

theorem Problem.invariant_keepsKnown {analysis : Bundled} {p : Problem analysis.Lattice}
    (pass : p.pass = analysis.pass) : p.Invariant fun s => ∀ x, ¬p.body.Touches x → p.KeepsKnown x s where
  initial _ _ := ⟨rfl, rfl⟩
  join s t left right x untouched := by
    obtain ⟨ty, atS⟩ := left x untouched
    obtain ⟨_, atT⟩ := right x untouched
    rw [pass]
    exact ⟨(Knowledge.ty?_join analysis.merge_picks ..).trans ty,
      Knowledge.fact?_join_of_eq analysis.merge_picks atS atT⟩
  transfer b reach e inside s old x untouched := by
    have other : ¬e.Touches x := fun touches => untouched ⟨b, reach, e, inside, touches⟩
    obtain ⟨ty, fact⟩ := old x untouched
    rw [pass, KeepsKnown, Bundled.known_transfer]
    exact ⟨(Knowledge.ty?_apply ..).trans ty, ((Knowledge.apply_within e).other s.known x other).trans fact⟩

/-- Counts up to a limit. No element writes the limit, and none ends its scope. -/
def Body.countingToLimit : Body where
  name := "count"
  vars := .ofList [⟨"i", .int⟩, ⟨"limit", .int⟩]
  entry := .slot 0
  blocks := .ofList [
    { elements := [.stmt (.assign (.slot 0) (.use (.lit (.int 0))))], succs := [.slot 1] },
    { elements := [.stmt (.eval (.binary .lt (.var (.slot 0)) (.var (.slot 1))))], preds := [.slot 0, .slot 2]
      succs := [.slot 2, .slot 3] },
    { elements := [.stmt (.assign (.slot 0) (.binary .add (.var (.slot 0)) (.lit (.int 1))))]
      preds := [.slot 1], succs := [.slot 1] },
    { elements := [.scopeEnd (.slot 0)], preds := [.slot 1] }]

/-- What an element does, it does to the variable it names. What is known of the store changes only at the variable the
element writes or ends, and depends there on what is known of the variables it mentions. The hooks of a bundled analysis
change the lattice value only at that variable, where it depends on the declared types and the lattice value of the
variables the element mentions. So throughout a run that is not refused, the same is known as at the start of every
variable that no reachable element touches. -/
theorem Bundled.keeps_to_named (analysis : Bundled) :
    (∀ e : Element, e.Within Knowledge.fact? Knowledge.fact? (·.apply e) ∧
      ∀ (k : Knowledge) (x : Var), (k.apply e).ty? x = k.ty? x) ∧
    (∀ e : Element, analysis.HookWithin e (analysis.pass.analysis.onElement e)) ∧
    (∀ st : Stmt, analysis.HookWithin (.stmt st) (analysis.pass.analysis.onStmt st)) ∧
    ∀ p : Problem analysis.Lattice, p.pass = analysis.pass → p.error? = none →
      p.Throughout fun s => ∀ x, ¬p.body.Touches x → p.KeepsKnown x s :=
  ⟨fun e => ⟨Knowledge.apply_within e, fun k x => Knowledge.ty?_apply k e x⟩, analysis.onElement_within,
    analysis.onStmt_within, fun _ pass fine => (Problem.invariant_keepsKnown pass).throughout fine⟩

/-- Behind the loop, the bounds of the limit are known as they were before it, and nothing is known of the counter. -/
theorem Bundled.keeps_to_named_countingToLimit :
    let p : Problem Bundled.constants.Lattice :=
      { body := .countingToLimit, pass := Bundled.constants.pass
        start := (Knowledge.ofBody .countingToLimit).learn (.slot 1) (.range 5 10), policy := .fifo }
    ∃ solution t, p.solve 20 = .ok solution ∧ solution.exits[(.slot 3 : Block)]? = some t ∧
      t.known.fact? (.slot 0) = none ∧ ¬p.body.Touches (.slot 1) ∧ t.known.fact? (.slot 1) = some (.range 5 10) := by
  intro p
  obtain ⟨solution, run, found⟩ := Problem.exists_solution p 20
    (fun solution => solution.exits[(.slot 3 : Block)]?.any fun t : State Constants =>
      decide (t.known.fact? (.slot 0) = none)) (by decide +kernel)
  obtain ⟨t, atEnd, test⟩ := (Option.any_eq_true ..).mp found
  have untouched : ¬p.body.Touches (.slot 1) := by
    rintro ⟨b, _, e, inside, touches⟩
    obtain ⟨d, atB, listed⟩ := Body.get?_of_mem_elements inside
    have idle : ∀ block ∈ p.body.blocks.toPairs, ∀ e ∈ block.2.elements,
        e.target? ≠ some (.slot 1) ∧ e ≠ .scopeEnd (.slot 1) := by decide
    obtain ⟨unwritten, inScope⟩ := idle (b, d) (Table.mem_toPairs.mpr atB) e listed
    exact touches.elim unwritten inScope
  have throughout := (Bundled.keeps_to_named .constants).2.2.2 p rfl (Problem.solve_eq_ok run).1
  have kept := throughout.returned 20 solution run (.slot 3) t atEnd (.slot 1) untouched
  have start : p.start.fact? (.slot 1) = some (.range 5 10) := (Knowledge.fact?_learn ..).trans (if_pos rfl)
  exact ⟨solution, t, run, atEnd, of_decide_eq_true test, untouched, kept.2.trans start⟩

end ForwardFlow
