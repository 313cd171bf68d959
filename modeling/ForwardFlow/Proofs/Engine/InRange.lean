import ForwardFlow.Proofs.Engine.Run

namespace ForwardFlow

open Recorded

/-- A table that is no longer than there are indices has one for each entry. -/
theorem Table.ofNat?_number {kind : Kind} {α : Type} {t : Table kind α} (short : t.size ≤ Index.limit) {j : Index kind}
    (mem : j ∈ t.indices) : Index.ofNat? j.number = some j := by
  obtain ⟨n, inside, rfl⟩ := List.mem_map.mp mem
  exact Index.ofNat?_eq_some_iff.mpr ⟨(List.mem_range.mp inside).trans_le short, rfl⟩

/-- The order of a body lists blocks of the body, no more than there are, and gives them places of its own. -/
structure BlockOrder.Within (order : BlockOrder) (body : Body) : Prop where
  inside : ∀ b ∈ order.toList, body.blocks.contains b = true
  size_le : order.blocks.size ≤ body.blocks.size
  placed : ∀ {b p}, order.position? b = some p → order.blocks.contains p = true

/-- What is pending lies in the order, by its place or by itself. -/
def Worklist.InRange (order : BlockOrder) : Worklist → Prop
  | .positions pending => ∀ p ∈ pending, order.blocks.contains p = true
  | .queue waiting members => ∀ b, b ∈ waiting ∨ b ∈ members → b ∈ order.toList

theorem BlockOrder.Numbered.contains {order : BlockOrder} (numbered : order.Numbered) {b : Block} {p : Position}
    (placed : order.position? b = some p) : order.blocks.contains p = true := by
  rw [Table.contains_eq_isSome_get?, numbered.position?_iff.mp placed, Option.isSome_some]

theorem Worklist.Lists.inRange {order : BlockOrder} {policy : Policy} {worklist : Worklist} {pending : List Block}
    (lists : Lists order policy worklist pending) (numbered : order.Numbered) (inside : ∀ b ∈ pending, b ∈ order.toList) :
    worklist.InRange order := by
  cases lists with
  | positions mem _ _ =>
    intro p held
    obtain ⟨b, _, placed⟩ := (mem p).mp held
    exact numbered.contains placed
  | queue mem _ => exact fun b either => inside b (either.elim id (mem b).mp)

theorem Body.within_order {body : Body} (ok : body.Consistent) :
    (BlockOrder.ofList body.reversePostorder).Within body where
  inside := fun _ mem => (ok.mem_reversePostorder.mp mem).contains ok
  size_le := ok.length_reversePostorder_le
  placed := (BlockOrder.numbered_ofList ok.nodup_reversePostorder).contains

namespace Engine

variable {ι : Type} [DecidableEq ι] [Catalogue ι] {i : ι}

/-- A block and its neighbours lie in the tables: all that a visit to the block or its replay looks up. -/
structure Surrounded (body : Body) (order : BlockOrder) (exits : ExitTable (Sealed ι)) (b : Block) : Prop where
  block : body.blocks.contains b = true
  exit : exits.contains b = true
  preds : ∀ q ∈ body.preds b, exits.contains q = true
  succs : ∀ c ∈ body.succs b, body.blocks.contains c = true ∧ order.contains c = true

/-- A stage from which the engine can go on, whatever comes next. -/
structure InRange (p : Problem (Catalogue.Carrier i)) (order : BlockOrder) (engine : EngineState (Sealed ι)) : Prop where
  exits_size : engine.exits.size = p.body.blocks.size
  worklist : engine.worklist.InRange order
  surrounded : ∀ b ∈ order.toList, Surrounded p.body order engine.exits b
  input : ∀ b ∈ order.toList, ∃ s?, (input p engine.exits b).result = .ok s?
  pop : ∃ popped?, engine.worklist.pop order = .ok popped?
  visit : ∀ b worklist, engine.worklist.pop order = .ok (some (b, worklist)) →
    b ∈ order.toList ∧ ∃ next, (visit p order { engine with worklist } b).result = .ok next

theorem contains_sealExits {body : Body} {exits : Exits (Catalogue.Carrier i)} {b : Block}
    (inside : body.blocks.contains b = true) : (sealExits body exits : ExitTable (Sealed ι)).contains b = true := by
  rw [Table.contains_eq_isSome_get?, sealExits, Table.get?_ofIndices, if_pos inside, Option.isSome_some]

section

variable {p : Problem (Catalogue.Carrier i)} (ok : p.body.Consistent) {engine : EngineState (Sealed ι)}

include ok

theorem surrounded_sealExits (exits : Exits (Catalogue.Carrier i)) {b : Block} (reach : p.body.Reaches b) :
    Surrounded p.body p.order (sealExits p.body exits : ExitTable (Sealed ι)) b where
  block := reach.contains ok
  exit := contains_sealExits (reach.contains ok)
  preds := fun _ mem => contains_sealExits (ok.pred_mem mem)
  succs := fun c edge => by
    obtain ⟨n, placed⟩ := (numbered_order ok).exists_position ((Problem.mem_order ok).mpr (reach.succ edge))
    exact ⟨ok.succ_mem edge, by rw [BlockOrder.contains, placed, Option.isSome_some]⟩

theorem Stage.inRange (stage : Stage p p.order engine) : InRange p p.order engine := by
  obtain ⟨progress, typed, follows⟩ := stage.exists_follows ok
  have pending : ∀ b ∈ progress.pending, b ∈ p.order.toList := fun b mem =>
    (Problem.mem_order ok).mpr ((typed.reaches ok).1 b mem)
  refine ⟨?_, follows.worklist.inRange (numbered_order ok) pending, fun b mem => ?_, fun b mem => ?_, ?_, ?_⟩
  · rw [follows.exits, sealExits, Table.ofIndices, Table.size_ofList, List.length_map, List.length_range]
  · rw [follows.exits]
    exact surrounded_sealExits ok progress.exits ((Problem.mem_order ok).mp mem)
  · rw [follows.exits]
    exact ⟨_, (gives_input p ok progress.exits (((Problem.mem_order ok).mp mem).contains ok)).result_eq⟩
  · cases list : progress.pending with
    | nil => exact ⟨none, (list ▸ follows.worklist).pop_nil⟩
    | cons b rest =>
      obtain ⟨worklist, _, pop, _⟩ := follows.exists_next ok typed list
      exact ⟨some (b, worklist), pop⟩
  · intro b worklist popped
    cases list : progress.pending with
    | nil => cases (list ▸ follows.worklist).pop_nil.symm.trans popped
    | cons c rest =>
      obtain ⟨_, next, pop, visit, _⟩ := follows.exists_next ok typed list
      cases pop.symm.trans popped
      exact ⟨pending b (list ▸ List.mem_cons_self), next, visit.result_eq⟩

end

/-- No body makes a run look outside a table. Either the run is refused before anything is done, or the search that
orders the blocks finds all it looks up, and so does every visit, and the replay of the stage where the visits end. Only
the observer can make another fault than to need too many steps. -/
theorem run_in_range (p : Problem (Catalogue.Carrier i)) (steps : Nat) (observer : Option (SealedObserver ι)) :
    (∃ e, p.error? = some e ∧ e.IsStructural ∧ run p steps observer = fail e) ∨
      p.error? = none ∧ ∃ order, p.body.checkedOrder = .ok order ∧ p.body.stackPostorder = .ok order.toList ∧
        order.Within p.body ∧
        (p.body.blocks.size ≤ Index.limit →
          (∀ b ∈ p.body.blocks.indices, Index.ofNat? b.number = some b) ∧
            ∀ q ∈ order.blocks.indices, Index.ofNat? q.number = some q) ∧
        (∀ engine : EngineState (Sealed ι), Stage p order engine → InRange p order engine) ∧
        (∀ done, (iterate p order steps (start p order)).result = .ok done → Stage p order done) ∧
        ∀ fault, (run p steps observer).result = .error (.fault fault) → fault = .outOfSteps ∨
          ∃ watching, observer = some watching ∧ ∃ shown view, watching shown view = .error fault := by
  cases fine : p.error? with
  | some e => exact .inl ⟨e, rfl, Problem.isStructural_of_error? fine, run_of_error fine⟩
  | none =>
    have ok := Problem.consistent_of_error? fine
    have within := Body.within_order ok
    refine .inr ⟨rfl, p.order, Body.checkedOrder_of_graphError? ok.graphError?_eq_none,
      Body.stackPostorder_eq ok.entry_mem ok.succ_mem, within, fun short => ?_, fun _ stage => stage.inRange ok,
      fun _ ended => Stage.start.of_iterate ended, fun fault failed => ?_⟩
    · exact ⟨fun b mem => Table.ofNat?_number short mem, fun q mem => Table.ofNat?_number (within.size_le.trans short) mem⟩
    · obtain refused | outOfSteps | ⟨watching, watches, shown, view, ⟨_, _, complaint⟩ | ⟨_, raised, same⟩⟩ :=
        error_of_run failed
      · exact (Problem.isStructural_of_error? refused).elim
      · exact .inl (RunError.fault.inj outOfSteps)
      · cases complaint
      · cases same
        exact .inr ⟨watching, watches, shown, view, raised⟩

/-- The check also looks at what a block that cannot be reached lists. -/
example : (Body.mk "stray" ∅ (.slot 0) (.ofList [{}, { preds := [.slot 7] }])).graphError? =
    some (.danglingEdge (.slot 7) (.slot 1)) := by
  decide

end Engine

end ForwardFlow
