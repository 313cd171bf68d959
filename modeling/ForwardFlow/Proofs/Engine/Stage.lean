import ForwardFlow.Proofs.Engine.Sealing
import ForwardFlow.Proofs.Engine.Worklist
import ForwardFlow.Proofs.Graph.CheckedOrder
import ForwardFlow.Proofs.Solver.Visited

namespace ForwardFlow

namespace Engine

open Recorded

variable {ι : Type} [DecidableEq ι] [Catalogue ι] {i : ι}

/-- The states the engine goes through while it visits blocks. -/
inductive Stage (p : Problem (Catalogue.Carrier i)) (order : BlockOrder) : EngineState (Sealed ι) → Prop
  | start : Stage p order (start p order)
  | next {engine next : EngineState (Sealed ι)} {b : Block} {worklist : Worklist} : Stage p order engine →
    engine.worklist.pop order = .ok (some (b, worklist)) →
    (visit p order { engine with worklist } b).result = .ok next → Stage p order next

/-- The visits end at a stage. -/
theorem Stage.of_iterate {p : Problem (Catalogue.Carrier i)} {order : BlockOrder} {steps : Nat}
    {engine done : EngineState (Sealed ι)} (stage : Stage p order engine)
    (ended : (iterate p order steps engine).result = .ok done) : Stage p order done := by
  induction steps generalizing engine with
  | zero =>
    unfold iterate at ended
    obtain ⟨_ | ⟨b, worklist⟩, _, same⟩ := result_bind_eq_ok.mp ended <;> cases same
    exact stage
  | succ steps ih =>
    unfold iterate at ended
    obtain ⟨_ | ⟨b, worklist⟩, popped, later⟩ := result_bind_eq_ok.mp ended
    · cases later
      exact stage
    · obtain ⟨next, visited, rest⟩ := result_bind_eq_ok.mp later
      exact ih (stage.next (result_checked_eq_ok.mp popped) visited) rest

/-- The engine has come as far as a run over typed values: its table holds their states under the tag, and its worklist
their pending blocks. -/
structure Follows (p : Problem (Catalogue.Carrier i)) (engine : EngineState (Sealed ι))
    (progress : Progress (Catalogue.Carrier i)) : Prop where
  exits : engine.exits = sealExits p.body progress.exits
  worklist : Worklist.Lists p.order p.policy engine.worklist progress.pending
  visits : engine.visits = progress.trail.length

section

variable {p : Problem (Catalogue.Carrier i)} (ok : p.body.Consistent) {engine : EngineState (Sealed ι)}
  {progress : Progress (Catalogue.Carrier i)}

include ok

theorem numbered_order : p.order.Numbered := BlockOrder.numbered_ofList ok.nodup_reversePostorder

theorem follows_start : Follows p (start p p.order) { pending := p.order.toList } where
  exits := by
    have nothing (b : Block) : ((∅ : Exits (Catalogue.Carrier i))[b]?).map (sealState i) = none := by simp
    exact congrArg (Table.ofIndices p.body.blocks.size) (funext fun b => (nothing b).symm)
  worklist := by
    have lists : Worklist.Lists p.order p.policy (start p p.order).worklist
        (p.order.toList.foldl (p.policy.enqueue p.order) []) :=
      Worklist.lists_empty.foldl_push (numbered_order ok) fun b mem => mem
    rwa [Policy.foldl_enqueue_eq_append (numbered_order ok).pairwise_rank] at lists
  visits := rfl

/-- A visit by the engine cannot fail, and does what the visit over typed values does. -/
theorem Follows.exists_visit (follows : Follows p engine progress) {b : Block} (reach : p.body.Reaches b) :
    ∃ next, (visit p p.order engine b).Gives next ∧ Follows p next (p.visit p.order progress b) := by
  obtain ⟨table, worklist, visits⟩ := engine
  obtain ⟨rfl, lists, rfl⟩ := follows
  dsimp only at lists
  have inside := reach.contains ok
  have input := gives_input p ok progress.exits inside
  cases arrived : p.input progress.exits b with
  | none =>
    rw [arrived] at input
    refine ⟨_, input.bind (gives_pure _), ?_⟩
    rw [Problem.visit, arrived]
    exact ⟨rfl, lists, rfl⟩
  | some s =>
    rw [arrived] at input
    obtain ⟨d, found⟩ := Table.exists_get? inside
    have elements : d.elements = p.body.elements b := by rw [Body.elements, found, Option.elim_some]
    have exit : (d.elements.foldlM (transfer p) (sealState i s)).Gives (sealState i (p.exitFrom b s)) :=
      elements ▸ gives_transferAll p s d.elements
    rw [p.visit_of_input p.order progress arrived]
    refine ⟨⟨sealExits p.body (progress.exits.insert b (p.exitFrom b s)),
      if Problem.isNew progress.exits b (p.exitFrom b s) then d.succs.foldl (Worklist.push p.order) worklist
      else worklist, progress.trail.length + 1⟩, input.bind ?_, rfl, ?_, ?_⟩
    · simp only [Option.map_some]
      rw [Table.read, found, checked_ok, pure_bind]
      refine exit.bind ?_
      rw [read_sealExits inside, checked_ok, pure_bind, isNew_seal, checked_ok, pure_bind, write_sealExits inside,
        checked_ok, pure_bind]
      exact gives_pure _
    · have succs : d.succs = p.body.succs b := (Body.succs_of_get? found).symm
      dsimp only
      rw [succs]
      split
      · exact lists.foldl_push (numbered_order ok) fun c edge => (Problem.mem_order ok).mpr (reach.succ edge)
      · exact lists
    · simp

/-- While a block is pending, the engine takes it out and visits it. -/
theorem Follows.exists_next (follows : Follows p engine progress) (stage : p.Stage progress) {b : Block}
    {rest : List Block} (pending : progress.pending = b :: rest) :
    ∃ worklist next, engine.worklist.pop p.order = .ok (some (b, worklist)) ∧
      (visit p p.order { engine with worklist } b).Gives next ∧
      Follows p next (p.visit p.order { progress with pending := rest } b) := by
  have lists := follows.worklist
  rw [pending] at lists
  obtain ⟨worklist, pop, lists⟩ := lists.pop_cons (numbered_order ok)
  have popped : Follows p { engine with worklist } { progress with pending := rest } :=
    ⟨follows.exits, lists, follows.visits⟩
  obtain ⟨next, visit, follows'⟩ := popped.exists_visit ok ((stage.reaches ok).1 b (pending ▸ List.mem_cons_self))
  exact ⟨worklist, next, pop, visit, follows'⟩

omit ok in
theorem Follows.gives_iterate_of_idle {steps : Nat} (follows : Follows p engine progress)
    (idle : progress.pending = []) :
    (iterate p p.order steps engine).Gives engine := by
  have lists := follows.worklist
  rw [idle] at lists
  unfold iterate
  rw [lists.pop_nil, checked_ok, pure_bind]
  exact gives_pure _

/-- The engine runs out of steps where the run over typed values does, and otherwise comes to the same end. -/
theorem Follows.ends_iterate (steps : Nat) (follows : Follows p engine progress) (stage : p.Stage progress) :
    match p.iterate p.order steps progress with
    | some last => ∃ done, (iterate p p.order steps engine).Gives done ∧ Follows p done last
    | none => (iterate p p.order steps engine).Ends [] (.error (.fault .outOfSteps)) := by
  induction steps generalizing engine progress with
  | zero =>
    unfold Problem.iterate
    cases pending : progress.pending with
    | nil => exact ⟨engine, follows.gives_iterate_of_idle pending, follows⟩
    | cons b rest =>
      have lists := follows.worklist
      rw [pending] at lists
      obtain ⟨worklist, pop, _⟩ := lists.pop_cons (numbered_order ok)
      unfold iterate
      rw [pop, checked_ok, pure_bind]
      exact ends_fail _
  | succ steps ih =>
    unfold Problem.iterate
    cases pending : progress.pending with
    | nil => exact ⟨engine, follows.gives_iterate_of_idle pending, follows⟩
    | cons b rest =>
      obtain ⟨worklist, next, pop, visit, follows'⟩ := follows.exists_next ok stage pending
      have later := ih follows' (stage.next pending)
      unfold iterate
      rw [pop, checked_ok, pure_bind]
      dsimp only
      split at later
      · obtain ⟨done, iterate, last⟩ := later
        exact ⟨done, visit.bind iterate, last⟩
      · exact visit.bind_ends later

/-- The stages of the engine are those of the run over typed values, under the tag. -/
theorem Stage.exists_follows (stage : Stage p p.order engine) :
    ∃ progress, p.Stage progress ∧ Follows p engine progress := by
  induction stage with
  | start => exact ⟨_, .start, follows_start ok⟩
  | @next engine next b worklist _ pop visited ih =>
    obtain ⟨progress, stage, follows⟩ := ih
    cases pending : progress.pending with
    | nil =>
      have lists := follows.worklist
      rw [pending] at lists
      cases lists.pop_nil.symm.trans pop
    | cons c rest =>
      obtain ⟨_, _, pop', visit, follows'⟩ := follows.exists_next ok stage pending
      cases pop'.symm.trans pop
      cases visit.result_eq.symm.trans visited
      exact ⟨_, stage.next pending, follows'⟩

theorem exists_stage (stage : p.Stage progress) : ∃ engine, Stage p p.order engine ∧ Follows p engine progress := by
  induction stage with
  | start => exact ⟨_, .start, follows_start ok⟩
  | next stage pending ih =>
    obtain ⟨engine, before, follows⟩ := ih
    obtain ⟨_, next, pop, visit, follows'⟩ := follows.exists_next ok stage pending
    exact ⟨next, before.next pop visit.result_eq, follows'⟩

end

end Engine

end ForwardFlow
