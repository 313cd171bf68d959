import ForwardFlow.Proofs.Graph.Order
import ForwardFlow.Proofs.Graph.Postorder
import ForwardFlow.Proofs.Graph.Stack
import ForwardFlow.Solver.CheckedOrder

namespace ForwardFlow

/-- What an error says of a body is the case. -/
def GraphError.Holds (body : Body) : GraphError → Prop
  | .invalidEntry entry => entry = body.entry ∧ body.blocks.contains entry = false
  | .danglingEdge a b => (b ∈ body.succs a ∨ a ∈ body.preds b) ∧ body.blocks.contains a ≠ body.blocks.contains b
  | .inconsistentEdge a b => body.blocks.contains a = true ∧ body.blocks.contains b = true ∧
      (body.succs a).count b ≠ (body.preds b).count a

namespace Body

variable {body : Body} {a b : Block} {d : BlockDef} {error : GraphError}

theorem contains_eq_false (missing : body.blocks.get? b = none) : body.blocks.contains b = false := by
  rw [Table.contains_eq_isSome_get?, missing, Option.isSome_none]

theorem holds_of_succError? (found : body.blocks.get? a = some d) (listed : b ∈ d.succs)
    (faulty : body.succError? a d b = some error) : error.Holds body := by
  have here := contains_of_get? found
  rw [← succs_of_get? found] at listed
  unfold succError? at faulty
  split at faulty
  · rename_i missing
    cases faulty
    exact ⟨.inl listed, by simp [here, contains_eq_false missing]⟩
  · rename_i target atB
    split at faulty <;> cases faulty
    rename_i differ
    rw [← succs_of_get? found, ← preds_of_get? atB] at differ
    exact ⟨here, contains_of_get? atB, differ⟩

/-- From the side of the predecessors only membership is looked at. That tells the counts apart: the edge is listed here
and not there. -/
theorem holds_of_predError? (found : body.blocks.get? b = some d) (listed : a ∈ d.preds)
    (faulty : body.predError? b a = some error) : error.Holds body := by
  have here := contains_of_get? found
  rw [← preds_of_get? found] at listed
  unfold predError? at faulty
  split at faulty
  · rename_i missing
    cases faulty
    exact ⟨.inr listed, by simp [here, contains_eq_false missing]⟩
  · rename_i source atA
    split at faulty <;> cases faulty
    rename_i unlisted
    rw [← succs_of_get? atA, List.contains_iff_mem] at unlisted
    refine ⟨contains_of_get? atA, here, ?_⟩
    rw [List.count_eq_zero.mpr unlisted]
    exact (List.count_pos_iff.mpr listed).ne

theorem holds_of_graphError? (faulty : body.graphError? = some error) : error.Holds body := by
  unfold graphError? at faulty
  split at faulty
  · obtain ⟨⟨b, d⟩, mem, atBlock⟩ := List.exists_of_findSome?_eq_some faulty
    have found := Table.mem_toPairs.mp mem
    obtain ahead | ⟨_, back⟩ := Option.or_eq_some_iff.mp atBlock
    · obtain ⟨succ, listed, atSucc⟩ := List.exists_of_findSome?_eq_some ahead
      exact holds_of_succError? found listed atSucc
    · obtain ⟨pred, listed, atPred⟩ := List.exists_of_findSome?_eq_some back
      exact holds_of_predError? found listed atPred
  · rename_i outside
    cases faulty
    exact ⟨rfl, Bool.eq_false_iff.mpr outside⟩

/-- It is enough to look at the lists of the blocks there are. -/
theorem consistent_iff : body.Consistent ↔ body.blocks.contains body.entry = true ∧
    (∀ a d, body.blocks.get? a = some d → ∀ b, b ∈ d.succs ∨ b ∈ d.preds → body.blocks.contains b = true) ∧
    ∀ a b d e, body.blocks.get? a = some d → body.blocks.get? b = some e → d.succs.count b = e.preds.count a := by
  constructor
  · intro ok
    refine ⟨ok.entry_mem, fun a d found b listed => ?_, fun a b d e atA atB => ?_⟩
    · rw [← succs_of_get? found, ← preds_of_get? found] at listed
      exact listed.elim ok.succ_mem ok.pred_mem
    · rw [← succs_of_get? atA, ← preds_of_get? atB]
      exact ok.count_eq a b
  · rintro ⟨entry, inside, counts⟩
    have succ {a b : Block} (mem : b ∈ body.succs a) :
        body.blocks.contains a = true ∧ body.blocks.contains b = true := by
      obtain ⟨d, found, listed⟩ := get?_of_mem_succs mem
      exact ⟨contains_of_get? found, inside a d found b (.inl listed)⟩
    have pred {a b : Block} (mem : a ∈ body.preds b) :
        body.blocks.contains a = true ∧ body.blocks.contains b = true := by
      obtain ⟨d, found, listed⟩ := get?_of_mem_preds mem
      exact ⟨inside b d found a (.inr listed), contains_of_get? found⟩
    refine ⟨entry, fun mem => (succ mem).2, fun mem => (pred mem).1, fun a b => ?_⟩
    by_cases both : body.blocks.contains a = true ∧ body.blocks.contains b = true
    · obtain ⟨d, atA⟩ := Table.exists_get? both.1
      obtain ⟨e, atB⟩ := Table.exists_get? both.2
      rw [succs_of_get? atA, preds_of_get? atB]
      exact counts a b d e atA atB
    · rw [List.count_eq_zero.mpr fun mem => both (succ mem), List.count_eq_zero.mpr fun mem => both (pred mem)]

/-- Once the graph has been checked, nothing goes wrong when the blocks are ordered. -/
theorem checkedOrder_of_graphError? (fine : body.graphError? = none) :
    body.checkedOrder = .ok (.ofList body.reversePostorder) := by
  have ok := consistent_of_graphError? fine
  rw [checkedOrder, fine, stackPostorder_eq ok.entry_mem ok.succ_mem]
  rfl

/-- Nothing but the check of the graph keeps a body from being ordered. -/
theorem checkedOrder_eq_error_iff {e : RunError} :
    body.checkedOrder = .error e ↔ ∃ error, body.graphError? = some error ∧ e = .graph error := by
  cases found : body.graphError? with
  | none => simp [checkedOrder_of_graphError? found]
  | some error => simp [checkedOrder, found, eq_comm]

theorem exists_checkedOrder_iff : (∃ order, body.checkedOrder = .ok order) ↔ body.graphError? = none := by
  constructor
  · rintro ⟨order, checked⟩
    refine Option.eq_none_iff_forall_not_mem.mpr fun error found => ?_
    cases (checkedOrder_eq_error_iff.mpr ⟨error, found, rfl⟩).symm.trans checked
  · exact fun fine => ⟨_, checkedOrder_of_graphError? fine⟩

/-- The check accepts exactly the graphs in which the entry and all blocks that are named exist, and each edge is listed
as often where it starts as where it ends. The error it gives otherwise is one the body has. -/
theorem checkedOrder_accepts_iff (body : Body) :
    ((∃ order, body.checkedOrder = .ok order) ↔ body.blocks.contains body.entry = true ∧
      (∀ a d, body.blocks.get? a = some d → ∀ b, b ∈ d.succs ∨ b ∈ d.preds → body.blocks.contains b = true) ∧
      ∀ a b d e, body.blocks.get? a = some d → body.blocks.get? b = some e → d.succs.count b = e.preds.count a) ∧
    ∀ e, body.checkedOrder = .error e → ∃ error, e = .graph error ∧ error.Holds body := by
  constructor
  · rw [exists_checkedOrder_iff, ← consistent_iff]
    exact ⟨consistent_of_graphError?, fun ok => ok.graphError?_eq_none⟩
  · intro e refused
    obtain ⟨error, found, rfl⟩ := checkedOrder_eq_error_iff.mp refused
    exact ⟨error, rfl, holds_of_graphError? found⟩

/-- From a block to one that does not come later, an edge leads only if a path leads back. -/
theorem Consistent.leads_back (ok : body.Consistent) (reach : body.Reaches a) (edge : b ∈ body.succs a)
    (before : (BlockOrder.ofList body.reversePostorder).rank b ≤ (BlockOrder.ofList body.reversePostorder).rank a) :
    Relation.ReflTransGen (fun a c => c ∈ body.succs a) b a := by
  have numbered := BlockOrder.numbered_ofList ok.nodup_reversePostorder
  have memA := ok.mem_reversePostorder.mpr reach
  have memB := ok.mem_reversePostorder.mpr (reach.succ edge)
  obtain less | same := before.lt_or_eq
  · exact numbered.rel_of_rank_lt ok.pairwise_reversePostorder memB memA less edge
  · have atB := numbered.getElem?_rank memB
    rw [same, numbered.getElem?_rank memA] at atB
    cases atB
    exact .refl

/-- The order of a body that was checked lists the reachable blocks and no other, each once and the entry first, and
gives each its position. A reachable block other than the entry comes later than one of its predecessors. An edge that
does not lead forward closes a cycle, so without cycles all edges lead forward. -/
theorem reversePostorder_of_checkedOrder {order : BlockOrder} (checked : body.checkedOrder = .ok order) :
    order.toList.Nodup ∧ (∀ b, b ∈ order.toList ↔ body.Reaches b) ∧ order.toList.head? = some body.entry ∧
    (∀ b p, order.position? b = some p ↔ order.blocks.get? p = some b) ∧
    (∀ b, order.position? b = none ↔ ¬body.Reaches b) ∧
    (∀ b, body.Reaches b → b ≠ body.entry → ∃ a ∈ body.preds b, body.Reaches a ∧ order.rank a < order.rank b) ∧
    (∀ a b, body.Reaches a → b ∈ body.succs a → order.rank b ≤ order.rank a →
      Relation.ReflTransGen (fun a c => c ∈ body.succs a) b a) ∧
    (body.Acyclic → ∀ a b, body.Reaches a → b ∈ body.succs a → order.rank a < order.rank b) := by
  have fine := exists_checkedOrder_iff.mp ⟨order, checked⟩
  have ok := consistent_of_graphError? fine
  cases (checkedOrder_of_graphError? fine).symm.trans checked
  have numbered := BlockOrder.numbered_ofList ok.nodup_reversePostorder
  have listed {b : Block} : b ∈ (BlockOrder.ofList body.reversePostorder).toList ↔ body.Reaches b :=
    ok.mem_reversePostorder
  refine ⟨ok.nodup_reversePostorder, fun _ => listed, ok.head?_reversePostorder, fun _ _ => numbered.position?_iff,
    fun b => numbered.position?_eq_none_iff.trans (not_congr listed), fun b reach other => ?_,
    fun _ _ => ok.leads_back, fun acyclic a b reach edge => ?_⟩
  · obtain ⟨a, before, edge⟩ := ok.exists_earlier reach other
    have less := List.pairwise_pair.mp (numbered.pairwise_rank.sublist before)
    exact ⟨a, ok.mem_preds_iff.mpr edge, listed.mp (before.subset List.mem_cons_self), less⟩
  · by_contra before
    exact acyclic a reach (.head' edge (ok.leads_back reach edge (Nat.le_of_not_lt before)))

/-- The edge that closes the loop leads to an earlier block, from which a path leads back. -/
theorem reversePostorder_of_checkedOrder_countingLoop : ∃ order, countingLoop.checkedOrder = .ok order ∧
    order.toList.head? = some (.slot 0) ∧ order.rank (.slot 1) ≤ order.rank (.slot 2) ∧
    Relation.ReflTransGen (fun a c => c ∈ countingLoop.succs a) (.slot 1) (.slot 2) := by
  have checked : countingLoop.checkedOrder = .ok (.ofList countingLoop.reversePostorder) :=
    checkedOrder_of_graphError? (by decide)
  have earlier : (BlockOrder.ofList countingLoop.reversePostorder).rank (.slot 1) ≤
      (BlockOrder.ofList countingLoop.reversePostorder).rank (.slot 2) := by decide +kernel
  obtain ⟨_, _, first, _, _, _, back, _⟩ := reversePostorder_of_checkedOrder checked
  exact ⟨_, checked, first, earlier, back _ _ countingLoop_path.reaches (by decide) earlier⟩

end Body

end ForwardFlow
