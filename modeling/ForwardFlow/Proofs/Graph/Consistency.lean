import Mathlib.Data.List.Basic
import ForwardFlow.Graph.Consistency

namespace ForwardFlow

/-- The blocks form a graph: the entry and both ends of each edge exist, and each edge is listed as often where it
starts as where it ends. -/
structure Body.Consistent (body : Body) : Prop where
  entry_mem : body.blocks.contains body.entry = true
  succ_mem : ∀ {a b}, b ∈ body.succs a → body.blocks.contains b = true
  pred_mem : ∀ {a b}, a ∈ body.preds b → body.blocks.contains a = true
  count_eq : ∀ a b, (body.succs a).count b = (body.preds b).count a

namespace Body

theorem succs_of_get? {body : Body} {b : Block} {d : BlockDef} (found : body.blocks.get? b = some d) :
    body.succs b = d.succs := by
  simp only [succs, found, Option.elim_some]

theorem preds_of_get? {body : Body} {b : Block} {d : BlockDef} (found : body.blocks.get? b = some d) :
    body.preds b = d.preds := by
  simp only [preds, found, Option.elim_some]

theorem get?_of_mem_succs {body : Body} {a b : Block} (mem : b ∈ body.succs a) :
    ∃ d, body.blocks.get? a = some d ∧ b ∈ d.succs := by
  cases found : body.blocks.get? a with
  | none => simp [succs, found] at mem
  | some d => exact ⟨d, rfl, succs_of_get? found ▸ mem⟩

theorem get?_of_mem_preds {body : Body} {a b : Block} (mem : a ∈ body.preds b) :
    ∃ d, body.blocks.get? b = some d ∧ a ∈ d.preds := by
  cases found : body.blocks.get? b with
  | none => simp [preds, found] at mem
  | some d => exact ⟨d, rfl, preds_of_get? found ▸ mem⟩

theorem get?_of_mem_elements {body : Body} {b : Block} {e : Element} (mem : e ∈ body.elements b) :
    ∃ d, body.blocks.get? b = some d ∧ e ∈ d.elements := by
  cases found : body.blocks.get? b with
  | none => simp [elements, found] at mem
  | some d => exact ⟨d, rfl, by rwa [elements, found] at mem⟩

theorem flatMap_succs (body : Body) :
    body.blocks.indices.flatMap body.succs = body.blocks.toList.flatMap BlockDef.succs := by
  rw [← Table.map_fst_toPairs, ← Table.map_snd_toPairs, List.flatMap_map, List.flatMap_map]
  refine List.flatMap_congr ?_
  rintro ⟨b, d⟩ mem
  exact succs_of_get? (Table.mem_toPairs.mp mem)

theorem contains_of_get? {body : Body} {b : Block} {d : BlockDef} (found : body.blocks.get? b = some d) :
    body.blocks.contains b = true := by
  rw [Table.contains_eq_isSome_get?, found, Option.isSome_some]

theorem succError?_eq_none {body : Body} {b succ : Block} {d : BlockDef} (fine : body.succError? b d succ = none) :
    body.blocks.contains succ = true ∧ d.succs.count succ = (body.preds succ).count b := by
  unfold succError? at fine
  split at fine
  · cases fine
  · rename_i target found
    refine ⟨contains_of_get? found, ?_⟩
    rw [preds_of_get? found]
    split at fine
    · assumption
    · cases fine

theorem predError?_eq_none {body : Body} {b pred : Block} (fine : body.predError? b pred = none) :
    body.blocks.contains pred = true ∧ b ∈ body.succs pred := by
  unfold predError? at fine
  split at fine
  · cases fine
  · rename_i source found
    refine ⟨contains_of_get? found, ?_⟩
    rw [succs_of_get? found]
    simpa using fine

theorem graphError?_eq_none {body : Body} (fine : body.graphError? = none) :
    body.blocks.contains body.entry = true ∧
      ∀ b d, body.blocks.get? b = some d →
        (∀ succ ∈ d.succs, body.succError? b d succ = none) ∧ ∀ pred ∈ d.preds, body.predError? b pred = none := by
  unfold graphError? at fine
  split at fine
  · rename_i entry
    refine ⟨entry, fun b d found => ?_⟩
    have block := List.findSome?_eq_none_iff.mp fine (b, d) (Table.mem_toPairs.mpr found)
    obtain ⟨succs, preds⟩ := Option.or_eq_none_iff.mp block
    exact ⟨List.findSome?_eq_none_iff.mp succs, List.findSome?_eq_none_iff.mp preds⟩
  · cases fine

/-- The check of the graph looks at each edge from both sides, so it leaves none that only one side lists. -/
theorem consistent_of_graphError? {body : Body} (fine : body.graphError? = none) : body.Consistent := by
  obtain ⟨entry, blocks⟩ := graphError?_eq_none fine
  have succ {a b : Block} (mem : b ∈ body.succs a) :
      body.blocks.contains b = true ∧ (body.succs a).count b = (body.preds b).count a := by
    obtain ⟨d, found, inside⟩ := get?_of_mem_succs mem
    rw [succs_of_get? found]
    exact succError?_eq_none ((blocks a d found).1 b inside)
  have pred {a b : Block} (mem : a ∈ body.preds b) : body.blocks.contains a = true ∧ b ∈ body.succs a := by
    obtain ⟨d, found, inside⟩ := get?_of_mem_preds mem
    exact predError?_eq_none ((blocks b d found).2 a inside)
  refine ⟨entry, fun mem => (succ mem).1, fun mem => (pred mem).1, fun a b => ?_⟩
  by_cases listed : b ∈ body.succs a
  · exact (succ listed).2
  · have unlisted : a ∉ body.preds b := fun mem => listed (pred mem).2
    rw [List.count_eq_zero.mpr listed, List.count_eq_zero.mpr unlisted]

theorem Consistent.mem_preds_iff {body : Body} (ok : body.Consistent) {a b : Block} :
    a ∈ body.preds b ↔ b ∈ body.succs a := by
  rw [← List.count_pos_iff, ← List.count_pos_iff, ok.count_eq]

/-- The check finds nothing wrong with a graph. -/
theorem Consistent.graphError?_eq_none {body : Body} (ok : body.Consistent) : body.graphError? = none := by
  rw [graphError?, if_pos ok.entry_mem, List.findSome?_eq_none_iff]
  rintro ⟨b, d⟩ mem
  have found := Table.mem_toPairs.mp mem
  refine Option.or_eq_none_iff.mpr ⟨?_, ?_⟩
  · refine List.findSome?_eq_none_iff.mpr fun succ listed => ?_
    rw [← succs_of_get? found] at listed
    obtain ⟨target, atSucc⟩ := Table.exists_get? (ok.succ_mem listed)
    have count := ok.count_eq b succ
    rw [succs_of_get? found, preds_of_get? atSucc] at count
    simp only [succError?, atSucc, count, if_true]
  · refine List.findSome?_eq_none_iff.mpr fun pred listed => ?_
    rw [← preds_of_get? found] at listed
    obtain ⟨source, atPred⟩ := Table.exists_get? (ok.pred_mem listed)
    have edge := ok.mem_preds_iff.mp listed
    rw [succs_of_get? atPred] at edge
    simp [predError?, atPred, edge]

end Body

end ForwardFlow
