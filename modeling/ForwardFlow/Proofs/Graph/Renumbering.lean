import Mathlib.Algebra.Group.End
import Mathlib.Data.List.Count
import Mathlib.Data.List.Nodup
import ForwardFlow.Proofs.Graph.Order
import ForwardFlow.Proofs.Graph.Search

namespace ForwardFlow

variable {σ : Equiv.Perm Block}

/-- Two searches have come equally far, if the blocks of the first go by other numbers in the second. -/
structure Search.Renumbered (σ : Equiv.Perm Block) (s t : Search) : Prop where
  entered : ∀ b, σ b ∈ t.entered ↔ b ∈ s.entered
  finished : t.finished = s.finished.map σ

namespace Search.Renumbered

variable {s t : Search} {succs succs' : Block → List Block}

theorem enter (same : Renumbered σ s t) (b : Block) :
    Renumbered σ { s with entered := s.entered.insert b } { t with entered := t.entered.insert (σ b) } := by
  refine ⟨fun c => ?_, same.finished⟩
  simp [same.entered]

/-- A search does not look at the numbers of the blocks. -/
theorem visit (edges : ∀ b, succs' (σ b) = (succs b).map σ) (same : Renumbered σ s t) (depth : Nat) (b : Block) :
    Renumbered σ (Search.visit succs depth s b) (Search.visit succs' depth t (σ b)) := by
  induction depth generalizing s t b with
  | zero => exact same
  | succ depth ih =>
    by_cases entered : b ∈ s.entered
    · rw [visit_of_mem entered, visit_of_mem ((same.entered b).mpr entered)]
      exact same
    · rw [visit_of_notMem entered, visit_of_notMem (mt (same.entered b).mp entered), edges, List.foldl_map]
      have inner := List.foldl_rel (r := Renumbered σ) (l := succs b) (same.enter b)
        fun c _ _ _ same => ih same c
      exact ⟨inner.entered, congrArg (σ b :: ·) inner.finished⟩

end Search.Renumbered

namespace BlockOrder

variable {l : List Block}

theorem position?_map (distinct : l.Nodup) (b : Block) :
    (ofList (l.map σ)).position? (σ b) = (ofList l).position? b := by
  refine Option.ext fun p => ?_
  rw [(numbered_ofList (List.Nodup.map σ.injective distinct)).position?_iff,
    (numbered_ofList distinct).position?_iff]
  cases p with
  | slot n => simp [ofList, Table.get?_slot]
  | invalid => simp [Table.get?]

theorem rank_map (distinct : l.Nodup) (b : Block) : (ofList (l.map σ)).rank (σ b) = (ofList l).rank b := by
  have size : (ofList (l.map σ)).blocks.size = (ofList l).blocks.size := by simp [ofList]
  rw [rank, rank, position?_map distinct, size]

end BlockOrder

/-- Two blocks have the same elements, and their lists name the same blocks in the same order, if these go by other
numbers in the second. -/
structure BlockDef.RenumberedBy (σ : Equiv.Perm Block) (d e : BlockDef) : Prop where
  elements : e.elements = d.elements
  succs : e.succs = d.succs.map σ
  preds : e.preds = d.preds.map σ

namespace Body

/-- The same blocks under other numbers. The labels are free. -/
structure RenumberedBy (body : Body) (σ : Equiv.Perm Block) (other : Body) : Prop where
  entry : other.entry = σ body.entry
  block : ∀ b, Option.Rel (BlockDef.RenumberedBy σ) (body.blocks.get? b) (other.blocks.get? (σ b))

def renumber (body : Body) (σ : Equiv.Perm Block) : Body where
  name := body.name
  vars := body.vars
  entry := σ body.entry
  blocks := .ofIndices body.blocks.size fun b =>
    let d := (body.blocks.get? (σ.symm b)).getD {}
    { d with preds := d.preds.map σ, succs := d.succs.map σ }

variable {body other : Body}

/-- The blocks can be given any numbers that are their own in another order. -/
theorem renumberedBy_renumber (inside : ∀ b, body.blocks.contains (σ b) = body.blocks.contains b) :
    body.RenumberedBy σ (body.renumber σ) := by
  refine ⟨rfl, fun b => ?_⟩
  rw [renumber, Table.get?_ofIndices, inside, Equiv.symm_apply_apply, Table.contains_eq_isSome_get?]
  cases body.blocks.get? b with
  | none => exact .none
  | some d => exact .some ⟨rfl, rfl, rfl⟩

namespace RenumberedBy

variable (same : body.RenumberedBy σ other)

include same

theorem get?_cases (b : Block) : (body.blocks.get? b = none ∧ other.blocks.get? (σ b) = none) ∨
    ∃ d e, body.blocks.get? b = some d ∧ other.blocks.get? (σ b) = some e ∧ d.RenumberedBy σ e := by
  have block := same.block b
  generalize body.blocks.get? b = one, other.blocks.get? (σ b) = two at block
  cases block with
  | none => exact .inl ⟨rfl, rfl⟩
  | some alike => exact .inr ⟨_, _, rfl, rfl, alike⟩

theorem contains (b : Block) : other.blocks.contains (σ b) = body.blocks.contains b := by
  rw [Table.contains_eq_isSome_get?, Table.contains_eq_isSome_get?]
  obtain ⟨missing, missing'⟩ | ⟨d, e, found, found', _⟩ := same.get?_cases b
  · rw [missing, missing']
  · rw [found, found', Option.isSome_some, Option.isSome_some]

theorem elements (b : Block) : other.elements (σ b) = body.elements b := by
  obtain ⟨missing, missing'⟩ | ⟨d, e, found, found', alike⟩ := same.get?_cases b
  · simp only [Body.elements, missing, missing', Option.elim_none]
  · simp only [Body.elements, found, found', Option.elim_some, alike.elements]

theorem succs (b : Block) : other.succs (σ b) = (body.succs b).map σ := by
  obtain ⟨missing, missing'⟩ | ⟨d, e, found, found', alike⟩ := same.get?_cases b
  · simp only [Body.succs, missing, missing', Option.elim_none, List.map_nil]
  · rw [succs_of_get? found, succs_of_get? found', alike.succs]

theorem preds (b : Block) : other.preds (σ b) = (body.preds b).map σ := by
  obtain ⟨missing, missing'⟩ | ⟨d, e, found, found', alike⟩ := same.get?_cases b
  · simp only [Body.preds, missing, missing', Option.elim_none, List.map_nil]
  · rw [preds_of_get? found, preds_of_get? found', alike.preds]

theorem size_eq : other.blocks.size = body.blocks.size := by
  have blocks : (body.blocks.indices.map σ).Perm other.blocks.indices := by
    refine (List.perm_ext_iff_of_nodup (List.Nodup.map σ.injective body.blocks.nodup_indices)
      other.blocks.nodup_indices).mpr fun b => ?_
    obtain ⟨b, rfl⟩ := σ.surjective b
    rw [List.mem_map_of_injective σ.injective, Table.mem_indices, Table.mem_indices, same.contains]
  simpa using blocks.length_eq.symm

theorem consistent (ok : body.Consistent) : other.Consistent := by
  refine ⟨?_, fun {a b} edge => ?_, fun {a b} edge => ?_, fun a b => ?_⟩
  · rw [same.entry, same.contains]
    exact ok.entry_mem
  · obtain ⟨a, rfl⟩ := σ.surjective a
    rw [same.succs] at edge
    obtain ⟨b, edge', rfl⟩ := List.mem_map.mp edge
    rw [same.contains]
    exact ok.succ_mem edge'
  · obtain ⟨b, rfl⟩ := σ.surjective b
    rw [same.preds] at edge
    obtain ⟨a, edge', rfl⟩ := List.mem_map.mp edge
    rw [same.contains]
    exact ok.pred_mem edge'
  · obtain ⟨a, rfl⟩ := σ.surjective a
    obtain ⟨b, rfl⟩ := σ.surjective b
    rw [same.succs, same.preds, List.count_map_of_injective _ _ σ.injective,
      List.count_map_of_injective _ _ σ.injective]
    exact ok.count_eq a b

theorem reversePostorder_eq : other.reversePostorder = body.reversePostorder.map σ := by
  have search := Search.Renumbered.visit same.succs (s := {}) (t := {}) ⟨by simp, rfl⟩ body.blocks.size body.entry
  rw [reversePostorder, same.entry, same.size_eq, search.finished]
  rfl

end RenumberedBy

end Body

end ForwardFlow
