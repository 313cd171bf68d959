import Mathlib.Algebra.Group.End
import Mathlib.Data.List.Nodup
import Mathlib.Data.List.Range
import ForwardFlow.Program.Line
import ForwardFlow.Program.Printer

namespace ForwardFlow

section Text

variable {kind : Kind}

theorem Index.toList_text (i : Index kind) : i.text.toList = kind.tag.toList ++ Nat.toDigits 10 i.number := by
  rw [text, String.toList_append, Nat.toString_eq_repr, Nat.toList_repr]

theorem Index.text_inj {i j : Index kind} : i.text = j.text ↔ i.number = j.number := by
  rw [← String.toList_inj, toList_text, toList_text, List.append_cancel_left_eq]
  constructor
  · intro same
    have read := congrArg (Nat.ofDigitChars 10 · 0) same
    simpa only [Nat.ofDigitChars_ten_toDigits] using read
  · exact congrArg _

/-- The name a block is given when it has no label is a name indeed. -/
theorem isIdent_text (b : Block) : isIdent b.text.toList = true := by
  have digits : ∀ c ∈ Nat.toDigits 10 b.number, (c.isAlphanum || c == '_' || c == '.') = true := by
    intro c mem
    have digit := Nat.isDigit_of_mem_toDigits (by decide) (by decide) mem
    simp only [Char.isAlphanum, digit, Bool.or_true, Bool.true_or]
  have tail : ∀ c ∈ "lock".toList ++ Nat.toDigits 10 b.number, (c.isAlphanum || c == '_' || c == '.') = true := by
    intro c mem
    obtain word | number := List.mem_append.mp mem
    · exact List.all_eq_true.mp (by decide : "lock".toList.all fun c => c.isAlphanum || c == '_' || c == '.') c word
    · exact digits c number
  rw [Index.toList_text]
  exact List.all_eq_true.mpr tail

end Text

namespace Body

/-- The label a block was given, if any. -/
def label? (body : Body) (b : Block) : Option String := (body.blocks.get? b).bind BlockDef.label

/-- The number of a block when the entry comes first and the others keep their order. -/
def place (body : Body) (b : Block) : Block :=
  if b = body.entry then .slot 0 else if b.number < body.entry.number then .slot (b.number + 1) else b

variable {body : Body} {a b : Block}

theorem labelOf_eq (body : Body) (b : Block) : body.labelOf b = (body.label? b).getD b.text := rfl

theorem exists_slot_of_contains (inside : body.blocks.contains b = true) : ∃ n, b = .slot n ∧ n < body.blocks.size := by
  cases b with
  | invalid => cases inside
  | slot n => exact ⟨n, rfl, of_decide_eq_true inside⟩

theorem printOrder_eq {e : Nat} (entry : body.entry = .slot e) : body.printOrder =
    (e :: (List.range (min body.blocks.size e) ++ List.range' (e + 1) (body.blocks.size - (e + 1)))).map .slot := by
  have others : (List.range body.blocks.size).filter (· != e) =
      List.range (min body.blocks.size e) ++ List.range' (e + 1) (body.blocks.size - (e + 1)) := by
    rw [← List.nodup_range.erase_eq_filter, List.erase_range]
  have filter (n : Nat) : ((.slot n : Block) != .slot e) = (n != e) := by simp [bne]
  simp only [printOrder, entry, Table.indices, List.filter_map, Function.comp_def, filter, others, List.map_cons]

variable (entry : body.blocks.contains body.entry = true)

include entry

theorem length_printOrder : body.printOrder.length = body.blocks.size := by
  obtain ⟨e, first, short⟩ := exists_slot_of_contains entry
  rw [printOrder_eq first]
  simp only [List.length_map, List.length_cons, List.length_append, List.length_range, List.length_range']
  omega

/-- Each block stands at its place. -/
theorem getElem?_printOrder (inside : body.blocks.contains b = true) :
    ∃ n, body.place b = .slot n ∧ body.printOrder[n]? = some b := by
  obtain ⟨e, first, shortE⟩ := exists_slot_of_contains entry
  obtain ⟨m, rfl, short⟩ := exists_slot_of_contains inside
  rw [printOrder_eq first, place, first]
  simp only [List.getElem?_map, Index.slot.injEq, Index.number]
  by_cases same : m = e
  · exact ⟨0, by rw [if_pos same], by simp [same]⟩
  rw [if_neg same]
  by_cases before : m < e
  · refine ⟨m + 1, if_pos before, ?_⟩
    have inFront : m < (List.range (min body.blocks.size e)).length := by
      rw [List.length_range]
      omega
    rw [List.getElem?_cons_succ, List.getElem?_append_left inFront, List.getElem?_range (by omega)]
    rfl
  · obtain ⟨n, rfl⟩ : ∃ n, m = n + 1 := ⟨m - 1, by omega⟩
    refine ⟨n + 1, if_neg before, ?_⟩
    have behind : (List.range (min body.blocks.size e)).length ≤ n := by
      rw [List.length_range]
      omega
    rw [List.getElem?_cons_succ, List.getElem?_append_right behind, List.length_range, List.getElem?_range' (by omega)]
    exact congrArg (some ∘ Index.slot) (by omega)

theorem mem_printOrder : b ∈ body.printOrder ↔ body.blocks.contains b = true := by
  constructor
  · intro mem
    obtain rfl | other := List.mem_cons.mp mem
    · exact entry
    · exact Table.mem_indices.mp (List.mem_filter.mp other).1
  · intro inside
    obtain ⟨n, _, here⟩ := getElem?_printOrder entry inside
    exact List.mem_of_getElem? here

omit entry in
theorem nodup_printOrder (body : Body) : body.printOrder.Nodup :=
  List.nodup_cons.mpr ⟨by simp, body.blocks.nodup_indices.filter _⟩

theorem place_inj (insideA : body.blocks.contains a = true) (insideB : body.blocks.contains b = true)
    (same : body.place a = body.place b) : a = b := by
  obtain ⟨m, atA, hereA⟩ := getElem?_printOrder entry insideA
  obtain ⟨n, atB, hereB⟩ := getElem?_printOrder entry insideB
  cases atA.symm.trans (same.trans atB)
  exact Option.some.inj (hereA.symm.trans hereB)

/-- Each number is that of a block. -/
theorem exists_place {n : Nat} (short : n < body.blocks.size) :
    ∃ b, body.blocks.contains b = true ∧ body.place b = .slot n := by
  rw [← length_printOrder entry] at short
  have inside := (mem_printOrder entry).mp (List.getElem_mem short)
  obtain ⟨m, atM, here⟩ := getElem?_printOrder entry inside
  obtain ⟨short', same⟩ := List.getElem?_eq_some_iff.mp here
  refine ⟨_, inside, atM.trans (congrArg Index.slot ?_)⟩
  exact (body.nodup_printOrder.getElem_inj_iff).mp same

theorem contains_blocks_place (inside : body.blocks.contains b = true) :
    body.blocks.contains (body.place b) = true := by
  obtain ⟨n, place, here⟩ := getElem?_printOrder entry inside
  rw [place]
  exact decide_eq_true (length_printOrder entry ▸ (List.getElem?_eq_some_iff.mp here).1)

/-- Whoever puts the blocks in their places gives each of them the number of one. -/
theorem exists_perm_place : ∃ σ : Equiv.Perm Block, (∀ b, body.blocks.contains (σ b) = body.blocks.contains b) ∧
    ∀ b, body.blocks.contains b = true → σ b = body.place b := by
  let put (b : { b : Block // body.blocks.contains b = true }) : { b : Block // body.blocks.contains b = true } :=
    ⟨body.place b, contains_blocks_place entry b.2⟩
  have bijective : Function.Bijective put := by
    constructor
    · intro a b same
      exact Subtype.ext (place_inj entry a.2 b.2 (congrArg Subtype.val same))
    · rintro ⟨b, inside⟩
      obtain ⟨n, rfl, short⟩ := exists_slot_of_contains inside
      obtain ⟨a, insideA, place⟩ := exists_place entry short
      exact ⟨⟨a, insideA⟩, Subtype.ext place⟩
  let τ := Equiv.ofBijective put bijective
  refine ⟨Equiv.Perm.ofSubtype τ, fun b => ?_, fun b inside => Equiv.Perm.ofSubtype_apply_of_mem τ inside⟩
  exact Bool.eq_iff_iff.mpr (Equiv.Perm.ofSubtype_apply_mem_iff_mem τ b)

end Body

end ForwardFlow
