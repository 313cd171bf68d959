import Mathlib.Data.List.Count
import Mathlib.Data.Prod.Basic
import ForwardFlow.Proofs.Program.Edges
import ForwardFlow.Proofs.Program.PrintOrder
import ForwardFlow.Proofs.Program.RoundTrip

namespace ForwardFlow

open Text (isBlank)

namespace Outline

variable {o : Outline} {a b : Block}

theorem count_sources (edges : List (Block × Block)) (a b : Block) :
    (edges.filterMap fun (source, target) => if target = b then some source else none).count a =
      edges.count (a, b) := by
  induction edges with
  | nil => rfl
  | cons edge edges ih =>
    obtain ⟨source, target⟩ := edge
    rw [List.filterMap_cons, List.count_cons, ← ih]
    by_cases here : target = b
    · simp [here, List.count_cons]
    · simp [here]

theorem count_targets (source : Block) (targets : List Block) (a b : Block) :
    (targets.map fun target => (source, target)).count (a, b) = if source = a then targets.count b else 0 := by
  split
  · rename_i here
    subst here
    exact List.count_map_of_injective targets _ (Prod.mk_right_injective source) b
  · rename_i other
    refine List.count_eq_zero.mpr fun mem => ?_
    obtain ⟨_, _, same⟩ := List.mem_map.mp mem
    exact other (Prod.mk.inj same).1

theorem count_edgesFrom (blocks : List OutlineBlock) (k m : Nat) (b : Block) :
    ((blocks.zipIdx k).flatMap fun (block, n) => block.targets.map fun target => ((.slot n : Block), target)).count
        (.slot m, b) =
      if k ≤ m then (blocks[m - k]?.elim [] OutlineBlock.targets).count b else 0 := by
  induction blocks generalizing k with
  | nil => simp
  | cons block blocks ih =>
    rw [List.zipIdx_cons, List.flatMap_cons, List.count_append, count_targets, ih]
    simp only [Index.slot.injEq]
    obtain before | rfl | behind := Nat.lt_trichotomy k m
    · have next : m - k = m - (k + 1) + 1 := by omega
      rw [if_neg before.ne, if_pos (Nat.succ_le_of_lt before), if_pos before.le, next, List.getElem?_cons_succ,
        Nat.zero_add]
    · simp
    · rw [if_neg behind.ne', if_neg (by omega), if_neg (by omega)]

/-- In the body an outline describes, each edge is listed as often where it starts as where it ends. -/
theorem toBody_count_eq (o : Outline) (a b : Block) : (o.toBody.succs a).count b = (o.predsOf b).count a := by
  rw [predsOf, count_sources]
  cases a with
  | invalid =>
    refine (List.count_eq_zero.mpr fun mem => ?_).symm
    obtain ⟨_, _, inside⟩ := List.mem_flatMap.mp mem
    obtain ⟨_, _, same⟩ := List.mem_map.mp inside
    cases same
  | slot n =>
    rw [edges, count_edgesFrom, Body.succs, get?_toBody, if_pos n.zero_le, Nat.sub_zero]
    cases o.blocks[n]? <;> rfl

end Outline

namespace Body

/-- The names in a body are as a text can hold them: the function has a name, variables and blocks have names that are
told apart, and the elements are as a reader leaves them. A block need not have a name. -/
structure Named (body : Body) : Prop where
  name : Content body.name.toList
  scope : body.vars.Fine
  elements : ∀ b, ∀ e ∈ body.elements b, e.Fine body.vars
  ident : ∀ b label, body.label? b = some label → isIdent label.toList = true
  distinct : ∀ a b label, body.label? a = some label → body.label? b = some label → a = b

/-- No block has the label that the text makes up for another. -/
def Fresh (body : Body) : Prop :=
  ∀ a b, body.blocks.contains b = true → body.label? b = none → body.label? a ≠ some b.text

/-- The same function, with the entry in front and every block named. -/
structure Renumbered (body again : Body) : Prop where
  name : again.name = body.name
  vars : again.vars = body.vars
  entry : again.entry = .slot 0
  size : again.blocks.size = body.blocks.size
  block : ∀ b d, body.blocks.get? b = some d → ∃ preds, preds.Perm (d.preds.map body.place) ∧
    again.blocks.get? (body.place b) = some ⟨some (body.labelOf b), d.elements, preds, d.succs.map body.place⟩

/-- A body as it is printed. -/
def outline (body : Body) : Outline where
  name := body.name
  vars := body.vars.toList
  blocks := body.printOrder.map fun b => ⟨body.labelOf b, body.elements b, (body.succs b).map body.place⟩

variable {body : Body} {a b : Block}

theorem labels_outline (body : Body) : body.outline.labels = body.printOrder.map body.labelOf := List.map_map

theorem ident_labelOf (named : body.Named) (b : Block) : isIdent (body.labelOf b).toList = true := by
  rw [labelOf_eq]
  cases given : body.label? b with
  | none => exact isIdent_text b
  | some label => exact named.ident b label given

/-- When no label stands in the way of a made-up one, the blocks are told apart by the labels they are printed with. -/
theorem labelOf_inj (named : body.Named) (fresh : body.Fresh) (insideA : body.blocks.contains a = true)
    (insideB : body.blocks.contains b = true) (same : body.labelOf a = body.labelOf b) : a = b := by
  rw [labelOf_eq, labelOf_eq] at same
  cases givenA : body.label? a with
  | none =>
    rw [givenA, Option.getD_none] at same
    cases givenB : body.label? b with
    | none =>
      rw [givenB, Option.getD_none, Index.text_inj] at same
      obtain ⟨m, rfl, _⟩ := exists_slot_of_contains insideA
      obtain ⟨n, rfl, _⟩ := exists_slot_of_contains insideB
      exact congrArg Index.slot same
    | some label =>
      rw [givenB, Option.getD_some] at same
      exact absurd (same ▸ givenB) (fresh b a insideA givenA)
  | some label =>
    rw [givenA, Option.getD_some] at same
    cases givenB : body.label? b with
    | none =>
      rw [givenB, Option.getD_none] at same
      exact absurd (same ▸ givenA) (fresh a b insideB givenB)
    | some label' =>
      rw [givenB, Option.getD_some] at same
      exact named.distinct a b label givenA (same ▸ givenB)

section

variable (ok : body.Consistent)

include ok

theorem fineLabels_outline (named : body.Named) (fresh : body.Fresh) : FineLabels body.outline.labels := by
  rw [labels_outline]
  constructor
  · intro label mem
    obtain ⟨b, _, rfl⟩ := List.mem_map.mp mem
    exact ident_labelOf named b
  · refine body.nodup_printOrder.map_on fun a memA b memB same => ?_
    exact labelOf_inj named fresh ((mem_printOrder ok.entry_mem).mp memA) ((mem_printOrder ok.entry_mem).mp memB) same

/-- What stands at the place of a block in the outline is the block. -/
theorem getElem?_outline (inside : body.blocks.contains b = true) : ∃ n, body.place b = .slot n ∧
    body.outline.labels[n]? = some (body.labelOf b) ∧
    body.outline.blocks[n]? = some ⟨body.labelOf b, body.elements b, (body.succs b).map body.place⟩ := by
  obtain ⟨n, place, here⟩ := getElem?_printOrder ok.entry_mem inside
  refine ⟨n, place, ?_, ?_⟩
  · rw [labels_outline, List.getElem?_map, here, Option.map_some]
  · rw [outline, List.getElem?_map, here, Option.map_some]

theorem labelAt_place (inside : body.blocks.contains b = true) :
    labelAt body.outline.labels (body.place b) = body.labelOf b := by
  obtain ⟨n, place, label, _⟩ := getElem?_outline ok inside
  rw [labelAt, place, Table.get?_slot, Table.toList_ofList, label, Option.getD_some]

theorem contains_place (inside : body.blocks.contains b = true) :
    (Table.ofList body.outline.labels : Table .block String).contains (body.place b) = true := by
  obtain ⟨n, place, label, _⟩ := getElem?_outline ok inside
  rw [Table.contains_eq_isSome_get?, place, Table.get?_slot, Table.toList_ofList, label, Option.isSome_some]

theorem fine_outline (named : body.Named) (fresh : body.Fresh) : body.outline.Fine where
  header := ⟨named.name, named.scope⟩
  some := List.cons_ne_nil _ _
  labels := fineLabels_outline ok named fresh
  blocks block mem := by
    obtain ⟨b, listed, rfl⟩ := List.mem_map.mp mem
    refine ⟨?_, named.elements b, fun target mem => ?_⟩
    · rw [labels_outline]
      exact List.mem_map_of_mem listed
    · obtain ⟨c, edge, rfl⟩ := List.mem_map.mp mem
      exact contains_place ok (ok.succ_mem edge)

/-- A body is printed as its outline. -/
theorem lines?_outline : body.lines? = some (body.outline.printed.map fun l => l.1 ++ l.2) := by
  refine Outline.lines?_of_blocks rfl rfl ?_
  rw [outline, List.forall₂_map_right_iff]
  refine List.forall₂_same.mpr fun b listed => ?_
  have inside := (mem_printOrder ok.entry_mem).mp listed
  rw [Table.contains_eq_isSome_get?, Option.isSome_iff_exists] at inside
  obtain ⟨d, found⟩ := inside
  have targets : d.succs.map (fun s => (body.labelOf s).toList) =
      (d.succs.map body.place).map fun t => (labelAt body.outline.labels t).toList := by
    rw [List.map_map]
    refine List.map_congr_left fun c edge => ?_
    have inside := ok.succ_mem (succs_of_get? found ▸ edge)
    rw [Function.comp_apply, labelAt_place ok inside]
  have elements : body.elements b = d.elements := by rw [Body.elements, found, Option.elim_some]
  rw [found, Option.map_some, blockLines, targets, succs_of_get? found, elements, OutlineBlock.contents]
  simp only [List.isEmpty_map]
  rfl

theorem count_map_place {blocks : List Block} (inside : ∀ a ∈ blocks, body.blocks.contains a = true)
    (insideB : body.blocks.contains b = true) : (blocks.map body.place).count (body.place b) = blocks.count b := by
  rw [List.count, List.count, List.countP_map]
  refine List.countP_congr fun a mem => ?_
  rw [Function.comp_apply, beq_iff_eq, beq_iff_eq]
  exact ⟨place_inj ok.entry_mem (inside a mem) insideB, congrArg body.place⟩

theorem perm_predsOf (inside : body.blocks.contains b = true) :
    (body.outline.predsOf (body.place b)).Perm ((body.preds b).map body.place) := by
  refine List.perm_iff_count.mpr fun x => ?_
  rw [← Outline.toBody_count_eq]
  by_cases listed : ∃ a, body.blocks.contains a = true ∧ body.place a = x
  · obtain ⟨a, insideA, rfl⟩ := listed
    obtain ⟨n, place, _, here⟩ := getElem?_outline ok insideA
    have succs : body.outline.toBody.succs (body.place a) = (body.succs a).map body.place := by
      rw [Body.succs, place, Outline.get?_toBody, here, Option.map_some, Option.elim_some]
    rw [succs, count_map_place ok (fun _ edge => ok.succ_mem edge) inside,
      count_map_place ok (fun _ edge => ok.pred_mem edge) insideA, ok.count_eq]
  · -- The number is that of no block, so no edge starts there.
    have outside : body.outline.toBody.blocks.get? x = none := by
      cases x with
      | invalid => rfl
      | slot n =>
        rw [Outline.get?_toBody, Option.map_eq_none_iff, List.getElem?_eq_none_iff, outline, List.length_map,
          length_printOrder ok.entry_mem]
        exact Nat.le_of_not_lt fun short => listed (exists_place ok.entry_mem short)
    rw [Body.succs, outside, Option.elim_none, List.count_nil, eq_comm]
    refine List.count_eq_zero.mpr fun mem => ?_
    obtain ⟨a, edge, same⟩ := List.mem_map.mp mem
    exact listed ⟨a, ok.pred_mem edge, same⟩

theorem renumbered_outline : body.Renumbered body.outline.toBody where
  name := rfl
  vars := rfl
  entry := rfl
  size := by
    rw [Outline.toBody, Table.size_ofList, List.length_map, List.length_zipIdx, outline, List.length_map,
      length_printOrder ok.entry_mem]
  block b d found := by
    have inside := contains_of_get? found
    obtain ⟨n, place, _, here⟩ := getElem?_outline ok inside
    refine ⟨body.outline.predsOf (body.place b), preds_of_get? found ▸ perm_predsOf ok inside, ?_⟩
    rw [place, Outline.get?_toBody, here, Option.map_some, Body.elements, Body.succs, found]
    rfl

/-- What is printed of a body is accepted and read as its outline, unless a block has the label that the text makes up
for another block. -/
theorem parse_text_outline {indent : String} (named : body.Named) (fresh : body.Fresh)
    (blank : ∀ c ∈ indent.toList, isBlank c = true) :
    ∃ text, body.text? indent = some text ∧ parse text = .ok body.outline.toBody := by
  have fine := fine_outline ok named fresh
  obtain ⟨text, printed, contents⟩ := Outline.contents_of_lines? fine (lines?_outline ok) blank
  refine ⟨text, printed, map_eq_ok.mpr ⟨body.outline, ?_, rfl⟩⟩
  exact Outline.ofLines_contents fine ((Line.map_chars_ofText _).trans contents)

end

/-- What is printed of a body that was built is accepted, and gives the same function with the entry in front, unless a
block has the label that the text makes up for another block. -/
theorem parse_text_of_built {indent : String} (built : body.Built)
    (entry : body.blocks.contains body.entry = true) (named : body.Named) (fresh : body.Fresh)
    (blank : ∀ c ∈ indent.toList, isBlank c = true) :
    ∃ text again, body.text? indent = some text ∧ parse text = .ok again ∧ body.Renumbered again := by
  have ok := built.mirrored.consistent entry
  obtain ⟨text, printed, read⟩ := parse_text_outline ok named fresh blank
  exact ⟨text, body.outline.toBody, printed, read, renumbered_outline ok⟩

/-- Two blocks with an integer variable. -/
def pair (entry : Block) (first second : BlockDef) : Body where
  name := "pair"
  vars := .ofList [⟨"n", .int⟩]
  entry := entry
  blocks := .ofList [first, second]

/-- Two blocks that jump to each other, one of them twice. The second is the entry, and the only one with a label. -/
def jump (label : String) : Body :=
  pair (.slot 1)
    { elements := [.stmt (.assign (.slot 0) (.use (.lit (.int 1))))], preds := [.slot 1], succs := [.slot 1, .slot 1] }
    { label := some label, preds := [.slot 0, .slot 0], succs := [.slot 0] }

theorem jump_built (label : String) : (jump label).Built := by
  let e : Element := .stmt (.assign (.slot 0) (.use (.lit (.int 1))))
  have blocks : (pair (.slot 0) {} {}).Built := (Built.new "pair").addBlock.addVar ⟨"n", .int⟩
  have filled : (pair (.slot 0) { elements := [e] } {}).Built := blocks.pushElement (.slot 0) e rfl
  have named : (pair (.slot 0) { elements := [e] } { label := some label }).Built :=
    filled.setLabel (.slot 1) (some label) rfl
  have back : (pair (.slot 0) { elements := [e], preds := [.slot 1] }
      { label := some label, succs := [.slot 0] }).Built := named.addEdge (.slot 1) (.slot 0) rfl
  have there : (pair (.slot 0) { elements := [e], preds := [.slot 1], succs := [.slot 1] }
      { label := some label, preds := [.slot 0], succs := [.slot 0] }).Built := back.addEdge (.slot 0) (.slot 1) rfl
  have twice : (pair (.slot 0) { elements := [e], preds := [.slot 1], succs := [.slot 1, .slot 1] }
      { label := some label, preds := [.slot 0, .slot 0], succs := [.slot 0] }).Built :=
    there.addEdge (.slot 0) (.slot 1) rfl
  exact twice.setEntry (.slot 1)

theorem jump_label? {label given : String} {b : Block} (named : (jump label).label? b = some given) :
    b = .slot 1 ∧ given = label := by
  obtain (_ | _ | n) | _ := b
  all_goals cases named
  exact ⟨rfl, rfl⟩

theorem jump_named {label : String} (ident : isIdent label.toList = true) : (jump label).Named where
  name := content_of_isPlain (by decide : isPlain "pair".toList = true)
  scope := by
    refine ⟨fun decl mem => ?_, List.nodup_singleton _⟩
    cases List.mem_singleton.mp mem
    exact ⟨by decide, by decide, fun _ same => nomatch same⟩
  elements b e mem := by
    obtain (_ | _ | n) | _ := b
    · cases List.mem_singleton.mp mem
      refine ⟨rfl, fun o operand v var => ?_, fun _ _ same => nomatch same⟩
      cases List.mem_singleton.mp operand
      cases var
    all_goals cases mem
  ident b given named := (jump_label? named).2 ▸ ident
  distinct a b given one two := (jump_label? one).1.trans (jump_label? two).1.symm

theorem jump_fresh {label : String} (other : label ≠ "block0") : (jump label).Fresh := by
  intro a b inside unnamed taken
  obtain ⟨n, rfl, short⟩ := exists_slot_of_contains inside
  obtain ⟨rfl, same⟩ := jump_label? taken
  obtain _ | _ | n := n
  · exact other (same ▸ rfl)
  · cases unnamed
  · exact absurd short (by simp [jump, pair])

/-- A block may be labelled with a keyword. -/
theorem parse_text_of_built_jump : ∃ text again, (jump "goto").text? "" = some text ∧ parse text = .ok again ∧
    (jump "goto").Renumbered again :=
  parse_text_of_built (jump_built "goto") rfl (jump_named (by decide)) (jump_fresh (by decide))
    fun c mem => absurd mem List.not_mem_nil

/-- The label of one block can be the one that the text makes up for the other. Then the text has it twice. -/
theorem not_parse_text_of_built : (jump "block0").Built ∧ (jump "block0").Named ∧
    (jump "block0").blocks.contains (jump "block0").entry = true ∧
    ((jump "block0").text? "").map parse = some (.error (.line 5 (.duplicateBlock "block0"))) :=
  ⟨jump_built "block0", jump_named (by decide), rfl, by decide +kernel⟩

end Body

end ForwardFlow
