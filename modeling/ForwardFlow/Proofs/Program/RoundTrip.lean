import ForwardFlow.Proofs.Program.SectionText

namespace ForwardFlow

open Text (isBlank)

section Lists

variable {α β γ : Type} {l : List α} {l' : List β} {R : α → β → Prop}

theorem forall₂_imp_of_mem {S : α → β → Prop} (all : List.Forall₂ R l l')
    (imp : ∀ a ∈ l, ∀ b ∈ l', R a b → S a b) : List.Forall₂ S l l' := by
  induction all with
  | nil => exact .nil
  | @cons a b l l' first _ ih =>
    refine .cons (imp a List.mem_cons_self b List.mem_cons_self first) (ih fun a' mem b' mem' => ?_)
    exact imp a' (List.mem_cons_of_mem a mem) b' (List.mem_cons_of_mem b mem')

theorem map_eq_map_of_forall₂ {f : α → γ} {g : β → γ} (all : List.Forall₂ R l l')
    (same : ∀ a ∈ l, ∀ b ∈ l', R a b → f a = g b) : l.map f = l'.map g := by
  rw [← List.forall₂_eq_eq_eq, List.forall₂_map_left_iff, List.forall₂_map_right_iff]
  exact forall₂_imp_of_mem all same

theorem mapM_eq_some {f : α → Option β} (all : List.Forall₂ (fun a b => f a = some b) l l') : l.mapM f = some l' := by
  induction all with
  | nil => rfl
  | cons first _ ih =>
    rw [List.mapM_cons, first, ih]
    rfl

end Lists

namespace Outline

def labels (o : Outline) : List String := o.blocks.map OutlineBlock.label

/-- An outline as a reader accepts it. -/
structure Fine (o : Outline) : Prop where
  header : Header.Fine ⟨o.name, o.vars⟩
  some : o.blocks ≠ []
  labels : FineLabels o.labels
  blocks : ∀ block ∈ o.blocks, block.Fine (.ofList o.vars) o.labels

/-- What the lines before the first label say. -/
def top (o : Outline) : List (List Char) := ("function ".toList ++ o.name.toList) :: o.vars.map VarDecl.chars

/-- What the lines of the text of an outline say. -/
def contents (o : Outline) : List (List Char) :=
  o.top ++ o.blocks.flatMap fun block => (block.label.toList ++ [':']) :: block.contents (.ofList o.vars) o.labels

variable {o : Outline} {lines : List Line} {cs : List Char}

theorem ofLines_eq_ok : ofLines lines = .ok o ↔
    foldLines Header.addLine {} (sections lines).1 = .ok ⟨o.name, o.vars⟩ ∧
    checkLabels [] (sections lines).2 = .ok () ∧ (sections lines).2 ≠ [] ∧
    (sections lines).2.mapM (readSection (.ofList o.vars) ((sections lines).2.map Section.label)) = .ok o.blocks := by
  unfold ofLines
  constructor
  · intro read
    obtain ⟨header, top, read⟩ := bind_eq_ok.mp read
    obtain ⟨_, labels, read⟩ := bind_eq_ok.mp read
    split at read
    · cases read
    · rename_i some
      obtain ⟨blocks, parts, same⟩ := bind_eq_ok.mp read
      cases same
      exact ⟨top, labels, by simpa using some, parts⟩
  · rintro ⟨top, labels, some, parts⟩
    refine bind_eq_ok.mpr ⟨_, top, bind_eq_ok.mpr ⟨_, labels, ?_⟩⟩
    rw [if_neg (by simpa using some)]
    exact bind_eq_ok.mpr ⟨_, parts, rfl⟩

theorem fine_of_part (contents : ∀ line ∈ lines, Content line.chars) {part : Section}
    (mem : part ∈ (sections lines).2) {block : OutlineBlock}
    (read : readSection (.ofList o.vars) ((sections lines).2.map Section.label) part = .ok block) :
    block.label = part.label ∧ block.Fine (.ofList o.vars) ((sections lines).2.map Section.label) :=
  OutlineBlock.fine_of_readSection (List.mem_map_of_mem mem)
    (fun line inside => contents line (((@mem_sections lines).2 part mem).2 line inside)) read

/-- Each block is read among the labels of the sections, and is given the label of its own. -/
theorem labels_of_ofLines (contents : ∀ line ∈ lines, Content line.chars) (read : ofLines lines = .ok o) :
    (sections lines).2.map Section.label = o.labels := by
  obtain ⟨_, _, _, parts⟩ := ofLines_eq_ok.mp read
  exact map_eq_map_of_forall₂ (mapM_eq_ok.mp parts) fun part inside block _ read =>
    (fine_of_part contents inside read).1.symm

/-- What is read as an outline can be printed. -/
theorem fine_of_ofLines (contents : ∀ line ∈ lines, Content line.chars) (read : ofLines lines = .ok o) : o.Fine := by
  obtain ⟨header, check, some, parts⟩ := ofLines_eq_ok.mp read
  obtain ⟨inTop, inParts⟩ := @mem_sections lines
  have labels := labels_of_ofLines contents read
  refine ⟨Header.fine_of_foldLines (fun line mem => contents line (inTop line mem)) header, ?_, ?_, ?_⟩
  · rintro none
    refine some (List.length_eq_zero_iff.mp ?_)
    rw [(mapM_eq_ok.mp parts).length_eq, none, List.length_nil]
  · rw [← labels]
    refine ⟨fun label mem => ?_, (checkLabels_eq_ok.mp check).1⟩
    obtain ⟨part, inside, rfl⟩ := List.mem_map.mp mem
    exact (inParts part inside).1
  · intro block mem
    obtain ⟨part, inside, found⟩ := exists_of_mapM parts mem
    exact labels ▸ (fine_of_part contents inside found).2

theorem content_of_mem_contents (fine : o.Fine) (mem : cs ∈ o.contents) : Content cs := by
  obtain inTop | inBlocks := List.mem_append.mp mem
  · obtain rfl | inVars := List.mem_cons.mp inTop
    · exact fine.header.name.afterWord "function" (by decide)
    · obtain ⟨decl, declared, rfl⟩ := List.mem_map.mp inVars
      exact VarDecl.content_chars (fine.header.scope.decls decl declared)
  · obtain ⟨block, inside, inBlock⟩ := List.mem_flatMap.mp inBlocks
    have good := fine.blocks block inside
    obtain rfl | inContents := List.mem_cons.mp inBlock
    · exact content_label (fine.labels.ident _ good.label)
    · exact good.content fine.header.scope fine.labels inContents

theorem ne_label_of_mem_top (mem : cs ∈ o.top) {name : List Char} (ident : isIdent name = true) :
    cs ≠ name ++ [':'] := by
  refine ne_label_of_space ?_ ident
  obtain rfl | inVars := List.mem_cons.mp mem
  · exact List.mem_append_left _ (by decide)
  · obtain ⟨decl, _, rfl⟩ := List.mem_map.mp inVars
    exact List.mem_append_left _ (List.mem_append_left _ (by decide))

/-- Lines that say what an outline is printed as are read as the outline. -/
theorem ofLines_contents (fine : o.Fine) (same : lines.map Line.chars = o.contents) : ofLines lines = .ok o := by
  obtain ⟨top, rest, rfl, first, later⟩ := List.map_eq_append_iff.mp same
  obtain ⟨none, parts⟩ := sections_of_blocks later fun block mem =>
    fine.labels.ident _ (fine.blocks block mem).label
  have unnamed : ∀ line ∈ top, line.label? = Option.none := fun line mem =>
    Line.label?_eq_none fun _ ident => ne_label_of_mem_top (first ▸ List.mem_map_of_mem mem) ident
  have labels : (sections rest).2.map Section.label = o.labels :=
    map_eq_map_of_forall₂ parts fun _ _ _ _ same => same.1
  rw [ofLines_eq_ok, sections_append unnamed, none, List.append_nil]
  refine ⟨Header.foldLines_chars fine.header first, ?_, ?_, ?_⟩
  · rw [checkLabels_eq_ok, labels]
    exact ⟨fine.labels.distinct, fun _ _ => List.not_mem_nil⟩
  · intro empty
    refine fine.some (List.length_eq_zero_iff.mp ?_)
    rw [← parts.length_eq, empty, List.length_nil]
  · dsimp only
    rw [labels, mapM_eq_ok]
    refine forall₂_imp_of_mem parts fun part _ block inside ⟨name, content⟩ => ?_
    rw [readSection, foldLines_eq_ok, content, name]
    exact OutlineBlock.foldlM_contents (fine.blocks block inside) fine.header.scope fine.labels

/-- The lines of the text of an outline: the blanks each begins with, and what it says. -/
def printed (o : Outline) : List (List Char × List Char) :=
  o.top.map (([], ·)) ++ o.blocks.flatMap fun block =>
    ([], block.label.toList ++ [':']) :: (block.contents (.ofList o.vars) o.labels).map ("    ".toList, ·)

theorem map_snd_printed (o : Outline) : o.printed.map Prod.snd = o.contents := by
  simp [printed, contents, List.map_flatMap, Function.comp_def]

theorem blank_of_mem_printed {l : List Char × List Char} (mem : l ∈ o.printed) : ∀ c ∈ l.1, isBlank c = true := by
  obtain inTop | inBlocks := List.mem_append.mp mem
  · obtain ⟨_, _, rfl⟩ := List.mem_map.mp inTop
    exact fun c inside => absurd inside List.not_mem_nil
  · obtain ⟨block, _, inBlock⟩ := List.mem_flatMap.mp inBlocks
    obtain rfl | inContents := List.mem_cons.mp inBlock
    · exact fun c inside => absurd inside List.not_mem_nil
    · obtain ⟨_, _, rfl⟩ := List.mem_map.mp inContents
      exact List.all_eq_true.mp (by decide : "    ".toList.all isBlank = true)

theorem get?_toBody (o : Outline) (n : Nat) : o.toBody.blocks.get? (.slot n) =
    o.blocks[n]?.map fun block => ⟨some block.label, block.elements, o.predsOf (.slot n), block.targets⟩ := by
  rw [Table.get?_slot, toBody, Table.toList_ofList, List.getElem?_map, List.getElem?_zipIdx, Option.map_map]
  simp [Function.comp_def]

theorem labelOf_toBody (o : Outline) (b : Block) : o.toBody.labelOf b = labelAt o.labels b := by
  cases b with
  | invalid => rfl
  | slot n =>
    rw [Body.labelOf, get?_toBody, labelAt, Table.get?_slot, Table.toList_ofList, labels, List.getElem?_map]
    cases o.blocks[n]? <;> rfl

theorem indices_toBody (o : Outline) : o.toBody.blocks.indices = (List.range o.blocks.length).map .slot := by
  rw [Table.indices, toBody, Table.size_ofList, List.length_map, List.length_zipIdx]

/-- The entry comes first among the indices, so the blocks are printed in the order in which they are written. -/
theorem printOrder_toBody (inhabited : o.blocks ≠ []) :
    o.toBody.printOrder = (List.range o.blocks.length).map .slot := by
  obtain ⟨block, rest, same⟩ := List.exists_cons_of_ne_nil inhabited
  rw [Body.printOrder, indices_toBody, same, List.length_cons, List.range_succ_eq_map, List.map_cons,
    List.filter_cons_of_neg (by simp [toBody]), List.filter_eq_self.mpr ?_]
  · rfl
  · intro b mem
    simp only [List.map_map, List.mem_map, Function.comp_def] at mem
    obtain ⟨n, _, rfl⟩ := mem
    simp [toBody]

theorem blockLines_toBody {n : Nat} {block : OutlineBlock} {preds : List Block} (found : o.blocks[n]? = some block) :
    o.toBody.blockLines (.slot n) ⟨some block.label, block.elements, preds, block.targets⟩ =
      (block.label.toList ++ [':']) ::
        (block.contents (.ofList o.vars) o.labels).map ("    ".toList ++ ·) := by
  have label : o.toBody.labelOf (.slot n) = block.label := by
    rw [Body.labelOf, get?_toBody, found]
    rfl
  rw [Body.blockLines, label]
  simp only [labelOf_toBody]
  rfl

/-- A body whose blocks are printed like those of an outline is printed like the outline. -/
theorem lines?_of_blocks {body : Body} (name : body.name = o.name) (vars : body.vars.toList = o.vars)
    (blocks : List.Forall₂ (fun b block => (body.blocks.get? b).map (body.blockLines b) =
      some ((block.label.toList ++ [':']) ::
        (block.contents (.ofList o.vars) o.labels).map ("    ".toList ++ ·))) body.printOrder o.blocks) :
    body.lines? = some (o.printed.map fun l => l.1 ++ l.2) := by
  have printed : body.printOrder.mapM (fun b => (body.blocks.get? b).map (body.blockLines b)) =
      some (o.blocks.map fun block => (block.label.toList ++ [':']) ::
        (block.contents (.ofList o.vars) o.labels).map ("    ".toList ++ ·)) :=
    mapM_eq_some (List.forall₂_map_right_iff.mpr blocks)
  have flat : o.printed.map (fun l => l.1 ++ l.2) = o.top ++ (o.blocks.map fun block =>
      (block.label.toList ++ [':']) ::
        (block.contents (.ofList o.vars) o.labels).map ("    ".toList ++ ·)).flatten := by
    simp [Outline.printed, List.flatMap_def, Function.comp_def]
  rw [flat]
  unfold Body.lines?
  rw [printed, name, vars]
  rfl

theorem lines?_toBody (inhabited : o.blocks ≠ []) : o.toBody.lines? = some (o.printed.map fun l => l.1 ++ l.2) := by
  refine lines?_of_blocks rfl rfl ?_
  rw [printOrder_toBody inhabited, List.forall₂_map_left_iff, List.forall₂_iff_get]
  refine ⟨List.length_range, fun n _ short => ?_⟩
  have found : o.blocks[n]? = some (o.blocks.get ⟨n, short⟩) := List.getElem?_eq_getElem short
  rw [List.get_eq_getElem, List.getElem_range, get?_toBody, found]
  exact congrArg some (blockLines_toBody found)

/-- A text that has the lines of an outline says what the outline is printed as, whatever blanks it is indented with. -/
theorem contents_of_lines? (fine : o.Fine) {body : Body} {indent : String}
    (lines : body.lines? = some (o.printed.map fun l => l.1 ++ l.2)) (blank : ∀ c ∈ indent.toList, isBlank c = true) :
    ∃ text, body.text? indent = some text ∧ Line.contents text.toList = o.contents := by
  let pieces := o.printed.map fun l => (indent.toList ++ l.1, l.2)
  have front : ∀ l ∈ pieces, ∀ c ∈ l.1, isBlank c = true := by
    intro l mem c inside
    obtain ⟨piece, printed, rfl⟩ := List.mem_map.mp mem
    obtain inIndent | deeper := List.mem_append.mp inside
    · exact blank c inIndent
    · exact blank_of_mem_printed printed c deeper
  have what : pieces.map Prod.snd = o.contents := by
    rw [List.map_map, ← map_snd_printed]
    rfl
  have content : ∀ l ∈ pieces, Content l.2 := fun l mem =>
    content_of_mem_contents fine (what ▸ List.mem_map_of_mem mem)
  refine ⟨.ofList (pieces.flatMap fun l => l.1 ++ l.2 ++ ['\n']), ?_, ?_⟩
  · rw [Body.text?, lines, Option.map_some, List.flatMap_map, List.flatMap_map]
    simp only [List.append_assoc]
  · rw [String.toList_ofList, Line.contents_flatMap front content, what]

theorem text?_toBody (fine : o.Fine) {indent : String} (blank : ∀ c ∈ indent.toList, isBlank c = true) :
    ∃ text, o.toBody.text? indent = some text ∧ Line.contents text.toList = o.contents :=
  contents_of_lines? fine (lines?_toBody fine.some) blank

end Outline

namespace Body

/-- Printing a body that was read, and reading the text again, gives the body back. The first text does not come back:
its blanks and comments are lost, and the edges of a block move to its end. -/
theorem parse_text {text indent : String} {body : Body} (read : parse text = .ok body)
    (blank : ∀ c ∈ indent.toList, isBlank c = true) :
    ∃ again, body.text? indent = some again ∧ parse again = .ok body := by
  obtain ⟨o, found, rfl⟩ := map_eq_ok.mp read
  have fine : o.Fine := Outline.fine_of_ofLines (fun _ mem => Line.content_of_mem_ofText mem) found
  obtain ⟨again, printed, contents⟩ := Outline.text?_toBody fine blank
  refine ⟨again, printed, map_eq_ok.mpr ⟨o, ?_, rfl⟩⟩
  exact Outline.ofLines_contents fine ((Line.map_chars_ofText _).trans contents)

/-- A text with labels that are keywords, a name of two words, a comment, and an edge written between two elements. -/
def readMe : String :=
  "function  read me  # twice\nvar x: i64\nreturn:\n init x = call print ( true,,-3)\ngoto var,return\nx = 1\nvar:"

theorem parse_text_readMe : ∃ body again, parse readMe = .ok body ∧ (∀ c ∈ "\t ".toList, isBlank c = true) ∧
    body.text? "\t " = some again ∧ parse again = .ok body := by
  have accepted : (parse readMe).isOk = true := by decide +kernel
  have blank : ∀ c ∈ "\t ".toList, isBlank c = true := List.all_eq_true.mp (by decide)
  cases read : parse readMe with
  | error e =>
    rw [read] at accepted
    cases accepted
  | ok body =>
    obtain ⟨again, printed, same⟩ := parse_text read blank
    exact ⟨body, again, rfl, blank, printed, same⟩

end Body

end ForwardFlow
