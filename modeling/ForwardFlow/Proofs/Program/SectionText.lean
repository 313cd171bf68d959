import ForwardFlow.Proofs.Program.HeaderText

namespace ForwardFlow

open Text (trim after?)

/-- The labels of the blocks of a body as a reader accepts them. -/
structure FineLabels (labels : List String) : Prop where
  ident : ∀ label ∈ labels, isIdent label.toList = true
  distinct : labels.Nodup

/-- The label a block is printed with. -/
def labelAt (labels : List String) (b : Block) : String :=
  ((Table.ofList labels : Table .block String).get? b).getD b.text

/-- One block as a reader accepts it, among blocks with certain labels. -/
structure OutlineBlock.Fine (scope : Scope) (labels : List String) (block : OutlineBlock) : Prop where
  label : block.label ∈ labels
  elements : ∀ e ∈ block.elements, e.Fine scope
  targets : ∀ t ∈ block.targets, (Table.ofList labels : Table .block String).contains t = true

/-- What the lines of a block say that follow its label. -/
def OutlineBlock.contents (scope : Scope) (labels : List String) (block : OutlineBlock) : List (List Char) :=
  block.elements.map (·.chars scope) ++
    if block.targets.isEmpty then [] else
      ["goto ".toList ++ commaList (block.targets.map fun t => (labelAt labels t).toList)]

variable {scope : Scope} {labels : List String} {block : OutlineBlock} {cs : List Char} {t : Block}

theorem labelAt_of_contains (inside : (Table.ofList labels : Table .block String).contains t = true) :
    ∃ n, ∃ short : n < labels.length, t = .slot n ∧ labelAt labels t = labels[n] := by
  cases t with
  | invalid => cases inside
  | slot n =>
    have short : n < labels.length := of_decide_eq_true inside
    refine ⟨n, short, rfl, ?_⟩
    rw [labelAt, Table.get?_slot, Table.toList_ofList, List.getElem?_eq_getElem short, Option.getD_some]

theorem token_labelAt (fine : FineLabels labels)
    (inside : (Table.ofList labels : Table .block String).contains t = true) : Token (labelAt labels t).toList := by
  obtain ⟨n, short, _, same⟩ := labelAt_of_contains inside
  exact same ▸ token_of_isIdent (fine.ident _ (List.getElem_mem short))

/-- The label of a block leads back to the block. -/
theorem readTarget_labelAt (fine : FineLabels labels)
    (inside : (Table.ofList labels : Table .block String).contains t = true) :
    readTarget labels (labelAt labels t).toList = .ok t := by
  obtain ⟨n, short, rfl, same⟩ := labelAt_of_contains inside
  have first : labels.idxOf? labels[n] = some n := by
    refine List.idxOf?_eq_some_iff.mpr ⟨short, rfl, fun m before => ?_⟩
    exact List.pairwise_iff_getElem.mp fine.distinct m n (Nat.lt_trans before short) short before
  rw [readTarget, String.ofList_toList, same, first]

theorem contains_of_readTarget (read : readTarget labels cs = .ok t) :
    (Table.ofList labels : Table .block String).contains t = true := by
  unfold readTarget at read
  split at read
  · rename_i n found
    cases read
    obtain ⟨short, _⟩ := List.idxOf?_eq_some_iff.mp found
    exact decide_eq_true short
  · cases read

/-- The line that starts a block says its label and a colon. -/
theorem content_label {name : List Char} (ident : isIdent name = true) : Content (name ++ [':']) := by
  have colon := content_of_isPlain (by decide : isPlain [':'] = true)
  have content := (token_of_isIdent ident).content.around [] colon (by decide) (by decide)
  rwa [List.append_nil] at content

namespace OutlineBlock

theorem content_goto (fine : FineLabels labels) {targets : List Block} (some : targets ≠ [])
    (inside : ∀ t ∈ targets, (Table.ofList labels : Table .block String).contains t = true) :
    Content ("goto ".toList ++ commaList (targets.map fun t => (labelAt labels t).toList)) := by
  have list : Content (commaList (targets.map fun t => (labelAt labels t).toList)) := by
    refine content_commaList (fun none => some (List.map_eq_nil_iff.mp none)) fun part mem => ?_
    obtain ⟨t, target, rfl⟩ := List.mem_map.mp mem
    exact (token_labelAt fine (inside t target)).content
  exact list.afterWord "goto" (by decide)

theorem mem_contents (mem : cs ∈ block.contents scope labels) : (∃ e ∈ block.elements, cs = e.chars scope) ∨
    block.targets ≠ [] ∧ cs = "goto ".toList ++ commaList (block.targets.map fun t => (labelAt labels t).toList) := by
  obtain element | last := List.mem_append.mp mem
  · obtain ⟨e, inside, rfl⟩ := List.mem_map.mp element
    exact Or.inl ⟨e, inside, rfl⟩
  · split at last
    · cases last
    · rename_i some
      exact Or.inr ⟨by simpa using some, List.mem_singleton.mp last⟩

theorem Fine.content (good : block.Fine scope labels) (fine : scope.Fine) (fineLabels : FineLabels labels)
    (mem : cs ∈ block.contents scope labels) : Content cs := by
  obtain ⟨e, inside, rfl⟩ | ⟨some, rfl⟩ := mem_contents mem
  · exact Element.content_chars fine (good.elements e inside)
  · exact content_goto fineLabels some good.targets

theorem contents_ne_label (mem : cs ∈ block.contents scope labels) {name : List Char} (ident : isIdent name = true) :
    cs ≠ name ++ [':'] := by
  obtain ⟨e, _, rfl⟩ | ⟨_, rfl⟩ := mem_contents mem
  · exact e.chars_ne_label ident
  · exact ne_label_of_space (List.mem_append_left _ (by decide)) ident

theorem foldlM_elements (fine : scope.Fine) {elements : List Element} (good : ∀ e ∈ elements, e.Fine scope) :
    (elements.map (·.chars scope)).foldlM (addLine scope labels) block =
      .ok { block with elements := block.elements ++ elements } := by
  induction elements generalizing block with
  | nil =>
    rw [List.append_nil]
    rfl
  | cons e elements ih =>
    have here := good e List.mem_cons_self
    have first : block.addLine scope labels (e.chars scope) =
        .ok { block with elements := block.elements ++ [e] } := by
      unfold addLine
      rw [Element.after?_goto fine here, Element.readElement_chars fine here]
      rfl
    have rest := @ih { block with elements := block.elements ++ [e] } fun e mem => good e (List.mem_cons_of_mem _ mem)
    rw [List.append_assoc, List.singleton_append] at rest
    rw [List.map_cons, List.foldlM_cons, first]
    exact rest

theorem addLine_goto (fine : FineLabels labels) {targets : List Block} (some : targets ≠ [])
    (inside : ∀ t ∈ targets, (Table.ofList labels : Table .block String).contains t = true) :
    block.addLine scope labels ("goto ".toList ++ commaList (targets.map fun t => (labelAt labels t).toList)) =
      .ok { block with targets := block.targets ++ targets } := by
  have parts : ((commaList (targets.map fun t => (labelAt labels t).toList)).splitOn ',').map trim =
      targets.map fun t => (labelAt labels t).toList := by
    refine map_trim_splitOn (fun none => some (List.map_eq_nil_iff.mp none)) fun part mem => ?_
    obtain ⟨t, target, rfl⟩ := List.mem_map.mp mem
    have token := token_labelAt fine (inside t target)
    exact ⟨token.content.tight, token.notMem (by decide)⟩
  have read : (targets.map fun t => (labelAt labels t).toList).mapM (readTarget labels) = .ok targets :=
    mapM_map_eq_ok fun t mem => readTarget_labelAt fine (inside t mem)
  unfold addLine
  rw [Text.after?_append]
  dsimp only
  rw [parts, read]
  rfl

/-- What a block is printed as is read as the block. -/
theorem foldlM_contents (good : block.Fine scope labels) (fine : scope.Fine) (fineLabels : FineLabels labels) :
    (block.contents scope labels).foldlM (addLine scope labels) { label := block.label } = .ok block := by
  rw [contents, List.foldlM_append]
  refine bind_eq_ok.mpr ⟨_, foldlM_elements fine good.elements, ?_⟩
  split
  · rename_i idle
    cases block
    cases List.isEmpty_iff.mp idle
    rfl
  · rename_i busy
    rw [List.foldlM_cons]
    exact bind_eq_ok.mpr ⟨_, addLine_goto fineLabels (by simpa using busy) good.targets, rfl⟩

/-- What is read as a block can be printed. -/
theorem fine_of_readSection {part : Section} (label : part.label ∈ labels)
    (contents : ∀ line ∈ part.content, Content line.chars) (read : readSection scope labels part = .ok block) :
    block.label = part.label ∧ block.Fine scope labels := by
  have start : ({ label := part.label } : OutlineBlock).Fine scope labels :=
    ⟨label, fun _ mem => absurd mem List.not_mem_nil, fun _ mem => absurd mem List.not_mem_nil⟩
  refine foldlM_induct (P := fun block => block.label = part.label ∧ block.Fine scope labels) ⟨rfl, start⟩ ?_
    (foldLines_eq_ok.mp read)
  rintro old next cs mem ⟨same, good⟩ read
  obtain ⟨line, inside, rfl⟩ := List.mem_map.mp mem
  have content := contents line inside
  unfold addLine at read
  split at read
  · obtain ⟨targets, found, result⟩ := bind_eq_ok.mp read
    cases result
    refine ⟨same, good.label, good.elements, fun t mem => ?_⟩
    obtain early | new := List.mem_append.mp mem
    · exact good.targets t early
    · obtain ⟨text, _, found⟩ := exists_of_mapM found new
      exact contains_of_readTarget found
  · obtain ⟨e, found, result⟩ := bind_eq_ok.mp read
    cases result
    refine ⟨same, good.label, fun other mem => ?_, good.targets⟩
    obtain early | last := List.mem_append.mp mem
    · exact good.elements other early
    · cases List.mem_singleton.mp last
      exact Element.fine_of_readElement content.toOneLine found

end OutlineBlock

/-- The lines of printed blocks fall into one section for each block. -/
theorem sections_of_blocks {blocks : List OutlineBlock} {lines : List Line}
    (printed : lines.map Line.chars =
      blocks.flatMap fun block => (block.label.toList ++ [':']) :: block.contents scope labels)
    (ident : ∀ block ∈ blocks, isIdent block.label.toList = true) :
    (sections lines).1 = [] ∧ List.Forall₂ (fun part block => part.label = block.label ∧
      part.content.map Line.chars = block.contents scope labels) (sections lines).2 blocks := by
  induction blocks generalizing lines with
  | nil =>
    cases List.map_eq_nil_iff.mp printed
    exact ⟨rfl, .nil⟩
  | cons block blocks ih =>
    rw [List.flatMap_cons, List.cons_append] at printed
    obtain ⟨line, others, rfl, name, printed⟩ := List.map_eq_cons_iff.mp printed
    obtain ⟨content, rest, rfl, here, later⟩ := List.map_eq_append_iff.mp printed
    obtain ⟨top, parts⟩ := ih later fun block mem => ident block (List.mem_cons_of_mem _ mem)
    have named : line.label? = some block.label :=
      Line.label?_eq_some_iff.mpr ⟨name, ident block List.mem_cons_self⟩
    have unnamed : ∀ line ∈ content, line.label? = none := fun line mem =>
      Line.label?_eq_none fun _ ident => block.contents_ne_label (here ▸ List.mem_map_of_mem mem) ident
    rw [sections_cons_label named, sections_append unnamed, top, List.append_nil]
    exact ⟨rfl, .cons ⟨rfl, here⟩ parts⟩

theorem checkLabels_eq_ok {seen : List String} {parts : List Section} : checkLabels seen parts = .ok () ↔
    (parts.map Section.label).Nodup ∧ ∀ label ∈ parts.map Section.label, label ∉ seen := by
  induction parts generalizing seen with
  | nil => simp [checkLabels]
  | cons part parts ih =>
    rw [checkLabels]
    split
    · rename_i twice
      simp only [reduceCtorEq, false_iff]
      rintro ⟨_, new⟩
      exact new part.label List.mem_cons_self (List.contains_iff_mem.mp twice)
    · rename_i new
      rw [ih, List.map_cons, List.nodup_cons]
      rw [List.contains_iff_mem] at new
      constructor
      · rintro ⟨distinct, others⟩
        refine ⟨⟨fun mem => others _ mem List.mem_cons_self, distinct⟩, fun label mem => ?_⟩
        obtain rfl | later := List.mem_cons.mp mem
        · exact new
        · exact fun inside => others label later (List.mem_cons_of_mem _ inside)
      · rintro ⟨⟨single, distinct⟩, others⟩
        refine ⟨distinct, fun label mem inside => ?_⟩
        obtain rfl | earlier := List.mem_cons.mp inside
        · exact single mem
        · exact others label (List.mem_cons_of_mem _ mem) earlier

end ForwardFlow
