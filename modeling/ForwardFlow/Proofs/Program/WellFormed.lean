import ForwardFlow.Proofs.Engine.Refinement
import ForwardFlow.Proofs.Program.BuiltText

namespace ForwardFlow

section Declared

variable {scope : Scope} {v : Var}

theorem Expr.Fine.contains {e : Expr} (fine : e.Fine scope) (mem : v ∈ e.vars) : scope.contains v = true := by
  obtain ⟨o, inside, held⟩ := List.mem_filterMap.mp mem
  exact fine.inScope o inside v held

/-- An element that a reader accepts mentions only declared variables. -/
theorem Element.Fine.contains {e : Element} (fine : e.Fine scope) (mem : v ∈ e.vars) : scope.contains v = true := by
  have assigns {target : Var} {source : Expr} (fine : scope.contains target = true ∧ source.Fine scope)
      (mem : v ∈ target :: source.vars) : scope.contains v = true := by
    obtain rfl | read := List.mem_cons.mp mem
    · exact fine.1
    · exact fine.2.contains read
  cases e with
  | init target source => exact assigns fine mem
  | scopeEnd w => exact List.mem_singleton.mp mem ▸ fine
  | stmt s =>
    cases s with
    | assign target source => exact assigns fine mem
    | eval e => exact Expr.Fine.contains fine mem
    | branch o => exact fine v (Option.mem_toList.mp mem)
    | ret value =>
      obtain ⟨o, returned, held⟩ := Option.bind_eq_some_iff.mp (Option.mem_toList.mp mem)
      exact fine o returned v held

end Declared

/-- A body as a reader leaves it, with blocks of certain labels. The entry is the first block, blocks and variables have
names that are told apart, elements mention declared variables only, and each edge stands at both of its ends. -/
structure Body.WellFormed (labels : List String) (body : Body) : Prop where
  entry : body.entry = .slot 0
  inhabited : labels ≠ []
  blocks : body.blocks.toList.map BlockDef.label = labels.map some
  names : FineLabels labels
  vars : body.vars.Fine
  declared : ∀ b, ∀ e ∈ body.elements b, ∀ v ∈ e.vars, body.vars.contains v = true
  mirrored : body.Mirrored

namespace Outline

variable {o : Outline} {a b : Block}

theorem contains_toBody (o : Outline) (b : Block) :
    o.toBody.blocks.contains b = (Table.ofList o.labels : Table .block String).contains b :=
  Table.contains_congr (by simp [toBody, labels]) b

theorem exists_of_get?_toBody {d : BlockDef} (found : o.toBody.blocks.get? b = some d) : ∃ n block, b = .slot n ∧
    o.blocks[n]? = some block ∧ d = ⟨some block.label, block.elements, o.predsOf b, block.targets⟩ := by
  cases b with
  | invalid => cases found
  | slot n =>
    rw [get?_toBody] at found
    obtain ⟨block, written, same⟩ := Option.map_eq_some_iff.mp found
    exact ⟨n, block, rfl, written, same.symm⟩

/-- The body an outline describes has both ends of each edge, and lists the edge at both. -/
theorem mirrored_toBody (fine : o.Fine) : o.toBody.Mirrored := by
  have succ {a b : Block} (mem : b ∈ o.toBody.succs a) : o.toBody.blocks.contains b = true := by
    obtain ⟨_, found, listed⟩ := Body.get?_of_mem_succs mem
    obtain ⟨_, block, _, written, rfl⟩ := exists_of_get?_toBody found
    rw [contains_toBody]
    exact (fine.blocks block (List.mem_of_getElem? written)).targets b listed
  have preds {b : Block} (inside : o.toBody.blocks.contains b = true) : o.toBody.preds b = o.predsOf b := by
    obtain ⟨d, found⟩ := Table.exists_get? inside
    obtain ⟨_, _, _, _, rfl⟩ := exists_of_get?_toBody found
    exact Body.preds_of_get? found
  refine ⟨succ, fun {a b} mem => ?_, fun a b => ?_⟩
  · obtain ⟨_, found, _⟩ := Body.get?_of_mem_preds mem
    rw [preds (Body.contains_of_get? found), ← List.count_pos_iff, ← toBody_count_eq, List.count_pos_iff] at mem
    obtain ⟨_, found, _⟩ := Body.get?_of_mem_succs mem
    exact Body.contains_of_get? found
  · by_cases inside : o.toBody.blocks.contains b = true
    · rw [preds inside, toBody_count_eq]
    · have unlisted : b ∉ o.toBody.succs a := fun mem => inside (succ mem)
      have none : o.toBody.preds b = [] := by
        rw [Table.contains_eq_isSome_get?, Option.not_isSome_iff_eq_none] at inside
        rw [Body.preds, inside, Option.elim_none]
      rw [none, List.count_eq_zero.mpr unlisted, List.count_nil]

theorem wellFormed_toBody (fine : o.Fine) : o.toBody.WellFormed o.labels where
  entry := rfl
  inhabited empty := fine.some (List.map_eq_nil_iff.mp empty)
  blocks := by
    refine List.ext_getElem? fun n => ?_
    rw [List.getElem?_map, ← Table.get?_slot, get?_toBody, labels, List.map_map, List.getElem?_map, Option.map_map]
    rfl
  names := fine.labels
  vars := fine.header.scope
  declared b e mem v mentioned := by
    obtain ⟨d, found, inside⟩ := Body.get?_of_mem_elements mem
    obtain ⟨_, block, _, written, rfl⟩ := exists_of_get?_toBody found
    exact ((fine.blocks block (List.mem_of_getElem? written)).elements e inside).contains mentioned
  mirrored := mirrored_toBody fine

end Outline

namespace Body

/-- A body that was made from another by adding variables, blocks, edges between its blocks, and elements. -/
inductive Grown (body : Body) : Body → Prop
  | refl : Grown body body
  | addVar {next : Body} (decl : VarDecl) : Grown body next → Grown body (next.addVar decl).1
  | addBlock {next : Body} : Grown body next → Grown body next.addBlock.1
  | addEdge {next last : Body} (a b : Block) : Grown body next → next.addEdge a b = .ok last → Grown body last
  | pushElement {next last : Body} (b : Block) (e : Element) :
    Grown body next → next.pushElement? b e = some last → Grown body last

theorem Consistent.mirrored {body : Body} (ok : body.Consistent) : body.Mirrored :=
  ⟨ok.succ_mem, ok.pred_mem, ok.count_eq⟩

/-- Whatever is added, the blocks still form a graph. -/
theorem Grown.consistent {body next : Body} (grown : body.Grown next) (ok : body.Consistent) : next.Consistent := by
  induction grown with
  | refl => exact ok
  | addVar decl _ ih => exact ⟨ih.entry_mem, ih.succ_mem, ih.pred_mem, ih.count_eq⟩
  | addBlock _ ih => exact ih.mirrored.addBlock.consistent (contains_addBlock ih.entry_mem)
  | addEdge a b _ done ih =>
    obtain ⟨_, _, contains, _⟩ := addEdge_edges done
    refine (ih.mirrored.addEdge done).consistent ?_
    rw [contains, entry_addEdge done, ih.entry_mem]
  | pushElement b e _ done ih =>
    refine (ih.mirrored.of_modify? done (fun _ => rfl) fun _ => rfl).consistent ?_
    rw [contains_of_modify? done, entry_of_modify? done, ih.entry_mem]

/-- What a reader makes of a text is well-formed. -/
theorem wellFormed_of_parse {text : String} {body : Body} (read : parse text = .ok body) :
    body.WellFormed ((Line.ofText text.toList).filterMap Line.label?) := by
  obtain ⟨o, found, rfl⟩ := map_eq_ok.mp read
  have contents : ∀ line ∈ Line.ofText text.toList, Content line.chars := fun _ mem => Line.content_of_mem_ofText mem
  have fine := Outline.fine_of_ofLines contents found
  have labels : (Line.ofText text.toList).filterMap Line.label? = o.labels :=
    (map_label_sections _).symm.trans (Outline.labels_of_ofLines contents found)
  rw [labels]
  exact Outline.wellFormed_toBody fine

theorem WellFormed.consistent {labels : List String} {body : Body} (good : body.WellFormed labels) :
    body.Consistent := by
  refine good.mirrored.consistent ?_
  have size : body.blocks.size = labels.length := by
    rw [← List.length_map some, ← good.blocks, List.length_map]
    rfl
  rw [good.entry, Table.contains, size]
  exact decide_eq_true (List.length_pos_iff.mpr good.inhabited)

/-- Only variables of record types are refused. -/
theorem WellFormed.exists_of_bodyError? {labels : List String} {body : Body} {error : RunError}
    (good : body.WellFormed labels) (refused : (Knowledge.ofBody body).bodyError? body = some error) :
    ∃ b place e v decl name, (body.elements b)[place]? = some e ∧ v ∈ e.vars ∧ body.vars.get? v = some decl ∧
      decl.ty = .record name ∧ error = .unmodelledVar b place v (.record name) := by
  obtain ⟨b, place, e, v, refusal, found, mentioned, reason, rfl⟩ := Knowledge.exists_of_bodyError? refused
  obtain ⟨decl, declared⟩ := Table.exists_get? (good.declared b e (List.mem_of_getElem? found) v mentioned)
  rw [Knowledge.refusal?, Knowledge.ty?_ofBody, declared] at reason
  cases ty : decl.ty with
  | int => simp [ty, Ty.isModelled] at reason
  | bool => simp [ty, Ty.isModelled] at reason
  | record name =>
    rw [Option.map_some, ty] at reason
    cases reason
    exact ⟨b, place, e, v, decl, name, found, mentioned, declared, ty, rfl⟩

/-- What a reader accepts is well-formed, and a graph. It stays a graph when variables, blocks, edges and elements are
added. A run over it is refused for a variable of a record type only; otherwise the observer complains, or the steps
do not suffice. -/
theorem parse_wellFormed {text : String} {body : Body} (read : parse text = .ok body) :
    body.WellFormed ((Line.ofText text.toList).filterMap Line.label?) ∧
    (∀ next, body.Grown next → next.checkedOrder = .ok (.ofList next.reversePostorder)) ∧
    ∀ {ι : Type} [DecidableEq ι] [Catalogue ι] (i : ι) (p : Problem (Catalogue.Carrier i)),
      p.body = body → p.start = .ofBody body → ∀ steps observer error,
        (Engine.runTyped p steps observer).result = .error error →
          (∃ b place e v decl name, (body.elements b)[place]? = some e ∧ v ∈ e.vars ∧ body.vars.get? v = some decl ∧
            decl.ty = .record name ∧ error = .unmodelledVar b place v (.record name)) ∨
          (∃ watching, observer = some watching ∧
            ∃ shown view complaint, watching shown view = some complaint ∧ error = .observer complaint) ∨
          error = .fault .outOfSteps := by
  have good := wellFormed_of_parse read
  refine ⟨good, fun next grown => ?_, ?_⟩
  · exact checkedOrder_of_graphError? (grown.consistent good.consistent).graphError?_eq_none
  · intro ι _ _ i p same start steps observer error failed
    subst same
    obtain refused | outOfSteps | complaint := Engine.error_of_runTyped failed
    · rw [Problem.error?, good.consistent.graphError?_eq_none, start] at refused
      exact .inl (good.exists_of_bodyError? refused)
    · exact .inr (.inr outOfSteps)
    · exact .inr (.inl complaint)

theorem parse_wellFormed_readMe : ∃ body, parse readMe = .ok body ∧ body.WellFormed ["return", "var"] ∧
    body.addBlock.1.checkedOrder = .ok (.ofList body.addBlock.1.reversePostorder) := by
  have accepted : (parse readMe).isOk = true := by decide +kernel
  cases read : parse readMe with
  | error e =>
    rw [read] at accepted
    cases accepted
  | ok body =>
    obtain ⟨good, graph, _⟩ := parse_wellFormed read
    have labels : (Line.ofText readMe.toList).filterMap Line.label? = ["return", "var"] := by decide +kernel
    exact ⟨body, rfl, labels ▸ good, graph _ (.addBlock .refl)⟩

end Body

end ForwardFlow
