import ForwardFlow.Proofs.Program.ExprText

namespace ForwardFlow

open Text (trim after? splitFirst?)

/-- A statement as a reader accepts it. -/
def Stmt.Fine (scope : Scope) : Stmt → Prop
  | .assign target source => scope.contains target = true ∧ source.Fine scope
  | .eval e => e.Fine scope
  | .branch o => o.InScope scope
  | .ret value => ∀ o ∈ value, o.InScope scope

/-- An element as a reader accepts it. -/
def Element.Fine (scope : Scope) : Element → Prop
  | .stmt s => s.Fine scope
  | .init target source => scope.contains target = true ∧ source.Fine scope
  | .scopeEnd v => scope.contains v = true

variable {scope : Scope} {cs : List Char} {v target : Var} {source : Expr} {e : Element}

theorem assignmentChars_eq (target : Var) (source : Expr) : assignmentChars scope target source =
    (scope.nameOf target).toList ++ ' ' :: '=' :: ' ' :: source.chars scope :=
  List.append_assoc (scope.nameOf target).toList " = ".toList (source.chars scope)

theorem content_nameOf (fine : scope.Fine) (inside : scope.contains v = true) : Content (scope.nameOf v).toList :=
  (token_of_isIdent (fine.nameOf inside).1).content

theorem content_assignment (fine : scope.Fine) (inside : scope.contains target = true) (good : source.Fine scope) :
    Content (assignmentChars scope target source) :=
  (content_nameOf fine inside).around " = ".toList (Expr.content_chars fine good) (by decide) (by decide)

theorem readAssignment_chars (fine : scope.Fine) (inside : scope.contains target = true) (good : source.Fine scope) :
    readAssignment scope (assignmentChars scope target source) = .ok (target, source) := by
  have token := token_of_isIdent (fine.nameOf inside).1
  have split : splitFirst? " = ".toList (assignmentChars scope target source) =
      some ((scope.nameOf target).toList, source.chars scope) :=
    Text.splitFirst?_append (token.notMem (by decide))
  simp only [readAssignment, split, Text.trim_eq_self token.content.tight, readVar_nameOf fine inside,
    Expr.readExpr_chars fine good]
  rfl

theorem fine_of_readAssignment (line : OneLine cs) (read : readAssignment scope cs = .ok (target, source)) :
    scope.contains target = true ∧ source.Fine scope := by
  unfold readAssignment at read
  split at read
  · cases read
  · rename_i before after split
    obtain ⟨_, var, read⟩ := bind_eq_ok.mp read
    obtain ⟨_, expr, same⟩ := bind_eq_ok.mp read
    cases same
    have inside : after ⊆ cs := by
      intro c mem
      rw [Text.splitFirst?_eq_some split]
      exact List.mem_append_right _ mem
    exact ⟨contains_of_readVar var, Expr.fine_of_readExpr (line.of_subset inside) expr⟩

namespace Element

theorem content_chars (fine : scope.Fine) (good : e.Fine scope) : Content (e.chars scope) := by
  cases e with
  | init target source => exact (content_assignment fine good.1 good.2).afterWord "init" (by decide)
  | scopeEnd v => exact (content_nameOf fine good).afterWord "end" (by decide)
  | stmt s =>
    cases s with
    | assign target source => exact content_assignment fine good.1 good.2
    | eval e => exact (Expr.content_chars fine good).afterWord "eval" (by decide)
    | branch o => exact (token_operand fine good).content.afterWord "branch" (by decide)
    | ret value =>
      cases value with
      | none => exact content_of_isPlain (by decide : isPlain "return".toList = true)
      | some o => exact (token_operand fine (good o rfl)).content.afterWord "return" (by decide)

/-- What an element is printed as is no line of targets. -/
theorem after?_goto (fine : scope.Fine) (good : e.Fine scope) : after? "goto " (e.chars scope) = none := by
  cases e with
  | init target source => rfl
  | scopeEnd v => rfl
  | stmt s =>
    cases s with
    | assign target source =>
      show after? "goto " (assignmentChars scope target source) = none
      rw [assignmentChars_eq]
      exact after?_nameOf fine good.1 (by decide : "goto" ∈ keywords) rfl
    | eval e => rfl
    | branch o => rfl
    | ret value => cases value <;> rfl

/-- What an element is printed as is no label. -/
theorem chars_ne_label (e : Element) {name : List Char} (ident : isIdent name = true) :
    e.chars scope ≠ name ++ [':'] := by
  have word (word : String) {back : List Char} (space : ' ' ∈ word.toList) : word.toList ++ back ≠ name ++ [':'] :=
    ne_label_of_space (List.mem_append_left back space) ident
  cases e with
  | init target source => exact word "init " (by decide)
  | scopeEnd v => exact word "end " (by decide)
  | stmt s =>
    cases s with
    | assign target source =>
      refine ne_label_of_space ?_ ident
      show ' ' ∈ assignmentChars scope target source
      rw [assignmentChars_eq]
      exact List.mem_append_right _ List.mem_cons_self
    | eval e => exact word "eval " (by decide)
    | branch o => exact word "branch " (by decide)
    | ret value =>
      cases value with
      | none =>
        intro same
        have last : "return".toList.getLast? = some ':' := (congrArg List.getLast? same).trans List.getLast?_concat
        exact absurd last (by decide)
      | some o => exact word "return " (by decide)

/-- What an element is printed as is read as the element. -/
theorem readElement_chars (fine : scope.Fine) (good : e.Fine scope) : readElement scope (e.chars scope) = .ok e := by
  cases e with
  | init target source =>
    show (readAssignment scope (assignmentChars scope target source)).map _ = _
    rw [readAssignment_chars fine good.1 good.2]
    rfl
  | scopeEnd v =>
    show (readVar scope (trim (scope.nameOf v).toList)).map _ = _
    rw [Text.trim_eq_self (content_nameOf fine good).tight, readVar_nameOf fine good]
    rfl
  | stmt s =>
    cases s with
    | assign target source =>
      have unlike {word keyword : String} (mem : keyword ∈ keywords) (same : word.toList = keyword.toList ++ [' ']) :
          after? word (assignmentChars scope target source) = none := by
        rw [assignmentChars_eq]
        exact after?_nameOf fine good.1 mem same
      have mark {c : Char} (mem : c ∈ [' ', '=']) : c ∈ assignmentChars scope target source := by
        rw [assignmentChars_eq]
        refine List.mem_append_right _ ?_
        obtain rfl | later := List.mem_cons.mp mem
        · exact List.mem_cons_self
        · exact List.mem_cons_of_mem _ (List.mem_singleton.mp later ▸ List.mem_cons_self)
      have noReturn : assignmentChars scope target source ≠ "return".toList := by
        intro same
        exact absurd (same ▸ mark (by decide : ' ' ∈ [' ', '='])) (by decide)
      show readElement scope (assignmentChars scope target source) = _
      unfold readElement
      rw [unlike (by decide : "init" ∈ keywords) rfl, unlike (by decide : "end" ∈ keywords) rfl,
        unlike (by decide : "eval" ∈ keywords) rfl, unlike (by decide : "branch" ∈ keywords) rfl,
        unlike (by decide : "return" ∈ keywords) rfl]
      dsimp only
      rw [if_neg noReturn, if_pos (List.contains_iff_mem.mpr (mark (by decide))),
        readAssignment_chars fine good.1 good.2]
      rfl
    | eval e =>
      show (readExpr scope (e.chars scope)).map _ = _
      rw [Expr.readExpr_chars fine good]
      rfl
    | branch o =>
      show (readOperand scope (trim (o.chars scope))).map _ = _
      rw [Text.trim_eq_self (token_operand fine good).content.tight, readOperand_chars fine good]
      rfl
    | ret value =>
      cases value with
      | none => rfl
      | some o =>
        show (readOperand scope (trim (o.chars scope))).map _ = _
        rw [Text.trim_eq_self (token_operand fine (good o rfl)).content.tight, readOperand_chars fine (good o rfl)]
        rfl

/-- What is read as an element can be printed. -/
theorem fine_of_readElement (line : OneLine cs) (read : readElement scope cs = .ok e) : e.Fine scope := by
  have later {word : String} {rest : List Char} (starts : after? word cs = some rest) : OneLine rest := by
    refine line.of_subset ?_
    rw [Text.after?_eq_some_iff.mp starts]
    exact List.subset_append_right _ _
  unfold readElement at read
  split at read
  · rename_i rest starts
    obtain ⟨⟨target, source⟩, found, rfl⟩ := map_eq_ok.mp read
    exact fine_of_readAssignment (later starts) found
  split at read
  · obtain ⟨v, found, rfl⟩ := map_eq_ok.mp read
    exact contains_of_readVar found
  split at read
  · rename_i rest starts
    obtain ⟨e, found, rfl⟩ := map_eq_ok.mp read
    exact Expr.fine_of_readExpr (later starts) found
  split at read
  · obtain ⟨o, found, rfl⟩ := map_eq_ok.mp read
    exact inScope_of_readOperand found
  split at read
  · cases read
    intro o mem
    cases mem
  split at read
  · obtain ⟨o, found, rfl⟩ := map_eq_ok.mp read
    intro a mem
    cases mem
    exact inScope_of_readOperand found
  split at read
  · obtain ⟨⟨target, source⟩, found, rfl⟩ := map_eq_ok.mp read
    exact fine_of_readAssignment line found
  · cases read

end Element

end ForwardFlow
