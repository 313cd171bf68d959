import ForwardFlow.Proofs.Program.Token
import ForwardFlow.Proofs.Results

namespace ForwardFlow

open Text (Tight isBlank trim after? splitFirst? beforeLast? words)

/-- What stands between two contents may begin and end with blanks. -/
theorem Content.around {front back : List Char} (left : Content front) (middle : List Char) (right : Content back)
    (noHash : '#' ∉ middle) (noBreak : '\n' ∉ middle) : Content (front ++ middle ++ back) where
  some := by simp [left.some]
  tight := by
    refine ⟨fun c head => left.tight.first c ?_, fun c last => right.tight.last c ?_⟩
    · rwa [List.append_assoc, List.head?_append_of_ne_nil _ left.some] at head
    · rwa [List.getLast?_append_of_ne_nil _ right.some] at last
  noHash := by simp [left.noHash, noHash, right.noHash]
  noBreak := by simp [left.noBreak, noBreak, right.noBreak]

/-- A line may begin with a word and go on behind a space. -/
theorem Content.afterWord {back : List Char} (content : Content back) (word : String)
    (plain : isPlain word.toList = true) : Content (word.toList ++ [' '] ++ back) :=
  (content_of_isPlain plain).around [' '] content (by decide) (by decide)

section Commas

variable {part : List Char} {parts : List (List Char)}

theorem commaList_cons_cons (first second : List Char) (rest : List (List Char)) :
    commaList (first :: second :: rest) = first ++ [',', ' '] ++ commaList (second :: rest) :=
  List.intercalate_cons_cons

theorem content_commaList (some : parts ≠ []) (each : ∀ part ∈ parts, Content part) : Content (commaList parts) := by
  induction parts with
  | nil => exact absurd rfl some
  | cons first rest ih =>
    have here := each first List.mem_cons_self
    cases rest with
    | nil =>
      rwa [commaList, List.intercalate_singleton]
    | cons second rest =>
      rw [commaList_cons_cons]
      have later := ih (List.cons_ne_nil second rest) fun part mem => each part (List.mem_cons_of_mem first mem)
      exact here.around [',', ' '] later (by decide) (by decide)

theorem map_trim_splitOn_cons {mark c : Char} {cs : List Char} (blank : isBlank c = true) (other : c ≠ mark) :
    ((c :: cs).splitOn mark).map trim = (cs.splitOn mark).map trim := by
  obtain ⟨first, rest, parts⟩ := List.exists_cons_of_ne_nil (List.splitOnP_ne_nil (· == mark) cs)
  have split : cs.splitOn mark = first :: rest := parts
  have trimmed : trim (c :: first) = trim first := by
    have front : ∀ d ∈ [c], isBlank d = true := by
      intro d mem
      cases List.mem_singleton.mp mem
      exact blank
    exact Text.trim_append front
  rw [List.splitOn_cons_eq_if_modifyHead, if_neg (by simpa using other), split, List.modifyHead_cons, List.map_cons,
    List.map_cons, trimmed]

/-- Parts without commas come back from the list of them. -/
theorem map_trim_splitOn (some : parts ≠ []) (each : ∀ part ∈ parts, Tight part ∧ ',' ∉ part) :
    ((commaList parts).splitOn ',').map trim = parts := by
  induction parts with
  | nil => exact absurd rfl some
  | cons first rest ih =>
    obtain ⟨tight, outside⟩ := each first List.mem_cons_self
    cases rest with
    | nil =>
      rw [commaList, List.intercalate_singleton, List.splitOn_eq_singleton outside, List.map_singleton,
        Text.trim_eq_self tight]
    | cons second rest =>
      have later := ih (List.cons_ne_nil second rest) fun part mem => each part (List.mem_cons_of_mem first mem)
      have split : (commaList (first :: second :: rest)).splitOn ',' =
          first :: (' ' :: commaList (second :: rest)).splitOn ',' := by
        rw [commaList_cons_cons, List.append_assoc]
        refine List.splitOnP_append_cons_of_forall_mem (fun c mem => ?_) ',' (by decide) _
        exact beq_eq_false_iff_ne.mpr (ne_of_mem_of_not_mem mem outside)
      rw [split, List.map_cons, Text.trim_eq_self tight, map_trim_splitOn_cons (by decide) (by decide), later]

/-- Nothing comes back from the list of no parts. -/
theorem filter_map_trim_splitOn (each : ∀ part ∈ parts, Content part ∧ ',' ∉ part) :
    (((commaList parts).splitOn ',').map trim).filter (!·.isEmpty) = parts := by
  by_cases some : parts = []
  · subst some
    decide
  · rw [map_trim_splitOn some fun part mem => ⟨(each part mem).1.tight, (each part mem).2⟩, List.filter_eq_self]
    intro part mem
    simp [(each part mem).1.some]

end Commas

/-- The name of a callee as a reader leaves it. It may hold anything that does not end the name or the line. -/
structure Callee (cs : List Char) : Prop extends OneLine cs where
  tight : Tight cs
  noParen : '(' ∉ cs

/-- An expression as a reader accepts it. -/
structure Expr.Fine (scope : Scope) (e : Expr) : Prop where
  inScope : ∀ o ∈ e.operands, o.InScope scope
  callee : ∀ name args, e = .call name args → Callee name.toList

variable {scope : Scope} {cs : List Char} {v : Var} {o : Operand} {e : Expr}

theorem after?_nameOf (fine : scope.Fine) (inside : scope.contains v = true) {word keyword : String} {rest : List Char}
    (mem : keyword ∈ keywords) (same : word.toList = keyword.toList ++ [' ']) :
    after? word ((scope.nameOf v).toList ++ ' ' :: rest) = none := by
  obtain ⟨ident, other⟩ := fine.nameOf inside
  have space : ' ' ∉ keyword.toList := (by decide : ∀ keyword ∈ keywords, ' ' ∉ keyword.toList) keyword mem
  refine Option.eq_none_iff_forall_ne_some.mpr fun later found => other ?_
  have starts := Text.after?_eq_some_iff.mp found
  rw [same, List.append_assoc, List.singleton_append] at starts
  have equal := Text.eq_of_append_cons_eq ((token_of_isIdent ident).notMem (by decide)) space starts
  exact String.toList_inj.mp equal ▸ mem

theorem BinOp.isPlain_symbol (op : BinOp) : isPlain op.symbol.toList = true := by
  cases op <;> decide

namespace Expr

theorem Fine.operand (good : e.Fine scope) (mem : o ∈ e.operands) : o.InScope scope := good.inScope o mem

theorem chars_use (o : Operand) : (use o).chars scope = o.chars scope := rfl

theorem chars_not (o : Operand) : (not o).chars scope = '!' :: o.chars scope := rfl

theorem chars_binary (op : BinOp) (l r : Operand) : (binary op l r).chars scope =
    l.chars scope ++ ' ' :: (op.symbol.toList ++ ' ' :: r.chars scope) :=
  List.append_assoc (l.chars scope) (' ' :: op.symbol.toList) (' ' :: r.chars scope)

theorem chars_call (name : String) (args : List Operand) : (call name args).chars scope =
    "call ".toList ++ (name.toList ++ '(' :: (commaList (args.map (·.chars scope)) ++ [')'])) := by
  show "call ".toList ++ name.toList ++ '(' :: commaList (args.map (·.chars scope)) ++ [')'] = _
  rw [List.append_assoc, List.append_assoc, List.cons_append]

theorem oneLine_args (fine : scope.Fine) {args : List Operand} (inScope : ∀ o ∈ args, o.InScope scope) :
    OneLine (commaList (args.map (·.chars scope))) := by
  cases args with
  | nil => exact ⟨List.not_mem_nil, List.not_mem_nil⟩
  | cons o args =>
    have content : Content (commaList ((o :: args).map (·.chars scope))) := by
      refine content_commaList (List.cons_ne_nil _ _) fun part mem => ?_
      obtain ⟨a, inside, rfl⟩ := List.mem_map.mp mem
      exact (token_operand fine (inScope a inside)).content
    exact content.toOneLine

theorem content_chars (fine : scope.Fine) (good : e.Fine scope) : Content (e.chars scope) := by
  have token {o : Operand} (mem : o ∈ e.operands) := (token_operand fine (good.operand mem)).content
  cases e with
  | use o => exact token (by simp [operands])
  | not o =>
    have sign := content_of_isPlain (by decide : isPlain ['!'] = true)
    exact sign.around [] (token (by simp [operands])) (by simp) (by simp)
  | binary op l r =>
    have symbol := content_of_isPlain op.isPlain_symbol
    have middle := (token (o := l) (by simp [operands])).around (' ' :: (op.symbol.toList ++ [' ']))
      (token (o := r) (by simp [operands])) (by simp [symbol.noHash]) (by simp [symbol.noBreak])
    rw [chars_binary]
    simpa using middle
  | call name args =>
    have callee := good.callee name args rfl
    have inScope : ∀ o ∈ args, o.InScope scope := good.inScope
    have inside := oneLine_args fine inScope
    have call := content_of_isPlain (by decide : isPlain "call".toList = true)
    have middle := call.around (' ' :: (name.toList ++ '(' :: commaList (args.map (·.chars scope))))
      (content_of_isPlain (by decide : isPlain [')'] = true))
      (by simp [callee.noHash, inside.noHash]) (by simp [callee.noBreak, inside.noBreak])
    rw [chars_call]
    simpa using middle

/-- What an expression is printed as is read as the expression. -/
theorem readExpr_chars (fine : scope.Fine) (good : e.Fine scope) : readExpr scope (e.chars scope) = .ok e := by
  have token {o : Operand} (mem : o ∈ e.operands) := token_operand fine (good.operand mem)
  have read {o : Operand} (mem : o ∈ e.operands) := readOperand_chars fine (good.operand mem)
  unfold readExpr
  rw [Text.trim_eq_self (content_chars fine good).tight]
  cases e with
  | use o =>
    have mem : o ∈ (use o).operands := by simp [operands]
    have noCall : after? "call " (o.chars scope) = none :=
      Text.after?_eq_none_of_notMem (c := ' ') (by decide) ((token mem).notMem (by decide))
    have noNot : after? "!" (o.chars scope) = none :=
      Text.after?_eq_none_of_notMem (c := '!') (by decide) ((token mem).notMem (by decide))
    have single := Text.words_eq_singleton (token mem).some (token mem).unbroken
    simp only [chars_use, noCall, noNot, single, read mem, Except.map]
  | not o =>
    have mem : o ∈ (not o).operands := by simp [operands]
    have noCall : after? "call " ('!' :: o.chars scope) = none := rfl
    have isNot : after? "!" ('!' :: o.chars scope) = some (o.chars scope) := rfl
    simp only [chars_not, noCall, isNot, Text.trim_eq_self (token mem).content.tight, read mem, Except.map]
  | binary op l r =>
    have left : l ∈ (binary op l r).operands := by simp [operands]
    have right : r ∈ (binary op l r).operands := by simp [operands]
    have symbol := op.isPlain_symbol
    have noCall : after? "call " ((binary op l r).chars scope) = none := by
      refine Option.eq_none_iff_forall_ne_some.mpr fun rest found => ?_
      rw [chars_binary] at found
      have starts := Text.after?_eq_some_iff.mp found
      refine operand_ne_keyword fine (good.operand left) "call" (by decide) (by decide) ?_
      exact Text.eq_of_append_cons_eq ((token left).notMem (by decide)) (by decide)
        (starts : _ = "call".toList ++ ' ' :: rest)
    have noNot : after? "!" ((binary op l r).chars scope) = none := by
      refine Option.eq_none_iff_forall_ne_some.mpr fun rest found => ?_
      rw [chars_binary] at found
      have starts : l.chars scope ++ _ = '!' :: rest := Text.after?_eq_some_iff.mp found
      cases shape : l.chars scope with
      | nil => exact (token left).some shape
      | cons c cs =>
        rw [shape, List.cons_append, List.cons.injEq] at starts
        exact (token left).notMem (c := '!') (by decide) (shape ▸ starts.1 ▸ List.mem_cons_self)
    have three : words ((binary op l r).chars scope) = [l.chars scope, op.symbol.toList, r.chars scope] := by
      rw [chars_binary, Text.words_append_cons (token left).some (token left).unbroken (by decide),
        Text.words_append_cons (isPlain_iff.mp symbol).1 (unbroken_of_isPlain symbol) (by decide),
        Text.words_eq_singleton (token right).some (token right).unbroken]
    simp only [noCall, noNot, three, readBinary, String.ofList_toList, BinOp.ofSymbol?_symbol, read left, read right]
    rfl
  | call name args =>
    have callee := good.callee name args rfl
    have isCall : after? "call " ((call name args).chars scope) =
        some (name.toList ++ '(' :: (commaList (args.map (·.chars scope)) ++ [')'])) := by
      rw [chars_call, Text.after?_append]
    have parts : (((commaList (args.map (·.chars scope))).splitOn ',').map trim).filter (!·.isEmpty) =
        args.map (·.chars scope) := by
      refine filter_map_trim_splitOn fun part mem => ?_
      obtain ⟨o, inside, rfl⟩ := List.mem_map.mp mem
      exact ⟨(token inside).content, (token inside).notMem (by decide)⟩
    have operands : (args.map (·.chars scope)).mapM (readOperand scope) = .ok args :=
      mapM_map_eq_ok fun o mem => read mem
    simp only [isCall, readCall, Text.splitFirst?_append_cons callee.noParen, Text.beforeLast?_snoc, parts, operands,
      Text.trim_eq_self callee.tight, String.ofList_toList]
    rfl

theorem fine_of_readCall {text call : List Char} (line : OneLine call)
    (read : readCall scope text call = .ok e) : e.Fine scope := by
  unfold readCall at read
  split at read
  · cases read
  · rename_i callee rest split
    have inside : trim callee ⊆ call := by
      intro c mem
      rw [Text.splitFirst?_eq_some split]
      exact List.mem_append_left rest (List.mem_append_left _ (Text.mem_of_mem_trim mem))
    split at read
    · cases read
    · obtain ⟨args, operands, same⟩ := bind_eq_ok.mp read
      cases same
      refine ⟨fun o mem => ?_, fun name args' same => ?_⟩
      · obtain ⟨text, _, found⟩ := exists_of_mapM operands mem
        exact inScope_of_readOperand found
      · cases same
        rw [String.toList_ofList]
        exact ⟨line.of_subset inside, Text.tight_trim callee,
          fun mem => Text.notMem_of_splitFirst? split (Text.mem_of_mem_trim mem)⟩

/-- What is read as an expression can be printed. -/
theorem fine_of_readExpr (line : OneLine cs) (read : readExpr scope cs = .ok e) : e.Fine scope := by
  have plain {e : Expr} (inScope : ∀ o ∈ e.operands, o.InScope scope) (noCall : ∀ name args, e ≠ .call name args) :
      e.Fine scope := ⟨inScope, fun name args same => absurd same (noCall name args)⟩
  unfold readExpr at read
  dsimp only at read
  split at read
  · rename_i call starts
    have inside : call ⊆ cs := by
      intro c mem
      refine Text.mem_of_mem_trim ?_
      rw [Text.after?_eq_some_iff.mp starts]
      exact List.mem_append_right _ mem
    exact fine_of_readCall (line.of_subset inside) read
  · split at read
    · obtain ⟨o, found, rfl⟩ := map_eq_ok.mp read
      refine plain (fun a mem => ?_) (by simp)
      cases List.mem_singleton.mp mem
      exact inScope_of_readOperand found
    · split at read
      · obtain ⟨o, found, rfl⟩ := map_eq_ok.mp read
        refine plain (fun a mem => ?_) (by simp)
        cases List.mem_singleton.mp mem
        exact inScope_of_readOperand found
      · unfold readBinary at read
        split at read
        · cases read
        · obtain ⟨l, left, read⟩ := bind_eq_ok.mp read
          obtain ⟨r, right, same⟩ := bind_eq_ok.mp read
          cases same
          refine plain (fun a mem => ?_) (by simp)
          obtain rfl | mem := List.mem_cons.mp mem
          · exact inScope_of_readOperand left
          · cases List.mem_singleton.mp mem
            exact inScope_of_readOperand right
      · cases read

end Expr

end ForwardFlow
