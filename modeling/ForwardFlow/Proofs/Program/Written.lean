import ForwardFlow.Proofs.Program.Normal
import ForwardFlow.Proofs.Program.RoundTrip

namespace ForwardFlow

open Text (isBlank isMark trim words after? splitFirst? beforeLast? readWord? normal)

/-- How an operand is written: a variable by its name, a truth value by its word, an integer by any decimal for it. -/
inductive Operand.Written (scope : Scope) : Operand → List Char → Prop
  | var (v : Var) : Written scope (.var v) (scope.nameOf v).toList
  | bool (b : Bool) : Written scope (.lit (.bool b)) (Literal.bool b).chars
  | int {n : Int64} {cs : List Char} : readWord? cs = some n → Written scope (.lit (.int n)) cs

/-- Arguments are written with a comma between two. Blanks stand for none. -/
def ArgsWritten (scope : Scope) (args : List Operand) (cs : List Char) : Prop :=
  (args = [] ∧ ∀ c ∈ cs, isBlank c = true) ∨
    List.Forall₂ (fun part (o : Operand) => o.Written scope (trim part)) (cs.splitOn ',') args

/-- The four forms of an expression. A call ends with the parenthesis behind its arguments. -/
inductive Expr.Written (scope : Scope) : Expr → List Char → Prop
  | use {o : Operand} {cs operand : List Char} :
    words cs = [operand] → o.Written scope operand → Written scope (.use o) cs
  | not {o : Operand} {cs : List Char} : o.Written scope (trim cs) → Written scope (.not o) ('!' :: cs)
  | binary {op : BinOp} {l r : Operand} {cs left right : List Char} : words cs = [left, op.symbol.toList, right] →
    l.Written scope left → r.Written scope right → Written scope (.binary op l r) cs
  | call {callee inner : List Char} {args : List Operand} : '(' ∉ callee → ArgsWritten scope args inner →
    Written scope (.call (.ofList (trim callee)) args) ("call ".toList ++ (callee ++ '(' :: (inner ++ [')'])))

/-- A text that ends with a parenthesis, and has the commas it is printed with. -/
structure CallKept (cs printed : List Char) : Prop where
  last : cs.getLast? = some ')'
  commas : cs.count ',' = printed.count ','

variable {scope : Scope} {cs : List Char} {v : Var} {o : Operand} {args : List Operand} {e : Expr}

theorem Scope.nameOf_of_lookup? {name : String} (found : scope.lookup? name = some v) : scope.nameOf v = name := by
  obtain ⟨n, first, rfl⟩ := Option.map_eq_some_iff.mp found
  obtain ⟨short, named, _⟩ := List.findIdx?_eq_some_iff_getElem.mp first
  rw [Scope.nameOf, Table.get?_slot, List.getElem?_eq_getElem short]
  exact beq_iff_eq.mp named

theorem chars_of_readVar (read : readVar scope cs = .ok v) : (scope.nameOf v).toList = cs := by
  unfold readVar at read
  split at read
  · rename_i found
    cases read
    rw [Scope.nameOf_of_lookup? found, String.toList_ofList]
  · cases read

theorem Operand.written_of_read (read : readOperand scope cs = .ok o) : o.Written scope cs := by
  unfold readOperand at read
  split at read
  · rename_i literal found
    cases read
    unfold readLiteral? at found
    split at found
    · rename_i same
      cases found
      exact same ▸ .bool true
    split at found
    · rename_i same
      cases found
      exact same ▸ .bool false
    · obtain ⟨n, word, rfl⟩ := Option.map_eq_some_iff.mp found
      exact .int word
  · obtain ⟨v, found, rfl⟩ := map_eq_ok.mp read
    exact chars_of_readVar found ▸ .var v

/-- However an operand is written, it is what it is printed as, up to blanks and zeros. -/
theorem Operand.Written.normal_eq (written : o.Written scope cs) : normal cs = normal (o.chars scope) := by
  cases written with
  | var v => rfl
  | bool b => rfl
  | int read =>
    exact (Text.normal_of_readWord? read).trans (Text.normal_of_readWord? (Text.readWord?_renderWord _)).symm

theorem ArgsWritten.normal_eq (written : ArgsWritten scope args cs) :
    normal cs = normal (commaList (args.map (·.chars scope))) := by
  obtain ⟨rfl, blank⟩ | parts := written
  · exact Text.normal_of_blank blank
  · have whole : [','].intercalate (cs.splitOn ',') = cs := List.intercalate_splitOn ','
    have same : (cs.splitOn ',').map normal = args.map fun o => normal (o.chars scope) :=
      map_eq_map_of_forall₂ parts fun part _ o _ written => (Text.normal_trim part).symm.trans written.normal_eq
    have split : normal cs = [','].intercalate ((cs.splitOn ',').map normal) := by
      conv_lhs => rw [← whole]
      exact Text.normal_intercalate (fun _ mem => absurd mem List.not_mem_nil) _
    rw [split, same, commaList, Text.normal_intercalate (List.all_eq_true.mp (by decide)), List.map_map]
    rfl

theorem normal_call (callee inner rest : List Char) :
    normal ("call ".toList ++ (callee ++ '(' :: (inner ++ ')' :: rest))) =
      "call".toList ++ (normal callee ++ '(' :: (normal inner ++ ')' :: normal rest)) := by
  have word : normal "call ".toList = "call".toList := by decide +kernel
  rw [Text.normal_append_left (by decide), Text.normal_append_mark (by decide), Text.normal_append_mark (by decide),
    word]

theorem normal_toList_trim (callee : List Char) : normal (String.ofList (trim callee)).toList = normal callee := by
  rw [String.toList_ofList, Text.normal_trim]

/-- An expression that is written in one of the four forms is what it is printed as, up to blanks and zeros. -/
theorem Expr.Written.normal_eq (written : e.Written scope cs) : normal cs = normal (e.chars scope) := by
  cases written with
  | use single written =>
    rw [← Text.flatMap_normal_words, single, List.flatMap_singleton, chars_use, written.normal_eq]
  | not written =>
    rw [chars_not, Text.normal_cons_mark (by decide), Text.normal_cons_mark (by decide), ← written.normal_eq,
      Text.normal_trim]
  | binary split left right =>
    rw [← Text.flatMap_normal_words, split, chars_binary, Text.normal_append_blank (by decide),
      Text.normal_append_blank (by decide), ← left.normal_eq, ← right.normal_eq]
    simp
  | call outside written =>
    rw [chars_call, normal_call, normal_call, written.normal_eq, normal_toList_trim]

section Commas

variable {parts : List (List Char)}

theorem count_intercalate {back : List Char} (quiet : ',' ∉ back) (each : ∀ part ∈ parts, ',' ∉ part) :
    ((',' :: back).intercalate parts).count ',' = parts.length - 1 := by
  induction parts with
  | nil => rfl
  | cons part parts ih =>
    have here : part.count ',' = 0 := List.count_eq_zero.mpr (each part List.mem_cons_self)
    cases parts with
    | nil => rw [List.intercalate_singleton, here, List.length_singleton]
    | cons next parts =>
      rw [List.intercalate_cons_cons, List.count_append, List.count_append, here, List.count_cons_self,
        List.count_eq_zero.mpr quiet, ih fun part mem => each part (List.mem_cons_of_mem _ mem)]
      simp only [List.length_cons]
      omega

theorem count_splitOn (cs : List Char) : cs.count ',' = (cs.splitOn ',').length - 1 := by
  have whole : [','].intercalate (cs.splitOn ',') = cs := List.intercalate_splitOn ','
  conv_lhs => rw [← whole]
  exact count_intercalate List.not_mem_nil fun part mem => (Text.mem_splitOn mem).1

theorem count_commaList (quiet : ∀ part ∈ parts, ',' ∉ part) : (commaList parts).count ',' = parts.length - 1 :=
  count_intercalate (by decide) quiet

end Commas

section Call

variable {inner : List Char} (read : List.Forall₂ (fun part o => readOperand scope part = .ok o)
  (((inner.splitOn ',').map trim).filter (!·.isEmpty)) args)

include read

theorem count_commaList_of_read : (commaList (args.map (·.chars scope))).count ',' = args.length - 1 := by
  have quiet : ∀ o ∈ args, ',' ∉ o.chars scope := by
    intro o mem inside
    obtain ⟨part, among, found⟩ := exists_of_mapM (mapM_eq_ok.mpr read) mem
    obtain ⟨between, listed, rfl⟩ := List.mem_map.mp (List.mem_of_mem_filter among)
    have outside : ',' ∉ trim between := fun mem => (Text.mem_splitOn listed).1 (Text.mem_of_mem_trim mem)
    have same : (trim between).count ',' = (o.chars scope).count ',' :=
      Text.count_eq_of_normal_eq (by decide) (Operand.written_of_read found).normal_eq
    rw [List.count_eq_zero.mpr outside] at same
    exact List.count_eq_zero.mp same.symm inside
  rw [count_commaList fun part mem => ?_, List.length_map]
  obtain ⟨o, inside, rfl⟩ := List.mem_map.mp mem
  exact quiet o inside

/-- No argument was left out if the commas between the arguments are all there are. -/
theorem argsWritten_of_count (commas : inner.count ',' = (commaList (args.map (·.chars scope))).count ',') :
    ArgsWritten scope args inner := by
  rw [count_commaList_of_read read, count_splitOn] at commas
  have written := read.imp fun part o => Operand.written_of_read
  have length := read.length_eq
  have some : (inner.splitOn ',').length ≠ 0 := fun none => List.splitOnP_ne_nil _ _ (List.length_eq_zero_iff.mp none)
  cases args with
  | nil =>
    -- The one part there is is blank, or it would have been read.
    obtain ⟨part, single⟩ : ∃ part, inner.splitOn ',' = [part] := by
      rw [← List.length_eq_one_iff]
      rw [List.length_nil] at commas
      omega
    have whole : [','].intercalate (inner.splitOn ',') = inner := List.intercalate_splitOn ','
    rw [single, List.intercalate_singleton] at whole
    rw [single, whole] at length
    have nothing : trim inner = [] := by simpa using length
    refine .inl ⟨rfl, Text.blank_of_normal_eq_nil ?_⟩
    rw [← Text.normal_trim, nothing, Text.normal_nil]
  | cons o args =>
    have all : ∀ part ∈ (inner.splitOn ',').map trim, (!part.isEmpty) = true := by
      refine List.length_filter_eq_length_iff.mp (length.trans ?_)
      rw [List.length_map]
      rw [List.length_cons] at commas ⊢
      omega
    rw [List.filter_eq_self.mpr all, List.forall₂_map_left_iff] at written
    exact .inr written

end Call

/-- What a call is read from. Its last parenthesis need not end it, and there may be more commas than arguments. -/
structure CallText (scope : Scope) (text callee inner rest : List Char) (args : List Operand) : Prop where
  shape : text = "call ".toList ++ (callee ++ '(' :: (inner ++ ')' :: rest))
  first : '(' ∉ callee
  last : ')' ∉ rest
  read : List.Forall₂ (fun part o => readOperand scope part = .ok o)
    (((inner.splitOn ',').map trim).filter (!·.isEmpty)) args

theorem exists_of_readCall {text call : List Char} (starts : after? "call " text = some call)
    (read : readCall scope text call = .ok e) : ∃ callee inner rest args,
      CallText scope text callee inner rest args ∧ e = .call (.ofList (trim callee)) args := by
  unfold readCall at read
  split at read
  · cases read
  · rename_i callee later split
    split at read
    · cases read
    · rename_i inner ends
      obtain ⟨args, operands, same⟩ := bind_eq_ok.mp read
      cases same
      obtain ⟨rest, shape, last⟩ := Text.exists_of_beforeLast? ends
      refine ⟨callee, inner, rest, args, ⟨?_, Text.notMem_of_splitFirst? split, last, mapM_eq_ok.mp operands⟩, rfl⟩
      rw [Text.after?_eq_some_iff.mp starts, Text.splitFirst?_eq_some split, shape, List.append_assoc,
        List.singleton_append]

/-- An expression that is read is in one of the four forms, or a call. -/
theorem Expr.written_or_call (read : readExpr scope cs = .ok e) :
    (e.Written scope (trim cs) ∧ ∀ name args, e ≠ .call name args) ∨ ∃ callee inner rest args,
      CallText scope (trim cs) callee inner rest args ∧ e = .call (.ofList (trim callee)) args := by
  unfold readExpr at read
  dsimp only at read
  split at read
  · rename_i call starts
    exact .inr (exists_of_readCall starts read)
  split at read
  · rename_i operand starts
    obtain ⟨o, found, rfl⟩ := map_eq_ok.mp read
    have shape : trim cs = '!' :: operand := Text.after?_eq_some_iff.mp starts
    exact .inl ⟨shape ▸ .not (Operand.written_of_read found), by simp⟩
  split at read
  · rename_i operand single
    obtain ⟨o, found, rfl⟩ := map_eq_ok.mp read
    exact .inl ⟨.use single (Operand.written_of_read found), by simp⟩
  · rename_i left symbol right three
    unfold readBinary at read
    split at read
    · cases read
    · rename_i op named
      obtain ⟨l, first, read⟩ := bind_eq_ok.mp read
      obtain ⟨r, second, same⟩ := bind_eq_ok.mp read
      cases same
      have same : op.symbol = .ofList symbol := beq_iff_eq.mp (List.find?_some named :)
      have word : symbol = op.symbol.toList := by rw [same, String.toList_ofList]
      rw [word] at three
      exact .inl ⟨.binary three (Operand.written_of_read first) (Operand.written_of_read second), by simp⟩
  · cases read

section Shape

variable {callee inner rest : List Char} (text : CallText scope (trim cs) callee inner rest args)

include text

/-- A call that ends with its last parenthesis is written as a call should be, unless an argument was left out. -/
theorem CallText.written (rest_eq : rest = [])
    (commas : inner.count ',' = (commaList (args.map (·.chars scope))).count ',') :
    (Expr.call (.ofList (trim callee)) args).Written scope (trim cs) := by
  rw [text.shape, rest_eq]
  exact .call text.first (argsWritten_of_count text.read commas)

theorem CallText.getLast?_eq : (trim cs).getLast? = (')' :: rest).getLast? := by
  rw [text.shape]
  simp [List.getLast?_append, List.getLast?_cons]

theorem CallText.rest_eq_nil (last : (trim cs).getLast? = some ')') : rest = [] := by
  rw [text.getLast?_eq] at last
  obtain rfl | ⟨front, c, rfl⟩ := List.eq_nil_or_concat rest
  · rfl
  · have same : c = ')' := by simpa [List.getLast?_cons] using last
    exact absurd (by simp [same]) text.last

theorem CallText.count_inner (rest_eq : rest = []) :
    (trim cs).count ',' = ((Expr.call (.ofList (trim callee)) args).chars scope).count ',' ↔
      inner.count ',' = (commaList (args.map (·.chars scope))).count ',' := by
  have name : (trim callee).count ',' = callee.count ',' := Text.count_trim (by decide) callee
  rw [text.shape, Expr.chars_call, rest_eq]
  simp [List.count_append, name]

theorem CallText.getLast?_of_normal_eq
    (same : normal (trim cs) = normal ((Expr.call (.ofList (trim callee)) args).chars scope)) :
    (trim cs).getLast? = some ')' := by
  rw [text.shape, Expr.chars_call, normal_call, normal_call, normal_toList_trim, List.append_cancel_left_eq,
    List.append_cancel_left_eq, List.cons.injEq] at same
  have last := text.getLast?_eq
  obtain rfl | ⟨front, c, shape⟩ := List.eq_nil_or_concat rest
  · exact last
  · -- The text does not end with a blank, so something of what follows the parenthesis would have to be a parenthesis.
    have ends : c ∈ (trim cs).getLast? := by simp [last, shape, List.getLast?_cons]
    obtain nothing | ⟨begun, d, kept⟩ := List.eq_nil_or_concat (normal rest)
    · have blank := Text.blank_of_normal_eq_nil nothing c (by simp [shape])
      rw [(Text.tight_trim cs).last c ends] at blank
      cases blank
    · have paren : d = ')' := by
        have lasts := congrArg List.getLast? same.2
        rw [kept] at lasts
        simpa [List.getLast?_append, List.getLast?_cons] using lasts
      have mem : ')' ∈ normal rest := by simp [kept, paren]
      exact absurd (Text.mem_of_mem_normal (by decide) mem) text.last

end Shape

/-- Nothing is lost of an expression just if it is written in one of the four forms. All that are read are, but calls
that go on behind the parenthesis or have a comma too many. -/
theorem Expr.written_iff_of_read (read : readExpr scope cs = .ok e) :
    (normal cs = normal (e.chars scope) ↔ e.Written scope (trim cs)) ∧
      (e.Written scope (trim cs) ↔ ∀ name args, e = .call name args → CallKept (trim cs) (e.chars scope)) := by
  have kept (same : normal cs = normal (e.chars scope)) (name : String) (args : List Operand)
      (call : e = .call name args) : CallKept (trim cs) (e.chars scope) := by
    obtain ⟨_, other⟩ | ⟨callee, inner, rest, args, text, rfl⟩ := written_or_call read
    · exact absurd call (other name args)
    · rw [← Text.normal_trim] at same
      exact ⟨text.getLast?_of_normal_eq same, Text.count_eq_of_normal_eq (by decide) same⟩
  have written (kept : ∀ name args, e = .call name args → CallKept (trim cs) (e.chars scope)) :
      e.Written scope (trim cs) := by
    obtain ⟨written, _⟩ | ⟨callee, inner, rest, args, text, rfl⟩ := written_or_call read
    · exact written
    · obtain ⟨last, commas⟩ := kept _ _ rfl
      have rest := text.rest_eq_nil last
      exact text.written rest ((text.count_inner rest).mp commas)
  have normal_eq (written : e.Written scope (trim cs)) : normal cs = normal (e.chars scope) :=
    (Text.normal_trim cs).symm.trans written.normal_eq
  exact ⟨⟨fun same => written (kept same), normal_eq⟩, fun made => kept (normal_eq made), written⟩

end ForwardFlow
