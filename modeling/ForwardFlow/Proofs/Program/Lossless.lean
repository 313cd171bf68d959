import ForwardFlow.Proofs.Program.Written

namespace ForwardFlow

open Text (trim after? normal)

/-- The expression an element computes. -/
def Element.expr? : Element → Option Expr
  | .stmt (.assign _ source) => some source
  | .stmt (.eval e) => some e
  | .init _ source => some source
  | _ => none

namespace Element

variable {scope : Scope} {cs : List Char} {v target : Var} {source : Expr} {e : Element}

/-- A line ends with the text of an expression, and nothing is lost of what stands before. -/
structure Ends (scope : Scope) (cs printed : List Char) (source : Expr) (front front' text : List Char) : Prop where
  line : cs = front ++ ' ' :: text
  printed : printed = front' ++ ' ' :: source.chars scope
  front : normal front = normal front'
  read : readExpr scope text = .ok source

theorem ends_of_readAssignment (read : readAssignment scope cs = .ok (target, source)) :
    ∃ front front' text, Ends scope cs (assignmentChars scope target source) source front front' text := by
  unfold readAssignment at read
  split at read
  · cases read
  · rename_i before after split
    obtain ⟨v, name, read⟩ := bind_eq_ok.mp read
    obtain ⟨e, expr, same⟩ := bind_eq_ok.mp read
    cases same
    refine ⟨before ++ [' ', '='], (scope.nameOf target).toList ++ [' ', '='], after, ?_, ?_, ?_, expr⟩
    · rw [Text.splitFirst?_eq_some split]
      simp
    · rw [assignmentChars_eq]
      simp
    · rw [chars_of_readVar name, Text.normal_append_blank (by decide), Text.normal_append_blank (by decide),
        Text.normal_trim]

theorem Ends.behind {printed front front' text : List Char} (ends : Ends scope cs printed source front front' text)
    {word : List Char} (blank : word.getLast?.any Text.isBreak = true) :
    Ends scope (word ++ cs) (word ++ printed) source (word ++ front) (word ++ front') text where
  line := by rw [ends.line, List.append_assoc]
  printed := by rw [ends.printed, List.append_assoc]
  front := by rw [Text.normal_append_left blank, Text.normal_append_left blank, ends.front]
  read := ends.read

/-- Nothing is lost of a line that holds no expression. -/
theorem normal_eq_or_ends (read : readElement scope cs = .ok e) :
    (e.expr? = none ∧ normal cs = normal (e.chars scope)) ∨
    ∃ source front front' text, e.expr? = some source ∧ Ends scope cs (e.chars scope) source front front' text := by
  have kept {word : String} (blank : word.toList.getLast?.any Text.isBreak = true) {rest printed : List Char}
      (starts : after? word cs = some rest) (same : normal (trim rest) = normal printed) :
      normal cs = normal (word.toList ++ printed) := by
    rw [Text.after?_eq_some_iff.mp starts, Text.normal_append_left blank, Text.normal_append_left blank, ← same,
      Text.normal_trim]
  unfold readElement at read
  split at read
  · rename_i rest starts
    obtain ⟨⟨target, source⟩, found, rfl⟩ := map_eq_ok.mp read
    obtain ⟨_, _, text, ends⟩ := ends_of_readAssignment found
    rw [Text.after?_eq_some_iff.mp starts]
    exact .inr ⟨source, _, _, text, rfl, ends.behind (by decide)⟩
  split at read
  · rename_i rest starts
    obtain ⟨v, found, rfl⟩ := map_eq_ok.mp read
    exact .inl ⟨rfl, kept (by decide) starts (congrArg normal (chars_of_readVar found).symm)⟩
  split at read
  · rename_i rest starts
    obtain ⟨e, found, rfl⟩ := map_eq_ok.mp read
    have line : cs = "eval ".toList ++ rest := Text.after?_eq_some_iff.mp starts
    exact .inr ⟨e, "eval".toList, "eval".toList, rest, rfl, ⟨line, rfl, rfl, found⟩⟩
  split at read
  · rename_i rest starts
    obtain ⟨o, found, rfl⟩ := map_eq_ok.mp read
    exact .inl ⟨rfl, kept (by decide) starts (Operand.written_of_read found).normal_eq⟩
  split at read
  · rename_i same
    cases read
    exact .inl ⟨rfl, congrArg normal same⟩
  split at read
  · rename_i rest starts
    obtain ⟨o, found, rfl⟩ := map_eq_ok.mp read
    exact .inl ⟨rfl, kept (by decide) starts (Operand.written_of_read found).normal_eq⟩
  split at read
  · obtain ⟨⟨target, source⟩, found, rfl⟩ := map_eq_ok.mp read
    obtain ⟨front, front', text, ends⟩ := ends_of_readAssignment found
    exact .inr ⟨source, front, front', text, rfl, ends⟩
  · cases read

section Ends

variable {printed front front' text : List Char} (ends : Ends scope cs printed source front front' text)

include ends

theorem Ends.normal_eq_iff : normal cs = normal printed ↔ normal text = normal (source.chars scope) := by
  rw [ends.line, ends.printed, Text.normal_append_blank (by decide), Text.normal_append_blank (by decide), ends.front,
    List.append_cancel_left_eq]

theorem Ends.callKept_iff (tight : Text.Tight cs) :
    CallKept cs printed ↔ CallKept (trim text) (source.chars scope) := by
  have some : trim text ≠ [] := by
    intro nothing
    have read := ends.read
    rw [readExpr, nothing] at read
    cases read
  have last : cs.getLast? = (trim text).getLast? := by
    have line : cs = (front ++ [' ']) ++ text := by rw [ends.line, List.append_assoc, List.singleton_append]
    rw [line] at tight ⊢
    exact tight.getLast?_append some
  have before : front.count ',' = front'.count ',' := Text.count_eq_of_normal_eq (by decide) ends.front
  have inside : (trim text).count ',' = text.count ',' := Text.count_trim (by decide) text
  have commas : cs.count ',' = printed.count ',' ↔ (trim text).count ',' = (source.chars scope).count ',' := by
    rw [ends.line, ends.printed, inside]
    simp [List.count_append, before]
  constructor
  · exact fun kept => ⟨last ▸ kept.last, commas.mp kept.commas⟩
  · exact fun kept => ⟨last ▸ kept.last, commas.mpr kept.commas⟩

end Ends

/-- Up to blanks and the way integers are written, a line that is read as an element says what the element is printed
as, unless it holds a call that goes on behind its last parenthesis or has a comma with no argument. An expression says
so just if it is written in one of the four forms. -/
theorem lossless_iff (scope : Scope) :
    (∀ raw e, readElement scope (Line.strip raw) = .ok e →
      (normal (raw.takeWhile (· != '#')) = normal (e.chars scope) ↔
        ∀ name args, e.expr? = some (.call name args) → CallKept (Line.strip raw) (e.chars scope))) ∧
    ∀ cs e, readExpr scope cs = .ok e →
      (normal cs = normal (e.chars scope) ↔ e.Written scope (trim cs)) ∧
        (e.Written scope (trim cs) ↔ ∀ name args, e = .call name args → CallKept (trim cs) (e.chars scope)) := by
  refine ⟨fun raw e read => ?_, fun cs e => Expr.written_iff_of_read⟩
  have stripped : normal (raw.takeWhile (· != '#')) = normal (Line.strip raw) := (Text.normal_trim _).symm
  rw [stripped]
  obtain ⟨none, same⟩ | ⟨source, front, front', text, computes, ends⟩ := normal_eq_or_ends read
  · exact iff_of_true same fun name args computes => by simp [none] at computes
  · obtain ⟨kept, written⟩ := Expr.written_iff_of_read ends.read
    rw [ends.normal_eq_iff, kept, written, computes]
    simp only [Option.some.injEq, ends.callKept_iff (Text.tight_trim _)]

theorem lossless_iff_call :
    let scope : Scope := .ofList [⟨"x", .int⟩]
    let raw := " init x =  call f ( +7,x )# seven".toList
    let source : Expr := .call "f" [.lit (.int 7), .var (.slot 0)]
    let e : Element := .init (.slot 0) source
    (readElement scope (Line.strip raw) = .ok e ∧ normal (raw.takeWhile (· != '#')) = normal (e.chars scope)) ∧
      readExpr scope " call f ( +7,x )".toList = .ok source ∧ source.Written scope "call f ( +7,x )".toList := by
  intro scope raw source e
  obtain ⟨lines, exprs⟩ := lossless_iff scope
  have readLine : readElement scope (Line.strip raw) = .ok e := by rfl
  have keptLine : CallKept (Line.strip raw) (e.chars scope) := ⟨by decide +kernel, by decide +kernel⟩
  have read : readExpr scope " call f ( +7,x )".toList = .ok source := by rfl
  have kept : CallKept "call f ( +7,x )".toList (source.chars scope) := ⟨by decide +kernel, by decide +kernel⟩
  exact ⟨⟨readLine, (lines raw e readLine).mpr fun _ _ _ => keptLine⟩,
    read, (exprs _ source read).2.mpr fun _ _ _ => kept⟩

/-- A line with more behind the last parenthesis of a call is read, and loses it. -/
theorem not_lossless : ¬ ∀ (scope : Scope) (raw : List Char) (e : Element), scope.Fine →
    readElement scope (Line.strip raw) = .ok e → normal (raw.takeWhile (· != '#')) = normal (e.chars scope) := by
  intro lossless
  have fine : Scope.Fine (.ofList [⟨"x", .int⟩]) := by
    refine ⟨fun decl mem => ?_, by decide⟩
    cases List.mem_singleton.mp mem
    exact ⟨by decide, by decide, nofun⟩
  have same := lossless _ " x = call g(x) junk".toList (.stmt (.assign (.slot 0) (.call "g" [.var (.slot 0)]))) fine
    (by rfl)
  exact absurd same (by decide +kernel)

end Element

end ForwardFlow
