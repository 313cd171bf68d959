import ForwardFlow.Proofs.Program.ElementText

namespace ForwardFlow

open Text (trim after? splitFirst?)

section Fold

variable {ε α : Type} {step : α → List Char → Except ε α} {a b : α} {contents : List (List Char)}

theorem foldlM_induct {P : α → Prop} (start : P a)
    (next : ∀ a b cs, cs ∈ contents → P a → step a cs = .ok b → P b) (done : contents.foldlM step a = .ok b) : P b := by
  induction contents generalizing a with
  | nil =>
    cases done
    exact start
  | cons cs contents ih =>
    obtain ⟨c, first, rest⟩ := bind_eq_ok.mp done
    exact ih (next a c cs List.mem_cons_self start first)
      (fun a b ds mem => next a b ds (List.mem_cons_of_mem cs mem)) rest

/-- Whether lines are accepted does not depend on their numbers. -/
theorem foldLines_eq_ok {step : α → List Char → Except SyntaxError α} {lines : List Line} :
    foldLines step a lines = .ok b ↔ (lines.map Line.chars).foldlM step a = .ok b := by
  induction lines generalizing a with
  | nil => simp [foldLines, pure, Except.pure]
  | cons line lines ih =>
    rw [foldLines, List.map_cons, List.foldlM_cons]
    cases step a line.chars with
    | error e => simp [bind, Except.bind]
    | ok next => exact ih

end Fold

variable {ty : Ty} {decl : VarDecl} {header : Header} {cs : List Char} {vars : List VarDecl}

theorem content_ty (record : ∀ name, ty = .record name → isIdent name.toList = true) : Content ty.chars := by
  cases ty with
  | int => exact content_of_isPlain (by decide : isPlain "i64".toList = true)
  | bool => exact content_of_isPlain (by decide : isPlain "bool".toList = true)
  | record name =>
    exact (token_of_isIdent (record name rfl)).content.afterWord "record" (by decide)

theorem readType_chars (record : ∀ name, ty = .record name → isIdent name.toList = true) :
    readType ty.chars = .ok ty := by
  cases ty with
  | int => rfl
  | bool => rfl
  | record name =>
    have ident := record name rfl
    show readType ("record ".toList ++ name.toList) = _
    have noWord (word : String) (noSpace : ' ' ∉ word.toList) : "record ".toList ++ name.toList ≠ word.toList := by
      intro same
      exact noSpace (same ▸ List.mem_append_left _ (by decide))
    unfold readType
    rw [if_neg (noWord "i64" (by decide)), if_neg (noWord "bool" (by decide)), Text.after?_append]
    dsimp only
    rw [Text.trim_eq_self (token_of_isIdent ident).content.tight, if_pos ident, String.ofList_toList]

theorem record_of_readType (read : readType cs = .ok ty) : ∀ name, ty = .record name → isIdent name.toList = true := by
  unfold readType at read
  split at read
  · cases read
    simp
  split at read
  · cases read
    simp
  split at read
  · split at read
    · rename_i ident
      cases read
      rintro _ ⟨⟩
      rwa [String.toList_ofList]
    · cases read
  · cases read

theorem VarDecl.content_chars (fine : decl.Fine) : Content decl.chars := by
  have front : Content ("var".toList ++ [' '] ++ decl.name.toList) :=
    (token_of_isIdent fine.ident).content.afterWord "var" (by decide)
  have line : decl.chars = "var".toList ++ [' '] ++ decl.name.toList ++ [':', ' '] ++ decl.ty.chars := by
    rw [List.append_assoc _ [':', ' ']]
    rfl
  rw [line]
  exact front.around [':', ' '] (content_ty fine.record) (by decide) (by decide)

theorem readDecl_chars (fine : decl.Fine) :
    readDecl (decl.name.toList ++ ':' :: ' ' :: decl.ty.chars) = .ok decl := by
  have token := token_of_isIdent fine.ident
  have type : trim (' ' :: decl.ty.chars) = decl.ty.chars := by
    have front : ∀ c ∈ [' '], Text.isBlank c = true := List.forall_mem_singleton.mpr (by decide)
    exact (Text.trim_append front).trans (Text.trim_eq_self (content_ty fine.record).tight)
  have word : keywords.contains decl.name = false := by
    rw [Bool.eq_false_iff, ne_eq, List.contains_iff_mem]
    exact fine.word
  unfold readDecl
  rw [Text.splitFirst?_append_cons (token.notMem (by decide))]
  dsimp only
  rw [Text.trim_eq_self token.content.tight, fine.ident, String.ofList_toList, word, type, readType_chars fine.record]
  rfl

theorem fine_of_readDecl (read : readDecl cs = .ok decl) : decl.Fine := by
  unfold readDecl at read
  split at read
  · cases read
  · rename_i name type _
    dsimp only at read
    split at read
    · cases read
    split at read
    · cases read
    rename_i ident word
    obtain ⟨ty, found, same⟩ := bind_eq_ok.mp read
    cases same
    refine ⟨?_, ?_, record_of_readType found⟩
    · rw [String.toList_ofList]
      simpa using ident
    · simpa using word

/-- What follows a word in a line says something, since the line does not end in a blank. -/
theorem content_trim_of_after? {word : String} {rest : List Char} (content : Content cs)
    (starts : after? word cs = some rest) (blank : word.toList.getLast?.all Text.isBlank = true) :
    Content (trim rest) := by
  have same := Text.after?_eq_some_iff.mp starts
  have inside : trim rest ⊆ cs := fun c mem => same ▸ List.mem_append_right _ (Text.mem_of_mem_trim mem)
  have last : ∃ c ∈ rest, Text.isBlank c = false := by
    obtain ⟨c, last⟩ := Option.isSome_iff_exists.mp (List.getLast?_isSome.mpr content.some)
    have solid := content.tight.last c last
    refine ⟨c, ?_, solid⟩
    by_cases none : rest = []
    · rw [same, none, List.append_nil] at last
      rw [Option.mem_def.mp last, Option.all_some, solid] at blank
      cases blank
    · rw [same, List.getLast?_append_of_ne_nil _ none] at last
      exact List.mem_of_mem_getLast? last
  obtain ⟨c, mem, solid⟩ := last
  exact ⟨content.toOneLine.of_subset inside, List.ne_nil_of_mem (Text.mem_trim mem solid), Text.tight_trim rest⟩

/-- A header as a reader accepts it. -/
structure Header.Fine (header : Header) : Prop where
  name : Content header.name.toList
  scope : Scope.Fine (.ofList header.vars)

namespace Header

theorem fine_default : Fine {} where
  name := content_of_isPlain (by decide : isPlain "anonymous".toList = true)
  scope := ⟨fun _ mem => absurd mem List.not_mem_nil, List.nodup_nil⟩

theorem Fine.addLine {next : Header} (fine : header.Fine) (content : Content cs) (read : header.addLine cs = .ok next) :
    next.Fine := by
  unfold Header.addLine at read
  split at read
  · rename_i name starts
    cases read
    refine ⟨?_, fine.scope⟩
    rw [String.toList_ofList]
    exact content_trim_of_after? content starts (by decide)
  split at read
  · rename_i text starts
    obtain ⟨decl, found, read⟩ := bind_eq_ok.mp read
    split at read
    · cases read
    · rename_i new
      cases read
      have good := fine_of_readDecl found
      refine ⟨fine.name, fun other mem => ?_, ?_⟩
      · obtain old | last := List.mem_append.mp mem
        · exact fine.scope.decls other old
        · cases List.mem_singleton.mp last
          exact good
      · rw [Table.toList_ofList, List.map_append, List.nodup_append]
        refine ⟨fine.scope.distinct, List.pairwise_singleton _ _, fun name old last final same => new ?_⟩
        cases List.mem_singleton.mp final
        obtain ⟨other, mem, rfl⟩ := List.mem_map.mp old
        exact List.any_eq_true.mpr ⟨other, mem, beq_iff_eq.mpr same⟩
  · cases read

theorem fine_of_foldLines {top : List Line} (contents : ∀ line ∈ top, Content line.chars)
    (read : foldLines addLine {} top = .ok header) : header.Fine := by
  refine foldlM_induct fine_default (fun a b cs mem fine found => ?_) (foldLines_eq_ok.mp read)
  obtain ⟨line, inside, rfl⟩ := List.mem_map.mp mem
  exact fine.addLine (contents line inside) found

theorem foldlM_decls {name : String} {seen : List VarDecl} (fine : Scope.Fine (.ofList (seen ++ vars))) :
    (vars.map VarDecl.chars).foldlM addLine ⟨name, seen⟩ = .ok ⟨name, seen ++ vars⟩ := by
  induction vars generalizing seen with
  | nil =>
    rw [List.append_nil]
    rfl
  | cons decl vars ih =>
    have good : decl.Fine := fine.decls decl (List.mem_append_right seen List.mem_cons_self)
    have new : seen.any (fun other => other.name == decl.name) = false := by
      rw [List.any_eq_false]
      intro other mem same
      have distinct := fine.distinct
      rw [Table.toList_ofList, List.map_append, List.nodup_append] at distinct
      exact distinct.2.2 _ (List.mem_map_of_mem mem) _ List.mem_cons_self (beq_iff_eq.mp same)
    have first : addLine ⟨name, seen⟩ decl.chars = .ok ⟨name, seen ++ [decl]⟩ := by
      have line : decl.chars = "var ".toList ++ (decl.name.toList ++ ':' :: ' ' :: decl.ty.chars) :=
        List.append_assoc "var ".toList decl.name.toList (':' :: ' ' :: decl.ty.chars)
      have noName : after? "function " decl.chars = none := rfl
      have isDecl : after? "var " decl.chars = some (decl.name.toList ++ ':' :: ' ' :: decl.ty.chars) := by
        rw [line, Text.after?_append]
      unfold addLine
      rw [noName, isDecl]
      dsimp only
      rw [readDecl_chars good]
      simp only [bind, Except.bind, new]
      rfl
    rw [List.map_cons, List.foldlM_cons, first]
    have rest := @ih (seen ++ [decl]) (by rwa [List.append_assoc, List.singleton_append])
    rwa [List.append_assoc, List.singleton_append] at rest

/-- What a header is printed as is read as the header. -/
theorem foldLines_chars (fine : header.Fine) {top : List Line}
    (printed : top.map Line.chars = ("function ".toList ++ header.name.toList) :: header.vars.map VarDecl.chars) :
    foldLines addLine {} top = .ok header := by
  rw [foldLines_eq_ok, printed, List.foldlM_cons]
  have first : addLine {} ("function ".toList ++ header.name.toList) = .ok ⟨header.name, []⟩ := by
    unfold addLine
    rw [Text.after?_append]
    dsimp only
    rw [Text.trim_eq_self fine.name.tight, String.ofList_toList]
  rw [first]
  exact @foldlM_decls _ _ [] fine.scope

end Header

end ForwardFlow
