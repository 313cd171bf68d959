import Mathlib.Tactic.Tauto
import ForwardFlow.Program.Printer
import ForwardFlow.Program.Reader
import ForwardFlow.Proofs.Program.Line

namespace ForwardFlow

open Text (isBlank readWord? renderWord)

/-- The characters of names and of operands. -/
def isTokenChar (c : Char) : Bool := c.isAlphanum || c == '_' || c == '.' || c == '-'

theorem toNat_of_isAlpha {c : Char} (alpha : c.isAlpha = true) : 65 ≤ c.toNat ∧ c.toNat ≤ 122 := by
  obtain upper | lower := Bool.or_eq_true_iff.mp alpha
  · obtain ⟨low, high⟩ : 'A'.val ≤ c.val ∧ c.val ≤ 'Z'.val := of_decide_eq_true upper
    rw [UInt32.le_iff_toNat_le] at low high
    exact ⟨low, Nat.le_trans high (by decide)⟩
  · obtain ⟨low, high⟩ := Bool.and_eq_true_iff.mp lower
    have low : 'a'.val ≤ c.val := of_decide_eq_true low
    have high : c.val ≤ 'z'.val := of_decide_eq_true high
    rw [UInt32.le_iff_toNat_le] at low high
    exact ⟨Nat.le_trans (by decide) low, high⟩

theorem toNat_of_isDigit {c : Char} (digit : c.isDigit = true) : 48 ≤ c.toNat ∧ c.toNat ≤ 57 := by
  simp only [Char.isDigit, Bool.and_eq_true, decide_eq_true_eq, ge_iff_le, UInt32.le_iff_toNat_le] at digit
  exact digit

theorem isBlank_of_isTokenChar {c : Char} (token : isTokenChar c = true) : isBlank c = false := by
  simp only [isTokenChar, Char.isAlphanum, Bool.or_eq_true, beq_iff_eq] at token
  obtain (((alpha | digit) | rfl) | rfl) | rfl := token
  · have code := toNat_of_isAlpha alpha
    simp only [isBlank, Text.blankRanges, List.any_cons, List.any_nil, Bool.or_false, Bool.or_eq_false_iff,
      Bool.and_eq_false_iff, decide_eq_false_iff_not]
    omega
  · have code := toNat_of_isDigit digit
    simp only [isBlank, Text.blankRanges, List.any_cons, List.any_nil, Bool.or_false, Bool.or_eq_false_iff,
      Bool.and_eq_false_iff, decide_eq_false_iff_not]
    omega
  · decide
  · decide
  · decide

/-- A word that holds nothing but characters of names and of operands. -/
structure Token (cs : List Char) : Prop where
  some : cs ≠ []
  chars : ∀ c ∈ cs, isTokenChar c = true

variable {cs : List Char} {c : Char} {scope : Scope} {v : Var} {o : Operand}

theorem Token.unbroken (token : Token cs) : ∀ c ∈ cs, isBlank c = false :=
  fun c mem => isBlank_of_isTokenChar (token.chars c mem)

theorem Token.notMem (token : Token cs) (other : isTokenChar c = false) : c ∉ cs := by
  intro mem
  rw [token.chars c mem] at other
  cases other

theorem Token.content (token : Token cs) : Content cs where
  some := token.some
  tight := .of_forall token.unbroken
  noHash := token.notMem (by decide)
  noBreak := token.notMem (by decide)

theorem token_of_isIdent (ident : isIdent cs = true) : Token cs := by
  cases cs with
  | nil => cases ident
  | cons c cs =>
    simp only [isIdent, Bool.and_eq_true, Bool.or_eq_true, List.all_eq_true] at ident
    refine ⟨List.cons_ne_nil c cs, fun d mem => ?_⟩
    simp only [isTokenChar, Char.isAlphanum, Bool.or_eq_true] at ident ⊢
    obtain rfl | later := List.mem_cons.mp mem
    · tauto
    · have := ident.2 d later
      tauto

/-- No label has a space in it. -/
theorem ne_label_of_space {name : List Char} (space : ' ' ∈ cs) (ident : isIdent name = true) : cs ≠ name ++ [':'] := by
  rintro rfl
  rw [List.mem_append, List.mem_singleton] at space
  exact space.elim ((token_of_isIdent ident).notMem (by decide)) (by decide)

/-- A name is no number: it starts with neither a digit nor a sign. -/
theorem readWord?_of_isIdent (ident : isIdent cs = true) : readWord? cs = none := by
  cases cs with
  | nil => cases ident
  | cons c cs =>
    simp only [isIdent, Bool.and_eq_true] at ident
    have noMinus : c ≠ '-' := by
      rintro rfl
      exact absurd ident.1 (by decide)
    have noPlus : c ≠ '+' := by
      rintro rfl
      exact absurd ident.1 (by decide)
    have noDigit : c.isDigit = false := by
      rw [Bool.eq_false_iff]
      intro digit
      have code := toNat_of_isDigit digit
      obtain alpha | mark := Bool.or_eq_true_iff.mp ident.1
      · have code' := toNat_of_isAlpha alpha
        omega
      · rw [beq_iff_eq.mp mark] at digit
        exact absurd digit (by decide)
    simp [readWord?, Text.readInt?, noMinus, noPlus, Text.readNat?, noDigit]

theorem token_renderWord (w : Int64) : Token (renderWord w) := by
  have digits (n : Nat) : Token (Text.renderNat n) := by
    refine ⟨Nat.toDigits_ne_nil, fun c mem => ?_⟩
    have digit : c.isDigit = true := Nat.isDigit_of_mem_toDigits (by decide) (by decide) mem
    simp [isTokenChar, Char.isAlphanum, digit]
  unfold renderWord Text.renderInt
  split
  · exact digits _
  · rename_i n _
    refine ⟨List.cons_ne_nil _ _, fun c mem => ?_⟩
    obtain rfl | later := List.mem_cons.mp mem
    · decide
    · exact (digits (n + 1)).chars c later

/-- A declaration as a reader accepts it: names are names, and no keyword names a variable. -/
structure VarDecl.Fine (decl : VarDecl) : Prop where
  ident : isIdent decl.name.toList = true
  word : decl.name ∉ keywords
  record : ∀ name, decl.ty = .record name → isIdent name.toList = true

/-- No name is declared twice. -/
structure Scope.Fine (scope : Scope) : Prop where
  decls : ∀ decl ∈ scope.toList, decl.Fine
  distinct : (scope.toList.map VarDecl.name).Nodup

namespace Scope

theorem Fine.nameOf (fine : scope.Fine) (inside : scope.contains v = true) :
    isIdent (scope.nameOf v).toList = true ∧ scope.nameOf v ∉ keywords := by
  rw [Table.contains_eq_isSome_get?, Option.isSome_iff_exists] at inside
  obtain ⟨decl, found⟩ := inside
  rw [Scope.nameOf, found]
  have mem : decl ∈ scope.toList := by
    cases v with
    | slot n => exact List.mem_of_getElem? (scope.get?_slot n ▸ found)
    | invalid => cases found
  exact ⟨(fine.decls decl mem).ident, (fine.decls decl mem).word⟩

/-- The name of a variable leads back to the variable. -/
theorem Fine.lookup? (fine : scope.Fine) (inside : scope.contains v = true) :
    scope.lookup? (scope.nameOf v) = some v := by
  rw [Table.contains_eq_isSome_get?, Option.isSome_iff_exists] at inside
  obtain ⟨decl, found⟩ := inside
  cases v with
  | invalid => cases found
  | slot n =>
    rw [Scope.nameOf, found, Scope.lookup?, Table.find?, Option.map_eq_some_iff]
    rw [Table.get?_slot] at found
    obtain ⟨short, here⟩ := List.getElem?_eq_some_iff.mp found
    refine ⟨n, List.findIdx?_eq_some_iff_getElem.mpr ⟨short, by simp [here], fun m before same => ?_⟩, rfl⟩
    have differ := List.pairwise_iff_getElem.mp (List.pairwise_map.mp fine.distinct) m n (Nat.lt_trans before short)
      short before
    rw [here] at differ
    exact differ (beq_iff_eq.mp same)

theorem contains_of_lookup? {name : String} (found : scope.lookup? name = some v) : scope.contains v = true := by
  obtain ⟨n, first, rfl⟩ := Option.map_eq_some_iff.mp found
  obtain ⟨short, _⟩ := List.findIdx?_eq_some_iff_getElem.mp first
  exact decide_eq_true short

end Scope

/-- An operand with a variable in it has a declared one. -/
def Operand.InScope (scope : Scope) (o : Operand) : Prop := ∀ v ∈ o.var?, scope.contains v = true

theorem readVar_nameOf (fine : scope.Fine) (inside : scope.contains v = true) :
    readVar scope (scope.nameOf v).toList = .ok v := by
  rw [readVar, String.ofList_toList, fine.lookup? inside]

theorem contains_of_readVar (found : readVar scope cs = .ok v) : scope.contains v = true := by
  unfold readVar at found
  split at found
  · rename_i w known
    cases found
    exact Scope.contains_of_lookup? known
  · cases found

theorem token_operand (fine : scope.Fine) (inside : o.InScope scope) : Token (o.chars scope) := by
  cases o with
  | var v => exact token_of_isIdent (fine.nameOf (inside v rfl)).1
  | lit literal =>
    cases literal with
    | int n => exact token_renderWord n
    | bool b =>
      cases b with
      | false => exact token_of_isIdent (by decide : isIdent "false".toList = true)
      | true => exact token_of_isIdent (by decide : isIdent "true".toList = true)

theorem readLiteral?_chars (literal : Literal) : readLiteral? literal.chars = some literal := by
  cases literal with
  | bool b => cases b <;> decide
  | int n =>
    have read : readWord? (renderWord n) = some n := Text.readWord?_renderWord n
    have noWord (word : String) (unread : readWord? word.toList = none) : renderWord n ≠ word.toList := by
      intro same
      rw [same, unread] at read
      cases read
    show readLiteral? (renderWord n) = _
    rw [readLiteral?, if_neg (noWord "true" (by decide)), if_neg (noWord "false" (by decide)), read]
    rfl

theorem readLiteral?_nameOf (fine : scope.Fine) (inside : scope.contains v = true) :
    readLiteral? (scope.nameOf v).toList = none := by
  obtain ⟨ident, word⟩ := fine.nameOf inside
  have other (keyword : String) (mem : keyword ∈ keywords) : (scope.nameOf v).toList ≠ keyword.toList :=
    fun same => word (String.toList_inj.mp same ▸ mem)
  rw [readLiteral?, if_neg (other "true" (by decide)), if_neg (other "false" (by decide)), readWord?_of_isIdent ident]
  rfl

theorem readOperand_chars (fine : scope.Fine) (inside : o.InScope scope) :
    readOperand scope (o.chars scope) = .ok o := by
  cases o with
  | lit literal => simp only [readOperand, Operand.chars, readLiteral?_chars]
  | var v =>
    rw [readOperand, Operand.chars, readLiteral?_nameOf fine (inside v rfl)]
    simp only [readVar_nameOf fine (inside v rfl), Except.map]

theorem inScope_of_readOperand (read : readOperand scope cs = .ok o) : o.InScope scope := by
  unfold readOperand at read
  split at read
  · cases read
    intro v mem
    cases mem
  · cases found : readVar scope cs with
    | error e =>
      rw [found] at read
      cases read
    | ok w =>
      rw [found] at read
      cases read
      intro v mem
      cases mem
      exact contains_of_readVar found

/-- No operand is written like a keyword, other than the two truth values. -/
theorem operand_ne_keyword (fine : scope.Fine) (inside : o.InScope scope) (keyword : String) (mem : keyword ∈ keywords)
    (unread : readLiteral? keyword.toList = none) : o.chars scope ≠ keyword.toList := by
  intro same
  cases o with
  | lit literal =>
    rw [← same, Operand.chars, readLiteral?_chars] at unread
    cases unread
  | var v => exact (fine.nameOf (inside v rfl)).2 (String.toList_inj.mp same ▸ mem)

end ForwardFlow
