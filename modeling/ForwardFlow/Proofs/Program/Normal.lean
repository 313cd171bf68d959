import Mathlib.Data.List.SplitBy
import ForwardFlow.Proofs.Program.Token

namespace ForwardFlow.Text

/-- The marks that end a word, as blanks do. -/
def isMark (c : Char) : Bool := c == '(' || c == ')' || c == ',' || c == '!'

def isBreak (c : Char) : Bool := isBlank c || isMark c

/-- The blanks and marks of a text, each for itself, and the words between them. -/
def pieces (cs : List Char) : List (List Char) := cs.splitBy fun c d => !isBreak c && !isBreak d

def normalPiece (piece : List Char) : List Char :=
  match readWord? piece with
  | some n => renderWord n
  | none => piece.filter (!isBlank ·)

/-- A text without its blanks, in which the integers are written canonically. -/
def normal (cs : List Char) : List Char := (pieces cs).flatMap normalPiece

example : normal "x =  call f( +7,-0 )".toList = "x=callf(7,0)".toList := by decide +kernel

variable {cs ds front back : List Char} {c d mark : Char} {n : Int64}

theorem isBreak_of_isBlank (blank : isBlank c = true) : isBreak c = true := by rw [isBreak, blank, Bool.true_or]

theorem isBreak_of_isMark (mark : isMark c = true) : isBreak c = true := by rw [isBreak, mark, Bool.or_true]

theorem not_isBlank_of_isMark (mark : isMark c = true) : isBlank c = false := by
  simp only [isMark, Bool.or_eq_true, beq_iff_eq] at mark
  obtain ((rfl | rfl) | rfl) | rfl := mark <;> decide

theorem not_isMark_of_isTokenChar (token : isTokenChar c = true) : isMark c = false := by
  rw [Bool.eq_false_iff]
  intro mark
  simp only [isMark, Bool.or_eq_true, beq_iff_eq] at mark
  obtain ((rfl | rfl) | rfl) | rfl := mark <;> exact absurd token (by decide)

theorem not_isBreak_of_isTokenChar (token : isTokenChar c = true) : isBreak c = false := by
  rw [isBreak, isBlank_of_isTokenChar token, not_isMark_of_isTokenChar token, Bool.or_self]

section Words

theorem not_isBreak_of_readNat? {n : Nat} (read : readNat? cs = some n) (mem : c ∈ cs) : isBreak c = false := by
  unfold readNat? at read
  split at read
  · cases read
  · rename_i digits
    simp only [Bool.or_eq_true, Bool.not_eq_true', not_or, Bool.not_eq_false, List.all_eq_true] at digits
    exact not_isBreak_of_isTokenChar (by simp [isTokenChar, Char.isAlphanum, digits.2 c mem])

theorem not_isBreak_of_readWord? (read : readWord? cs = some n) (mem : c ∈ cs) : isBreak c = false := by
  obtain ⟨value, read, _⟩ := Option.bind_eq_some_iff.mp read
  have signed {sign : Char} {digits : List Char} (quiet : isBreak sign = false)
      (read : ∃ n, readNat? digits = some n) (mem : c ∈ sign :: digits) : isBreak c = false := by
    obtain rfl | later := List.mem_cons.mp mem
    · exact quiet
    · obtain ⟨_, read⟩ := read
      exact not_isBreak_of_readNat? read later
  unfold readInt? at read
  split at read
  · obtain ⟨n, read, _⟩ := Option.map_eq_some_iff.mp read
    exact signed (by decide) ⟨n, read⟩ mem
  · obtain ⟨n, read, _⟩ := Option.map_eq_some_iff.mp read
    exact signed (by decide) ⟨n, read⟩ mem
  · obtain ⟨n, read, _⟩ := Option.map_eq_some_iff.mp read
    exact not_isBreak_of_readNat? read mem

theorem not_isBreak_of_mem_renderWord (mem : c ∈ renderWord n) : isBreak c = false :=
  not_isBreak_of_isTokenChar ((token_renderWord n).chars c mem)

theorem normalPiece_of_readWord? (read : readWord? cs = some n) : normalPiece cs = renderWord n := by
  rw [normalPiece, read]

theorem readWord?_of_isBreak (breaks : isBreak c = true) (mem : c ∈ cs) : readWord? cs = none := by
  refine Option.eq_none_iff_forall_ne_some.mpr fun n read => ?_
  rw [not_isBreak_of_readWord? read mem] at breaks
  cases breaks

theorem count_normalPiece (marked : isMark mark = true) (piece : List Char) :
    (normalPiece piece).count mark = piece.count mark := by
  unfold normalPiece
  split
  · rename_i read
    have unmarked {cs : List Char} (unbroken : ∀ c ∈ cs, isBreak c = false) : cs.count mark = 0 := by
      refine List.count_eq_zero.mpr fun mem => ?_
      have breaks := isBreak_of_isMark marked
      rw [unbroken mark mem] at breaks
      cases breaks
    rw [unmarked fun c => not_isBreak_of_mem_renderWord, unmarked fun c => not_isBreak_of_readWord? read]
  · exact List.count_filter (by rw [not_isBlank_of_isMark marked, Bool.not_false])

theorem blank_of_normalPiece_eq_nil (nothing : normalPiece cs = []) : ∀ c ∈ cs, isBlank c = true := by
  unfold normalPiece at nothing
  split at nothing
  · exact absurd nothing (token_renderWord _).some
  · simpa using nothing

end Words

/-- A text is in two parts where a blank or a mark stands at the border. -/
theorem normal_append (apart : ∀ c ∈ cs.getLast?, ∀ d ∈ ds.head?, isBreak c = true ∨ isBreak d = true) :
    normal (cs ++ ds) = normal cs ++ normal ds := by
  have split : pieces (cs ++ ds) = pieces cs ++ pieces ds := List.splitBy_append fun c last d head => by
    obtain ends | starts := apart c last d head
    · rw [ends, Bool.not_true, Bool.false_and]
    · rw [starts, Bool.not_true, Bool.and_false]
  rw [normal, split, List.flatMap_append, normal, normal]

theorem normal_singleton (breaks : isBreak c = true) : normal [c] = [c].filter (!isBlank ·) := by
  rw [normal, pieces, List.splitBy_of_isChain (List.cons_ne_nil c []) (List.isChain_singleton c),
    List.flatMap_singleton, normalPiece, readWord?_of_isBreak breaks List.mem_cons_self]

theorem normal_append_cons (breaks : isBreak d = true) :
    normal (cs ++ d :: ds) = normal cs ++ ([d].filter (!isBlank ·) ++ normal ds) := by
  rw [normal_append, ← List.singleton_append, normal_append, normal_singleton breaks]
  · intro c last e _
    cases last
    exact .inl breaks
  · intro c _ e head
    cases head
    exact .inr breaks

theorem normal_append_blank (blank : isBlank d = true) : normal (cs ++ d :: ds) = normal cs ++ normal ds := by
  rw [normal_append_cons (isBreak_of_isBlank blank)]
  simp [blank]

theorem normal_append_mark (mark : isMark d = true) : normal (cs ++ d :: ds) = normal cs ++ d :: normal ds := by
  rw [normal_append_cons (isBreak_of_isMark mark)]
  simp [not_isBlank_of_isMark mark]

theorem normal_cons_mark (mark : isMark d = true) : normal (d :: ds) = d :: normal ds :=
  (normal_append_mark mark : normal ([] ++ d :: ds) = _)

theorem normal_append_left (ends : front.getLast?.any isBreak = true) :
    normal (front ++ cs) = normal front ++ normal cs := by
  refine normal_append fun c last _ _ => .inl ?_
  rwa [Option.mem_def.mp last] at ends

@[simp] theorem normal_nil : normal [] = [] := rfl

theorem normal_blank_append (blank : ∀ c ∈ front, isBlank c = true) : normal (front ++ cs) = normal cs := by
  induction front with
  | nil => rfl
  | cons c front ih =>
    have here : normal ([] ++ c :: (front ++ cs)) = _ := normal_append_blank (blank c List.mem_cons_self)
    rw [List.cons_append]
    exact here.trans (ih fun d mem => blank d (List.mem_cons_of_mem c mem))

theorem normal_of_blank (blank : ∀ c ∈ cs, isBlank c = true) : normal cs = [] := by
  rw [← List.append_nil cs, normal_blank_append blank, normal_nil]

theorem normal_trim (cs : List Char) : normal (trim cs) = normal cs := by
  obtain ⟨front, back, same, blankFront, blankBack⟩ := exists_trim cs
  have apart : normal (trim cs ++ back) = normal (trim cs) ++ normal back := normal_append fun c _ d head =>
    .inr (isBreak_of_isBlank (blankBack d (List.mem_of_mem_head? head)))
  conv_rhs => rw [same]
  rw [normal_blank_append blankFront, apart, normal_of_blank blankBack, List.append_nil]

theorem normal_of_unbroken (some : cs ≠ []) (unbroken : ∀ c ∈ cs, isBreak c = false) : normal cs = normalPiece cs := by
  have chain : cs.IsChain fun c d => (!isBreak c && !isBreak d) = true := by
    refine (List.pairwise_of_forall_mem_list fun c inside d mem => ?_).isChain
    rw [unbroken c inside, unbroken d mem]
    rfl
  rw [normal, pieces, List.splitBy_of_isChain some chain, List.flatMap_singleton]

theorem normal_of_readWord? (read : readWord? cs = some n) : normal cs = renderWord n := by
  have some : cs ≠ [] := by
    rintro rfl
    cases read
  rw [normal_of_unbroken some fun c => not_isBreak_of_readWord? read, normalPiece_of_readWord? read]

theorem flatMap_normal_words (cs : List Char) : (words cs).flatMap normal = normal cs := by
  have single {word : List Char} (unbroken : ∀ c ∈ word, isBlank c = false) :
      (words word).flatMap normal = normal word := by
    by_cases some : word = []
    · subst some
      rfl
    · rw [words_eq_singleton some unbroken, List.flatMap_singleton]
  -- The word that is being read grows to the right until a blank ends it.
  have later {word : List Char} (unbroken : ∀ c ∈ word, isBlank c = false) (cs : List Char) :
      (words (word ++ cs)).flatMap normal = normal (word ++ cs) := by
    induction cs generalizing word with
    | nil => rw [List.append_nil, single unbroken]
    | cons c cs ih =>
      by_cases blank : isBlank c = true
      · have rest : (words ([] ++ cs)).flatMap normal = normal cs := ih fun _ mem => absurd mem List.not_mem_nil
        rw [words_append_blank blank, List.flatMap_append, single unbroken, normal_append_blank blank, ← rest,
          List.nil_append]
      · rw [← List.singleton_append, ← List.append_assoc]
        refine ih fun d mem => ?_
        obtain before | here := List.mem_append.mp mem
        · exact unbroken d before
        · exact List.mem_singleton.mp here ▸ Bool.eq_false_iff.mpr blank
  have unbroken : ∀ c ∈ ([] : List Char), isBlank c = false := fun _ mem => absurd mem List.not_mem_nil
  exact later unbroken cs

theorem normal_intercalate (blank : ∀ c ∈ back, isBlank c = true) (parts : List (List Char)) :
    normal ((',' :: back).intercalate parts) = [','].intercalate (parts.map normal) := by
  induction parts with
  | nil => rfl
  | cons part parts ih =>
    cases parts with
    | nil => simp
    | cons next parts =>
      rw [List.intercalate_cons_cons, List.append_assoc, List.cons_append, normal_append_mark (by decide),
        normal_blank_append blank, ih, List.map_cons, List.map_cons, List.map_cons, List.intercalate_cons_cons,
        List.append_assoc, List.singleton_append]

theorem count_normal (marked : isMark mark = true) (cs : List Char) : (normal cs).count mark = cs.count mark := by
  have whole : (pieces cs).flatten = cs := List.flatten_splitBy _ cs
  conv_rhs => rw [← whole, List.count_flatten]
  rw [normal, List.count_flatMap]
  exact congrArg List.sum (List.map_congr_left fun piece _ => count_normalPiece marked piece)

theorem mem_of_mem_normal (marked : isMark mark = true) (mem : mark ∈ normal cs) : mark ∈ cs := by
  rwa [← List.count_pos_iff, ← count_normal marked, List.count_pos_iff]

theorem count_eq_of_normal_eq (marked : isMark mark = true) (same : normal cs = normal ds) :
    cs.count mark = ds.count mark := by
  rw [← count_normal marked, same, count_normal marked]

theorem count_trim (marked : isMark mark = true) (cs : List Char) : (trim cs).count mark = cs.count mark :=
  count_eq_of_normal_eq marked (normal_trim cs)

theorem blank_of_normal_eq_nil (nothing : normal cs = []) : ∀ c ∈ cs, isBlank c = true := by
  intro c mem
  have whole : (pieces cs).flatten = cs := List.flatten_splitBy _ cs
  rw [← whole] at mem
  obtain ⟨piece, inside, mem⟩ := List.mem_flatten.mp mem
  exact blank_of_normalPiece_eq_nil (List.flatMap_eq_nil_iff.mp nothing piece inside) c mem

end ForwardFlow.Text
