import Mathlib.Data.List.Basic
import Mathlib.Data.List.TakeWhile
import ForwardFlow.Text.Blank

namespace ForwardFlow.Text

/-- A text with no blank at either end. -/
structure Tight (cs : List Char) : Prop where
  first : ∀ c ∈ cs.head?, isBlank c = false
  last : ∀ c ∈ cs.getLast?, isBlank c = false

variable {cs ds : List Char} {c : Char}

theorem Tight.of_forall (unbroken : ∀ c ∈ cs, isBlank c = false) : Tight cs where
  first c head := unbroken c (List.mem_of_mem_head? head)
  last c last := unbroken c (List.mem_of_mem_getLast? last)

theorem dropWhile_isBlank_eq_self (first : ∀ c ∈ cs.head?, isBlank c = false) : cs.dropWhile isBlank = cs := by
  cases cs with
  | nil => rfl
  | cons c cs => exact List.dropWhile_cons_of_neg (by simp [first c rfl])

theorem head?_dropWhile_isBlank : ∀ c ∈ (cs.dropWhile isBlank).head?, isBlank c = false := by
  intro c head
  have first := List.head?_dropWhile_not isBlank cs
  rw [Option.mem_def.mp head] at first
  exact first

theorem trim_eq_self (tight : Tight cs) : trim cs = cs := by
  have last : ∀ c ∈ cs.reverse.head?, isBlank c = false := List.head?_reverse ▸ tight.last
  rw [trim, trimStart, dropWhile_isBlank_eq_self tight.first, trimEnd, dropWhile_isBlank_eq_self last,
    List.reverse_reverse]

theorem trimEnd_isPrefix (cs : List Char) : trimEnd cs <+: cs :=
  List.reverse_suffix.mp (by rw [trimEnd, List.reverse_reverse]; exact List.dropWhile_suffix isBlank)

theorem tight_trim (cs : List Char) : Tight (trim cs) where
  first c head := by
    obtain ⟨rest, same⟩ := trimEnd_isPrefix (trimStart cs)
    refine @head?_dropWhile_isBlank cs c ?_
    rw [← trimStart, ← same, ← trim]
    cases trimmed : trim cs with
    | nil =>
      rw [trimmed] at head
      cases head
    | cons d ds =>
      rw [trimmed] at head
      exact head
  last c last := by
    rw [trim, trimEnd, List.getLast?_reverse] at last
    exact head?_dropWhile_isBlank c last

theorem mem_of_mem_trim (mem : c ∈ trim cs) : c ∈ cs :=
  (List.dropWhile_suffix isBlank).subset ((trimEnd_isPrefix _).subset mem)

theorem mem_dropWhile_isBlank (mem : c ∈ cs) (solid : isBlank c = false) : c ∈ cs.dropWhile isBlank := by
  rw [← List.takeWhile_append_dropWhile (p := isBlank) (l := cs), List.mem_append] at mem
  refine mem.resolve_left fun early => ?_
  rw [List.mem_takeWhile_imp early] at solid
  cases solid

theorem mem_trim (mem : c ∈ cs) (solid : isBlank c = false) : c ∈ trim cs := by
  rw [trim, trimEnd, List.mem_reverse]
  exact mem_dropWhile_isBlank (List.mem_reverse.mpr (mem_dropWhile_isBlank mem solid)) solid

theorem trim_append (blank : ∀ c ∈ ds, isBlank c = true) : trim (ds ++ cs) = trim cs := by
  rw [trim, trimStart, List.dropWhile_append_of_pos blank]
  rfl

/-- A text is what is left of it, with blanks on either side. -/
theorem exists_trim (cs : List Char) : ∃ front back, cs = front ++ (trim cs ++ back) ∧
    (∀ c ∈ front, isBlank c = true) ∧ ∀ c ∈ back, isBlank c = true := by
  refine ⟨cs.takeWhile isBlank, ((trimStart cs).reverse.takeWhile isBlank).reverse, ?_,
    fun c mem => List.mem_takeWhile_imp mem, fun c mem => List.mem_takeWhile_imp (List.mem_reverse.mp mem)⟩
  rw [trim, trimEnd, ← List.reverse_append, List.takeWhile_append_dropWhile, List.reverse_reverse, trimStart,
    List.takeWhile_append_dropWhile]

/-- The end of a text with no blanks there is not trimmed. -/
theorem Tight.getLast?_append (tight : Tight (cs ++ ds)) (some : trim ds ≠ []) :
    (cs ++ ds).getLast? = (trim ds).getLast? := by
  obtain ⟨front, back, same, _, blank⟩ := exists_trim ds
  obtain none | ⟨begun, c, shape⟩ := List.eq_nil_or_concat back
  · rw [none, List.append_nil] at same
    have whole : cs ++ ds = (cs ++ front) ++ trim ds := by rw [List.append_assoc, ← same]
    rw [whole]
    exact List.getLast?_append_of_ne_nil _ some
  · have last : c ∈ (cs ++ ds).getLast? := by
      rw [same, shape]
      simp [List.getLast?_append]
    have solid := tight.last c last
    rw [blank c (by simp [shape])] at solid
    cases solid

theorem words_append_blank (blank : isBlank c = true) : words (cs ++ c :: ds) = words cs ++ words ds := by
  rw [words, List.splitOnP_append_cons cs ds blank, List.filter_append, words, words]

theorem words_eq_singleton (some : cs ≠ []) (unbroken : ∀ c ∈ cs, isBlank c = false) : words cs = [cs] := by
  rw [words, List.splitOnP_eq_singleton unbroken]
  simp [some]

theorem words_append_cons (some : cs ≠ []) (unbroken : ∀ c ∈ cs, isBlank c = false) (blank : isBlank c = true) :
    words (cs ++ c :: ds) = cs :: words ds := by
  rw [words_append_blank blank, words_eq_singleton some unbroken, List.singleton_append]

end ForwardFlow.Text
