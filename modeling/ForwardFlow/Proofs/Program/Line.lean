import Mathlib.Data.List.TakeWhile
import ForwardFlow.Program.Line
import ForwardFlow.Proofs.Text.Blank
import ForwardFlow.Proofs.Text.Split

namespace ForwardFlow

open Text (isBlank trim)

/-- Text that neither leaves its line nor starts a comment. -/
structure OneLine (cs : List Char) : Prop where
  noHash : '#' ∉ cs
  noBreak : '\n' ∉ cs

theorem OneLine.of_subset {cs ds : List Char} (line : OneLine cs) (inside : ds ⊆ cs) : OneLine ds where
  noHash mem := line.noHash (inside mem)
  noBreak mem := line.noBreak (inside mem)

/-- What a line of source text can say: something, with no comment, no break and no blank at either end. -/
structure Content (cs : List Char) : Prop extends OneLine cs where
  some : cs ≠ []
  tight : Text.Tight cs

/-- A word without blanks in which no comment starts. -/
def isPlain (cs : List Char) : Bool := !cs.isEmpty && cs.all fun c => !isBlank c && c != '#'

section

variable {cs : List Char}

theorem isPlain_iff : isPlain cs = true ↔ cs ≠ [] ∧ ∀ c ∈ cs, isBlank c = false ∧ c ≠ '#' := by
  simp [isPlain]

theorem unbroken_of_isPlain (plain : isPlain cs = true) : ∀ c ∈ cs, isBlank c = false :=
  fun c mem => ((isPlain_iff.mp plain).2 c mem).1

theorem content_of_isPlain (plain : isPlain cs = true) : Content cs where
  some := (isPlain_iff.mp plain).1
  tight := .of_forall (unbroken_of_isPlain plain)
  noHash mem := ((isPlain_iff.mp plain).2 _ mem).2 rfl
  noBreak mem := absurd (unbroken_of_isPlain plain _ mem) (by decide)

end

namespace Line

variable {line : Line} {label : String} {c : Char} {cs ds text : List Char}

theorem strip_eq_self (content : Content cs) : strip cs = cs := by
  have all : cs.takeWhile (· != '#') = cs :=
    List.takeWhile_eq_self_iff.mpr fun c mem => bne_iff_ne.mpr (ne_of_mem_of_not_mem mem content.noHash)
  rw [strip, all, Text.trim_eq_self content.tight]

theorem strip_cons (blank : isBlank c = true) : strip (c :: cs) = strip cs := by
  have other : c ≠ '#' := by
    rintro rfl
    exact absurd blank (by decide)
  have front : ∀ d ∈ [c], isBlank d = true := by
    intro d mem
    cases List.mem_singleton.mp mem
    exact blank
  rw [strip, List.takeWhile_cons_of_pos (by simpa using other), ← List.singleton_append, Text.trim_append front, strip]

theorem content_strip (mem : cs ∈ text.splitOn '\n') (some : strip cs ≠ []) : Content (strip cs) where
  some := some
  tight := Text.tight_trim _
  noHash inside := by
    exact absurd (List.mem_takeWhile_imp (Text.mem_of_mem_trim inside)) (by decide)
  noBreak inside := (Text.mem_splitOn mem).1 ((List.takeWhile_prefix _).subset (Text.mem_of_mem_trim inside))

/-- What the lines of a text say, without their numbers. -/
def contents (text : List Char) : List (List Char) := ((text.splitOn '\n').map strip).filter (!·.isEmpty)

theorem map_chars_ofText (text : List Char) : (ofText text).map Line.chars = contents text := by
  unfold ofText contents
  generalize (text.splitOn '\n').map strip = raw
  generalize 1 = number
  induction raw generalizing number with
  | nil => rfl
  | cons cs raw ih =>
    rw [List.zipIdx_cons, List.filterMap_cons, List.filter_cons]
    cases cs with
    | nil => exact ih (number + 1)
    | cons c cs => exact congrArg ((c :: cs) :: ·) (ih (number + 1))

theorem content_of_mem_ofText (mem : line ∈ ofText text) : Content line.chars := by
  have inside : line.chars ∈ contents text := map_chars_ofText text ▸ List.mem_map_of_mem mem
  obtain ⟨stripped, some⟩ := List.mem_filter.mp inside
  obtain ⟨raw, part, same⟩ := List.mem_map.mp stripped
  rw [← same] at some ⊢
  exact content_strip part (by simpa using some)

theorem contents_nil : contents [] = [] := by decide

theorem contents_append_break (cs ds : List Char) : contents (cs ++ '\n' :: ds) = contents cs ++ contents ds := by
  have parts : (cs ++ '\n' :: ds).splitOn '\n' = cs.splitOn '\n' ++ ds.splitOn '\n' :=
    List.splitOnP_append_cons cs ds (by decide)
  rw [contents, parts, List.map_append, List.filter_append, contents, contents]

theorem contents_cons (blank : isBlank c = true) : contents (c :: cs) = contents cs := by
  by_cases newline : c = '\n'
  · subst newline
    exact contents_append_break [] cs
  · obtain ⟨first, rest, parts⟩ := List.exists_cons_of_ne_nil (List.splitOnP_ne_nil (· == '\n') cs)
    have split : cs.splitOn '\n' = first :: rest := parts
    have split' : (c :: cs).splitOn '\n' = (c :: first) :: rest := by
      rw [List.splitOn_cons_eq_if_modifyHead, if_neg (by simpa using newline), split, List.modifyHead_cons]
    rw [contents, contents, split, split', List.map_cons, List.map_cons, strip_cons blank]

theorem contents_append (blank : ∀ c ∈ cs, isBlank c = true) : contents (cs ++ ds) = contents ds := by
  induction cs with
  | nil => rfl
  | cons c cs ih =>
    rw [List.cons_append, contents_cons (blank c List.mem_cons_self)]
    exact ih fun d mem => blank d (List.mem_cons_of_mem c mem)

theorem contents_eq_singleton (content : Content cs) : contents cs = [cs] := by
  rw [contents, List.splitOn_eq_singleton content.noBreak, List.map_singleton, strip_eq_self content]
  simp [content.some]

/-- Whatever blanks stand before the lines of a text, the text says what the lines say. -/
theorem contents_flatMap {lines : List (List Char × List Char)} (blank : ∀ l ∈ lines, ∀ c ∈ l.1, isBlank c = true)
    (content : ∀ l ∈ lines, Content l.2) :
    contents (lines.flatMap fun l => l.1 ++ l.2 ++ ['\n']) = lines.map Prod.snd := by
  induction lines with
  | nil => exact contents_nil
  | cons l lines ih =>
    have rest := ih (fun l mem => blank l (List.mem_cons_of_mem _ mem))
      fun l mem => content l (List.mem_cons_of_mem _ mem)
    rw [List.flatMap_cons, List.append_assoc, List.singleton_append, contents_append_break,
      contents_append (blank l List.mem_cons_self), contents_eq_singleton (content l List.mem_cons_self), rest]
    rfl

theorem label?_eq_some_iff :
    line.label? = some label ↔ line.chars = label.toList ++ [':'] ∧ isIdent label.toList = true := by
  unfold label?
  constructor
  · intro found
    split at found
    · rename_i name ends
      rw [Option.ite_none_right_eq_some, Option.some.injEq] at found
      obtain ⟨ident, rfl⟩ := found
      rw [String.toList_ofList]
      exact ⟨Text.dropEnd?_eq_some_iff.mp ends, ident⟩
    · cases found
  · rintro ⟨same, ident⟩
    simp only [Text.dropEnd?_eq_some_iff.mpr same, ident, if_true, String.ofList_toList]

theorem label?_eq_none (other : ∀ name, isIdent name = true → line.chars ≠ name ++ [':']) : line.label? = none := by
  refine Option.eq_none_iff_forall_ne_some.mpr fun label found => ?_
  obtain ⟨same, ident⟩ := label?_eq_some_iff.mp found
  exact other label.toList ident same

end Line

section

variable {line : Line} {label : String} {top rest lines : List Line}

theorem sections_cons_label (named : line.label? = some label) :
    sections (line :: rest) = ([], ⟨line.number, label, (sections rest).1⟩ :: (sections rest).2) := by
  simp only [sections, named]

theorem sections_append (unnamed : ∀ line ∈ top, line.label? = none) :
    sections (top ++ rest) = (top ++ (sections rest).1, (sections rest).2) := by
  induction top with
  | nil => rfl
  | cons line top ih =>
    have later := ih fun line mem => unnamed line (List.mem_cons_of_mem _ mem)
    simp only [List.cons_append, sections, later, unnamed line List.mem_cons_self]

theorem sections_cons_of_none (unnamed : line.label? = none) :
    sections (line :: rest) = (line :: (sections rest).1, (sections rest).2) := by
  simp only [sections, unnamed]

/-- There is a section for each line that is a label. -/
theorem map_label_sections (lines : List Line) :
    (sections lines).2.map Section.label = lines.filterMap Line.label? := by
  induction lines with
  | nil => rfl
  | cons line rest ih =>
    cases named : line.label? with
    | none => rw [sections_cons_of_none named, List.filterMap_cons_none named, ← ih]
    | some label => rw [sections_cons_label named, List.filterMap_cons_some named, ← ih, List.map_cons]

/-- The sections are made of the lines there are, and their labels are names. -/
theorem mem_sections : (∀ line ∈ (sections lines).1, line ∈ lines) ∧
    ∀ part ∈ (sections lines).2, isIdent part.label.toList = true ∧ ∀ line ∈ part.content, line ∈ lines := by
  induction lines with
  | nil => simp [sections]
  | cons line rest ih =>
    obtain ⟨top, parts⟩ := ih
    have parts' (part : Section) (mem : part ∈ (sections rest).2) :
        isIdent part.label.toList = true ∧ ∀ l ∈ part.content, l ∈ line :: rest :=
      ⟨(parts part mem).1, fun l inside => List.mem_cons_of_mem line ((parts part mem).2 l inside)⟩
    cases named : line.label? with
    | none =>
      rw [sections_cons_of_none named]
      refine ⟨fun l mem => ?_, parts'⟩
      obtain rfl | later := List.mem_cons.mp mem
      · exact List.mem_cons_self
      · exact List.mem_cons_of_mem line (top l later)
    | some label =>
      rw [sections_cons_label named]
      refine ⟨fun l mem => absurd mem List.not_mem_nil, fun part mem => ?_⟩
      obtain rfl | later := List.mem_cons.mp mem
      · exact ⟨(Line.label?_eq_some_iff.mp named).2, fun l inside => List.mem_cons_of_mem line (top l inside)⟩
      · exact parts' part later

end

end ForwardFlow
