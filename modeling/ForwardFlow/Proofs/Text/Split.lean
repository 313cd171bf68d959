import Mathlib.Data.List.Basic
import Mathlib.Data.List.TakeWhile
import ForwardFlow.Text.Split

namespace ForwardFlow.Text

variable {word : String} {sep cs ds before after : List Char} {mark c : Char}

theorem after?_eq_some_iff : after? word cs = some after ↔ cs = word.toList ++ after := by
  rw [after?, List.isPrefixOf?_eq_some_iff_append_eq, eq_comm]

theorem after?_append : after? word (word.toList ++ after) = some after := after?_eq_some_iff.mpr rfl

theorem after?_eq_none_of_notMem (inside : c ∈ word.toList) (outside : c ∉ cs) : after? word cs = none := by
  refine Option.eq_none_iff_forall_ne_some.mpr fun rest found => outside ?_
  rw [after?_eq_some_iff.mp found]
  exact List.mem_append_left rest inside

/-- Texts that start with different words are different. -/
theorem eq_of_append_cons_eq (left : mark ∉ cs) (right : mark ∉ ds)
    (same : cs ++ mark :: before = ds ++ mark :: after) : cs = ds := by
  have first := congrArg (List.takeWhile (· != mark)) same
  have stop {cs rest : List Char} (outside : mark ∉ cs) : (cs ++ mark :: rest).takeWhile (· != mark) = cs := by
    rw [List.takeWhile_append_of_pos, List.takeWhile_cons_of_neg, List.append_nil]
    · simp
    · intro c mem
      exact bne_iff_ne.mpr (ne_of_mem_of_not_mem mem outside)
  rwa [stop left, stop right] at first

theorem splitFirst?_append (outside : mark ∉ before) :
    splitFirst? (mark :: sep) (before ++ mark :: sep ++ after) = some (before, after) := by
  induction before with
  | nil =>
    have found : (mark :: sep).isPrefixOf? (mark :: (sep ++ after)) = some after :=
      List.isPrefixOf?_eq_some_iff_append_eq.mpr rfl
    simp only [List.nil_append, List.cons_append, splitFirst?, found]
  | cons c before ih =>
    obtain ⟨other, outside⟩ := not_or.mp (List.mem_cons.not.mp outside)
    have missing : (mark :: sep).isPrefixOf? (c :: (before ++ mark :: (sep ++ after))) = none := by
      simp [List.isPrefixOf?, other]
    have rest := ih outside
    simp only [List.cons_append, List.append_assoc] at rest ⊢
    simp only [splitFirst?, missing, rest, Option.map_some]

theorem splitFirst?_append_cons (outside : mark ∉ before) :
    splitFirst? [mark] (before ++ mark :: after) = some (before, after) := by
  have split := @splitFirst?_append [] before after mark outside
  rwa [List.append_assoc, List.singleton_append] at split

theorem splitFirst?_eq_some (found : splitFirst? sep cs = some (before, after)) : cs = before ++ sep ++ after := by
  induction cs generalizing before with
  | nil => cases found
  | cons c cs ih =>
    unfold splitFirst? at found
    split at found
    · rename_i rest here
      cases found
      exact (List.isPrefixOf?_eq_some_iff_append_eq.mp here).symm
    · obtain ⟨⟨before', _⟩, later, same⟩ := Option.map_eq_some_iff.mp found
      cases same
      rw [ih later]
      rfl

theorem notMem_of_splitFirst? (found : splitFirst? [mark] cs = some (before, after)) : mark ∉ before := by
  induction cs generalizing before with
  | nil => cases found
  | cons c cs ih =>
    unfold splitFirst? at found
    split at found
    · cases found
      exact List.not_mem_nil
    · rename_i missing
      obtain ⟨⟨before', _⟩, later, same⟩ := Option.map_eq_some_iff.mp found
      cases same
      have other : mark ≠ c := by
        rintro rfl
        simp [List.isPrefixOf?] at missing
      exact fun mem => (List.mem_cons.mp mem).elim other (ih later)

theorem beforeLast?_snoc (mark : Char) (cs : List Char) : beforeLast? mark (cs ++ [mark]) = some cs := by
  simp [beforeLast?]

theorem exists_of_beforeLast? (found : beforeLast? mark cs = some before) :
    ∃ rest, cs = before ++ mark :: rest ∧ mark ∉ rest := by
  have whole := List.takeWhile_append_dropWhile (p := (· != mark)) (l := cs.reverse)
  unfold beforeLast? at found
  split at found
  · cases found
  · rename_i c front here
    cases found
    have first := List.head?_dropWhile_not (· != mark) cs.reverse
    rw [here] at whole first
    cases bne_eq_false_iff_eq.mp first
    refine ⟨(cs.reverse.takeWhile (· != mark)).reverse, ?_, fun mem => ?_⟩
    · refine (List.reverse_eq_iff.mp whole.symm).trans ?_
      rw [List.reverse_append, List.reverse_cons, List.append_assoc, List.singleton_append]
    · exact absurd (List.mem_takeWhile_imp (List.mem_reverse.mp mem)) (by simp)

theorem dropEnd?_eq_some_iff : dropEnd? mark cs = some before ↔ cs = before ++ [mark] := by
  rw [dropEnd?, Option.ite_none_right_eq_some, Option.some.injEq]
  constructor
  · rintro ⟨last, rfl⟩
    exact (List.dropLast_append_getLast? mark last).symm
  · rintro rfl
    exact ⟨List.getLast?_concat, List.dropLast_concat⟩

/-- The parts of a text do not hold the mark it is split at, and nothing that the text does not hold. -/
theorem mem_splitOn {part : List Char} (mem : part ∈ cs.splitOn mark) : mark ∉ part ∧ ∀ c ∈ part, c ∈ cs := by
  induction cs generalizing part with
  | nil =>
    rw [List.splitOn_nil, List.mem_singleton] at mem
    subst mem
    exact ⟨List.not_mem_nil, fun _ inside => inside⟩
  | cons c cs ih =>
    rw [List.splitOn_cons_eq_if_modifyHead] at mem
    split at mem
    · obtain rfl | later := List.mem_cons.mp mem
      · exact ⟨List.not_mem_nil, fun _ inside => absurd inside List.not_mem_nil⟩
      · exact ⟨(ih later).1, fun d inside => List.mem_cons_of_mem c ((ih later).2 d inside)⟩
    · rename_i other
      match parts : cs.splitOn mark with
      | [] =>
        rw [parts] at mem
        cases mem
      | first :: rest =>
        rw [parts, List.modifyHead_cons] at mem
        obtain rfl | later := List.mem_cons.mp mem
        · obtain ⟨outside, inside⟩ := @ih first (parts ▸ List.mem_cons_self)
          refine ⟨fun mem => (List.mem_cons.mp mem).elim (fun same => other (beq_iff_eq.mpr same.symm)) outside, ?_⟩
          intro d mem
          exact (List.mem_cons.mp mem).elim (fun same => same ▸ List.mem_cons_self)
            fun mem => List.mem_cons_of_mem c (inside d mem)
        · obtain ⟨outside, inside⟩ := @ih part (parts ▸ List.mem_cons_of_mem first later)
          exact ⟨outside, fun d mem => List.mem_cons_of_mem c (inside d mem)⟩

end ForwardFlow.Text
