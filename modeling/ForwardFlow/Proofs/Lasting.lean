import Mathlib.Data.List.Induction

namespace ForwardFlow

variable {α : Type} {a d : α} {l before after front back : List α}

/-- What stands in a list that ends with a further element is that element, or stood in the list without it. -/
theorem snoc_eq_append_cons_iff :
    l ++ [d] = before ++ a :: after ↔
      l = before ∧ d = a ∧ after = [] ∨ ∃ rest, after = rest ++ [d] ∧ l = before ++ a :: rest := by
  constructor
  · intro same
    obtain rfl | ⟨rest, last, rfl⟩ := List.eq_nil_or_concat after
    · obtain ⟨rfl, one⟩ := List.append_inj' same rfl
      exact .inl ⟨rfl, (List.cons.inj one).1, rfl⟩
    · rw [List.concat_eq_append, ← List.cons_append, ← List.append_assoc] at same
      obtain ⟨rfl, one⟩ := List.append_inj' same rfl
      cases one
      exact .inr ⟨rest, List.concat_eq_append, rfl⟩
  · rintro (⟨rfl, rfl, rfl⟩ | ⟨rest, rfl, rfl⟩)
    · rfl
    · simp

/-- Something in a list brings a thing about, and what ends it does not come after that. -/
def Lasting (brings : α → Prop) (ends : α) (l : List α) : Prop :=
  ∃ before a after, l = before ++ a :: after ∧ brings a ∧ ends ∉ after

variable {brings : α → Prop} {ends : α}

theorem not_lasting_nil : ¬Lasting brings ends [] := by
  rintro ⟨before, a, after, same, _⟩
  simp at same

theorem lasting_snoc : Lasting brings ends (l ++ [d]) ↔ brings d ∨ Lasting brings ends l ∧ ends ≠ d := by
  constructor
  · rintro ⟨before, a, after, same, begun, kept⟩
    obtain ⟨-, rfl, -⟩ | ⟨rest, rfl, rfl⟩ := snoc_eq_append_cons_iff.mp same
    · exact .inl begun
    · simp only [List.mem_append, List.mem_singleton, not_or] at kept
      exact .inr ⟨⟨before, a, rest, rfl, begun, kept.1⟩, kept.2⟩
  · rintro (begun | ⟨⟨before, a, after, rfl, begun, kept⟩, other⟩)
    · exact ⟨l, d, [], rfl, begun, List.not_mem_nil⟩
    · refine ⟨before, a, after ++ [d], by simp, begun, ?_⟩
      simp only [List.mem_append, List.mem_singleton, not_or]
      exact ⟨kept, other⟩

theorem lasting_append :
    Lasting brings ends (front ++ back) ↔
      Lasting brings ends back ∨ Lasting brings ends front ∧ ends ∉ back := by
  induction back using List.reverseRecOn with
  | nil => simp [not_lasting_nil]
  | append_singleton back d ih =>
    rw [← List.append_assoc, lasting_snoc, ih, lasting_snoc, List.mem_append, List.mem_singleton]
    tauto

theorem Lasting.exists_mem (lasting : Lasting brings ends l) : ∃ a ∈ l, brings a := by
  obtain ⟨before, a, after, rfl, begun, _⟩ := lasting
  exact ⟨a, List.mem_append_right _ List.mem_cons_self, begun⟩

end ForwardFlow
