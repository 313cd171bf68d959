import ForwardFlow.Lattice.MustSet
import ForwardFlow.Proofs.Lattice.Lawful

namespace ForwardFlow.MustSet

variable {α : Type} [Ord α] [Std.TransOrd α] [Std.LawfulEqOrd α] {s t : MustSet α} {a b : α}

theorem ext_mem (same : ∀ a, a ∈ s.elems ↔ a ∈ t.elems) : s = t := by
  cases s
  cases t
  exact congrArg _ (Std.ExtTreeSet.ext_mem same)

omit [Std.LawfulEqOrd α] in
theorem mem_join : a ∈ (s.join t).elems ↔ a ∈ s.elems ∧ a ∈ t.elems := Std.ExtTreeSet.mem_inter_iff

theorem mem_insert : b ∈ (s.insert a).elems ↔ a = b ∨ b ∈ s.elems := by
  rw [insert, Std.ExtTreeSet.mem_insert, Std.LawfulEqOrd.compare_eq_iff_eq]

theorem mem_erase : b ∈ (s.erase a).elems ↔ a ≠ b ∧ b ∈ s.elems := by
  rw [erase, Std.ExtTreeSet.mem_erase, ne_eq, ne_eq, Std.LawfulEqOrd.compare_eq_iff_eq]

/-- The more must hold, the lower a set lies. -/
instance : PartialOrder (MustSet α) where
  le s t := ∀ a ∈ t.elems, a ∈ s.elems
  le_refl _ _ mem := mem
  le_trans _ _ _ one two a mem := one a (two a mem)
  le_antisymm _ _ one two := ext_mem fun a => ⟨two a, one a⟩

instance : LawfulJoin (MustSet α) where
  isLUB_join s t := by
    constructor
    · rintro u (rfl | rfl)
      · exact fun a mem => (mem_join.mp mem).1
      · exact fun a mem => (mem_join.mp mem).2
    · intro u upper a mem
      have left : s ≤ u := upper (Set.mem_insert s {t})
      have right : t ≤ u := upper (Set.mem_insert_of_mem s (Set.mem_singleton t))
      exact mem_join.mpr ⟨left a mem, right a mem⟩

instance : LawfulEquals (MustSet α) where
  equals_iff := decide_eq_true_iff

end ForwardFlow.MustSet
