import ForwardFlow.Lattice.MaySet
import ForwardFlow.Proofs.Lattice.Lawful

namespace ForwardFlow.MaySet

variable {α : Type} [Ord α] [Std.TransOrd α] [Std.LawfulEqOrd α] {s t : MaySet α} {a : α}

theorem ext_mem (same : ∀ a, a ∈ s.elems ↔ a ∈ t.elems) : s = t := by
  cases s
  cases t
  exact congrArg _ (Std.ExtTreeSet.ext_mem same)

omit [Std.LawfulEqOrd α] in
theorem mem_join : a ∈ (s.join t).elems ↔ a ∈ s.elems ∨ a ∈ t.elems := Std.ExtTreeSet.mem_union_iff

/-- The less may hold, the lower a set lies. -/
instance : PartialOrder (MaySet α) where
  le s t := ∀ a ∈ s.elems, a ∈ t.elems
  le_refl _ _ mem := mem
  le_trans _ _ _ one two a mem := two a (one a mem)
  le_antisymm _ _ one two := ext_mem fun a => ⟨one a, two a⟩

instance : LawfulJoin (MaySet α) where
  isLUB_join s t := by
    constructor
    · rintro u (rfl | rfl)
      · exact fun a mem => mem_join.mpr (Or.inl mem)
      · exact fun a mem => mem_join.mpr (Or.inr mem)
    · intro u upper a mem
      have left : s ≤ u := upper (Set.mem_insert s {t})
      have right : t ≤ u := upper (Set.mem_insert_of_mem s (Set.mem_singleton t))
      exact (mem_join.mp mem).elim (left a) (right a)

end ForwardFlow.MaySet
