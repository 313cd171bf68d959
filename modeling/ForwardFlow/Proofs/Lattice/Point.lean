import ForwardFlow.Lattice.Point
import ForwardFlow.Proofs.Lattice.Lawful

namespace ForwardFlow

instance : PartialOrder OnePoint where
  le _ _ := True
  le_refl _ := trivial
  le_trans _ _ _ _ _ := trivial
  le_antisymm _ _ _ _ := rfl

instance : LawfulJoin OnePoint where
  isLUB_join _ _ := ⟨fun _ _ => trivial, fun _ _ => trivial⟩

instance : LawfulEffect OnePoint where
  effect_eq_changed_iff {s t} := by cases s; cases t; decide

namespace TwoPoint

instance : PartialOrder TwoPoint where
  le s t := s = .bottom ∨ t = .top
  le_refl s := by
    cases s with
    | bottom => exact Or.inl rfl
    | top => exact Or.inr rfl
  le_trans s t u one two := by
    obtain rfl | rfl := one
    · exact Or.inl rfl
    · obtain low | rfl := two
      · cases low
      · exact Or.inr rfl
  le_antisymm s t one two := by
    obtain rfl | rfl := one
    · obtain rfl | low := two
      · rfl
      · cases low
    · obtain low | rfl := two
      · cases low
      · rfl

theorem bottom_le (s : TwoPoint) : .bottom ≤ s := Or.inl rfl

theorem le_top (s : TwoPoint) : s ≤ .top := Or.inr rfl

instance : LawfulJoin TwoPoint where
  isLUB_join s t := by
    cases s with
    | bottom =>
      constructor
      · rintro u (rfl | rfl)
        · exact bottom_le t
        · exact le_rfl
      · exact fun u upper => upper (Set.mem_insert_of_mem _ (Set.mem_singleton t))
    | top => exact ⟨fun u _ => le_top u, fun u upper => upper (Set.mem_insert _ _)⟩

instance : LawfulEffect TwoPoint where
  effect_eq_changed_iff {s t} := by cases s <;> cases t <;> decide

end TwoPoint

end ForwardFlow
