import ForwardFlow.Lattice.Flat
import ForwardFlow.Proofs.Lattice.Lawful

namespace ForwardFlow.Flat

variable {α : Type} {a b : α} {s t : Flat α}

/-- A certain value is possible: it is the one, or there is more than one. -/
def Allows (s : Flat α) (a : α) : Prop := s = .value a ∨ s = .top

theorem ofOption_allows {o : Option α} (only : ∀ b, o = some b → b = a) : (ofOption o).Allows a := by
  cases o with
  | none => exact Or.inr rfl
  | some b => exact Or.inl (congrArg value (only b rfl))

/-- Bottom lies below all values and top above them. Two different values are not comparable. -/
instance : PartialOrder (Flat α) where
  le s t := s = .bottom ∨ t = .top ∨ s = t
  le_refl _ := Or.inr (Or.inr rfl)
  le_trans s t u one two := by
    obtain rfl | rfl | rfl := one
    · exact Or.inl rfl
    · obtain low | rfl | rfl := two
      · cases low
      · exact Or.inr (Or.inl rfl)
      · exact Or.inr (Or.inl rfl)
    · exact two
  le_antisymm s t one two := by
    obtain rfl | rfl | rfl := one
    · obtain rfl | low | rfl := two
      · rfl
      · cases low
      · rfl
    · obtain low | rfl | rfl := two
      · cases low
      · rfl
      · rfl
    · rfl

theorem bottom_le (s : Flat α) : .bottom ≤ s := Or.inl rfl

theorem le_top (s : Flat α) : s ≤ .top := Or.inr (Or.inl rfl)

/-- How high a value stands, above the place of a value that is missing. -/
def level : Flat α → Nat
  | .bottom => 1
  | .value _ => 2
  | .top => 3

theorem level_pos (s : Flat α) : 0 < s.level := by cases s <;> exact Nat.succ_pos _

theorem level_le_three (s : Flat α) : s.level ≤ 3 := by cases s <;> simp [level]

theorem level_mono (le : s ≤ t) : s.level ≤ t.level := by
  obtain rfl | rfl | rfl := le
  · exact t.level_pos
  · exact s.level_le_three
  · exact le_rfl

theorem level_lt_level (below : s < t) : s.level < t.level := by
  obtain rfl | rfl | rfl := below.le
  · cases t with
    | bottom => exact absurd below (lt_irrefl _)
    | _ => simp [level]
  · cases s with
    | top => exact absurd below (lt_irrefl _)
    | _ => simp [level]
  · exact absurd below (lt_irrefl _)

variable [DecidableEq α]

theorem join_value_value (a b : α) : (value a).join (value b) = if a = b then .value a else .top := rfl

theorem left_le_join (s t : Flat α) : s ≤ s.join t := by
  cases s with
  | bottom => exact bottom_le _
  | top => cases t <;> exact le_rfl
  | value a =>
    cases t with
    | bottom => exact le_rfl
    | top => exact le_top _
    | value b =>
      rw [join_value_value]
      split
      · exact le_rfl
      · exact le_top _

theorem right_le_join (s t : Flat α) : t ≤ s.join t := by
  cases t with
  | bottom => exact bottom_le _
  | top => cases s <;> exact le_top _
  | value b =>
    cases s with
    | bottom => exact le_rfl
    | top => exact le_top _
    | value a =>
      rw [join_value_value]
      split
      · rename_i same
        rw [same]
      · exact le_top _

instance : LawfulJoin (Flat α) where
  isLUB_join s t := by
    constructor
    · rintro u (rfl | rfl)
      · exact left_le_join u t
      · exact right_le_join s u
    · intro u upper
      have left : s ≤ u := upper (Set.mem_insert s {t})
      have right : t ≤ u := upper (Set.mem_insert_of_mem s (Set.mem_singleton t))
      -- Below a value there is nothing but that value and bottom, and two of them join to one of them.
      obtain rfl | rfl | rfl := left
      · cases t <;> exact right
      · exact le_top _
      · obtain rfl | rfl | rfl := right
        · exact le_rfl
        · exact le_top _
        · cases t with
          | value a => exact le_of_eq (if_pos rfl)
          | _ => exact le_rfl

theorem Allows.join_left (allows : s.Allows a) : (s.join t).Allows a := by
  obtain rfl | rfl := allows
  · cases t with
    | bottom => exact Or.inl rfl
    | top => exact Or.inr rfl
    | value b =>
      rw [join_value_value]
      split
      · exact Or.inl rfl
      · exact Or.inr rfl
  · cases t <;> exact Or.inr rfl

theorem Allows.join_right (allows : t.Allows a) : (s.join t).Allows a := by
  obtain rfl | rfl := allows
  · cases s with
    | bottom => exact Or.inl rfl
    | top => exact Or.inr rfl
    | value b =>
      rw [join_value_value]
      split
      · rename_i same
        exact Or.inl (congrArg value same)
      · exact Or.inr rfl
  · cases s <;> exact Or.inr rfl

end ForwardFlow.Flat
