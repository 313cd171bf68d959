import Mathlib.Order.Bounds.Basic
import ForwardFlow.Lattice.Basic

namespace ForwardFlow

/-- Values that count as equal are equal. -/
class LawfulEquals (L : Type) [JoinLattice L] : Prop where
  equals_iff {a b : L} : JoinLattice.equals a b = true ↔ a = b

/-- A join reports a change where it makes one, and only there. -/
class LawfulEffect (L : Type) [JoinLattice L] : Prop where
  effect_eq_changed_iff {a b : L} : JoinLattice.effect a b = .changed ↔ JoinLattice.join a b ≠ a

/-- A join is the least upper bound in a partial order of the values. -/
class LawfulJoin (L : Type) [JoinLattice L] [PartialOrder L] : Prop where
  isLUB_join (a b : L) : IsLUB {a, b} (JoinLattice.join a b)

section

variable {L : Type} [JoinLattice L] [PartialOrder L] [LawfulJoin L] {a b c : L}

theorem le_join_left (a b : L) : a ≤ JoinLattice.join a b := (LawfulJoin.isLUB_join a b).1 (Set.mem_insert a {b})

theorem le_join_right (a b : L) : b ≤ JoinLattice.join a b :=
  (LawfulJoin.isLUB_join a b).1 (Set.mem_insert_of_mem a (Set.mem_singleton b))

theorem join_le (left : a ≤ c) (right : b ≤ c) : JoinLattice.join a b ≤ c := by
  refine (LawfulJoin.isLUB_join a b).2 fun d mem => ?_
  rcases mem with rfl | rfl
  · exact left
  · exact right

theorem le_iff_join_eq : a ≤ b ↔ JoinLattice.join a b = b := by
  constructor
  · intro le
    exact le_antisymm (join_le le le_rfl) (le_join_right a b)
  · intro same
    exact same ▸ le_join_left a b

theorem join_comm (a b : L) : JoinLattice.join a b = JoinLattice.join b a :=
  le_antisymm (join_le (le_join_right b a) (le_join_left b a)) (join_le (le_join_right a b) (le_join_left a b))

theorem join_self (a : L) : JoinLattice.join a a = a := le_iff_join_eq.mp le_rfl

theorem join_assoc (a b c : L) :
    JoinLattice.join (JoinLattice.join a b) c = JoinLattice.join a (JoinLattice.join b c) := by
  have left : b ≤ JoinLattice.join a (JoinLattice.join b c) := (le_join_left b c).trans (le_join_right a _)
  have right : b ≤ JoinLattice.join (JoinLattice.join a b) c := (le_join_right a b).trans (le_join_left _ c)
  exact le_antisymm
    (join_le (join_le (le_join_left a _) left) ((le_join_right b c).trans (le_join_right a _)))
    (join_le ((le_join_left a b).trans (le_join_left _ c)) (join_le right (le_join_right _ c)))

end

end ForwardFlow
