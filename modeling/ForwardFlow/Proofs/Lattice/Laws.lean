import ForwardFlow.Lattice.Shape
import ForwardFlow.Proofs.Lattice.Effect
import ForwardFlow.Proofs.Lattice.Point

namespace ForwardFlow

namespace JoinLattice

/-- A value lies below another one if the two join to the other one. -/
def Below {L : Type} [JoinLattice L] (a b : L) : Prop := join a b = b

/-- What an analysis may expect of its lattice. A join does not depend on how it is put together, and is the least upper
bound in the order it gives. It reports a change if and only if there is one, so it reports none if and only if the
receiver has covered the argument before. -/
structure Laws (L : Type) [JoinLattice L] : Prop where
  comm (a b : L) : join a b = join b a
  assoc (a b c : L) : join (join a b) c = join a (join b c)
  idem (a : L) : join a a = a
  order : IsPartialOrder L Below
  left_below (a b : L) : Below a (join a b)
  right_below (a b : L) : Below b (join a b)
  join_below {a b c : L} : Below a c → Below b c → Below (join a b) c
  changed_iff {a b : L} : effect a b = .changed ↔ join a b ≠ a
  unchanged_iff {a b : L} : effect a b = .unchanged ↔ Below b a

namespace Laws

variable {L : Type} [JoinLattice L]

theorem of_lawful [PartialOrder L] [LawfulJoin L] [LawfulEffect L] : Laws L where
  comm := join_comm
  assoc := join_assoc
  idem := join_self
  order := {
    refl := join_self
    trans a b c one two := le_iff_join_eq.mp ((le_iff_join_eq.mpr one).trans (le_iff_join_eq.mpr two))
    antisymm a b one two := le_antisymm (le_iff_join_eq.mpr one) (le_iff_join_eq.mpr two) }
  left_below a b := le_iff_join_eq.mp (le_join_left a b)
  right_below a b := le_iff_join_eq.mp (le_join_right a b)
  join_below left right := le_iff_join_eq.mp (join_le (le_iff_join_eq.mpr left) (le_iff_join_eq.mpr right))
  changed_iff := LawfulEffect.effect_eq_changed_iff
  unchanged_iff {a b} := by
    rw [Below, join_comm b a, ← not_iff_not, ← ne_eq, ← ne_eq, ← LawfulEffect.effect_eq_changed_iff]
    cases effect a b <;> simp

/-- The order the laws speak of, for a lattice that obeys them. -/
@[reducible] def partialOrder (laws : Laws L) : PartialOrder L where
  le := Below
  le_refl := laws.order.refl
  le_trans := laws.order.trans
  le_antisymm := laws.order.antisymm

theorem lawfulJoin (laws : Laws L) : @LawfulJoin L _ laws.partialOrder := by
  let order := laws.partialOrder
  refine ⟨fun a b => ⟨?_, fun c upper => ?_⟩⟩
  · rintro c (rfl | rfl)
    · exact laws.left_below c b
    · exact laws.right_below a c
  · exact laws.join_below (upper (Set.mem_insert a {b})) (upper (Set.mem_insert_of_mem a (Set.mem_singleton b)))

theorem pointwise {κ : Type} [Ord κ] [Std.TransOrd κ] [Std.LawfulEqOrd κ] [DecidableEq L] (laws : Laws L) :
    Laws (Pointwise κ L) := by
  let order := laws.partialOrder
  have := laws.lawfulJoin
  have : LawfulEffect L := ⟨laws.changed_iff⟩
  exact of_lawful

/-- Maps may be nested as deep as one likes. -/
theorem carrier : (s : Shape) → Laws s.Carrier
  | .onePoint => of_lawful (L := OnePoint)
  | .twoPoint => of_lawful (L := TwoPoint)
  | .flat k => of_lawful (L := Flat k.Key)
  | .may k => of_lawful (L := MaySet k.Key)
  | .must k => of_lawful (L := MustSet k.Key)
  | .map k s => (carrier s).pointwise (κ := k.Key)

end Laws

/-- All lattices of the library obey the laws: the small ones, the flat ones, the sets, the maps to any lattice that
obeys them itself, and so every lattice that can be chosen at run time. -/
theorem lattices_obey_laws :
    Laws OnePoint ∧ Laws TwoPoint ∧
    (∀ (α : Type) [DecidableEq α], Laws (Flat α)) ∧
    (∀ (α : Type) [Ord α] [Std.TransOrd α] [Std.LawfulEqOrd α], Laws (MaySet α) ∧ Laws (MustSet α)) ∧
    (∀ (κ L : Type) [Ord κ] [Std.TransOrd κ] [Std.LawfulEqOrd κ] [DecidableEq L] [JoinLattice L],
      Laws L → Laws (Pointwise κ L)) ∧
    ∀ s : Shape, Laws s.Carrier := by
  refine ⟨.of_lawful, .of_lawful, fun α _ => .of_lawful, fun α _ _ _ => ⟨.of_lawful, .of_lawful⟩, ?_, .carrier⟩
  intro κ L _ _ _ _ _ laws
  exact laws.pointwise

/-- A key bound to bottom is more than a missing one, also inside a map of maps. -/
theorem lattices_obey_laws_nested :
    let inner : Pointwise Var TwoPoint := ∅
    let small : Pointwise Var (Pointwise Var TwoPoint) := Pointwise.empty.insert (.slot 0) inner
    let large : Pointwise Var (Pointwise Var TwoPoint) :=
      Pointwise.empty.insert (.slot 0) (inner.insert (.slot 1) .bottom)
    Laws TwoPoint ∧ effect small large = .changed ∧ Below small large ∧ ¬Below large small := by
  intro inner small large
  obtain ⟨_, two, _, _, maps, _⟩ := lattices_obey_laws
  have laws : Laws (Pointwise Var (Pointwise Var TwoPoint)) := maps Var _ (maps Var TwoPoint two)
  have grows : effect small large = .changed := laws.changed_iff.mpr (by decide +kernel)
  have covered : effect large small = .unchanged := by decide +kernel
  refine ⟨two, grows, laws.unchanged_iff.mp covered, fun below => ?_⟩
  rw [laws.unchanged_iff.mpr below] at grows
  cases grows

end JoinLattice

end ForwardFlow
