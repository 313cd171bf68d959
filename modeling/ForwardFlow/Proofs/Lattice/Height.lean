import Mathlib.Order.KrullDimension

namespace ForwardFlow

variable {L : Type} [PartialOrder L] {P : L → Prop} {h : Nat}

/-- Values with a property can rise at most so many times: no strictly ascending chain of them has more steps. -/
def HeightAtMost (P : L → Prop) (h : Nat) : Prop := ∀ chain : LTSeries {a // P a}, chain.length ≤ h

/-- The heights of the values with a property, where they are bounded. -/
theorem HeightAtMost.exists_rank (height : HeightAtMost P h) :
    ∃ rank : L → Nat, (∀ a, P a → rank a ≤ h) ∧ ∀ a b, P a → P b → a < b → rank a < rank b := by
  classical
  have bounded (a : {a // P a}) : Order.height a ≤ h := Order.height_le fun chain _ => Nat.cast_le.mpr (height chain)
  have finite (a : {a // P a}) : Order.height a < ⊤ := (bounded a).trans_lt (ENat.natCast_lt_top h)
  refine ⟨fun a => if has : P a then (Order.height (⟨a, has⟩ : {a // P a})).toNat else 0, ?_, ?_⟩
  · intro a has
    dsimp only
    rw [dif_pos has]
    exact ENat.toNat_le_of_le_natCast (bounded ⟨a, has⟩)
  · intro a b hasA hasB below
    dsimp only
    rw [dif_pos hasA, dif_pos hasB]
    have higher : Order.height (⟨a, hasA⟩ : {a // P a}) < Order.height (⟨b, hasB⟩ : {a // P a}) :=
      Order.height_strictMono below (finite _)
    rwa [← ENat.natCast_toNat (finite ⟨a, hasA⟩).ne, ← ENat.natCast_toNat (finite ⟨b, hasB⟩).ne, Nat.cast_lt] at higher

/-- A number that grows with the value bounds the length of a chain. -/
theorem heightAtMost_of_rank (rank : L → Nat) (bounded : ∀ a, P a → rank a ≤ h)
    (grows : ∀ a b, P a → P b → a < b → rank a < rank b) : HeightAtMost P h := by
  intro chain
  have strict : StrictMono fun a : {a // P a} => rank a.1 := fun a b below => grows a b a.2 b.2 below
  have length := LTSeries.head_add_length_le_nat (chain.map _ strict)
  rw [LTSeries.last_map] at length
  calc chain.length ≤ rank chain.last.1 := Nat.le_of_add_left_le length
    _ ≤ h := bounded chain.last.1 chain.last.2

end ForwardFlow
