import Std.Data.ExtTreeSet
import ForwardFlow.Lattice.Basic

namespace ForwardFlow

/-- What may hold: a join keeps what either side has. -/
structure MaySet (α : Type) [Ord α] where
  elems : Std.ExtTreeSet α

namespace MaySet

variable {α : Type} [Ord α] [Std.TransOrd α]

def empty : MaySet α := ⟨∅⟩

instance : EmptyCollection (MaySet α) := ⟨empty⟩

def insert (s : MaySet α) (a : α) : MaySet α := ⟨s.elems.insert a⟩

def join (s t : MaySet α) : MaySet α := ⟨s.elems ∪ t.elems⟩

/-- A union is a change if it has more elements. -/
def effect (s t : MaySet α) : Effect := .ofBool ((s.join t).elems.size != s.elems.size)

variable [Std.LawfulEqOrd α]

instance : DecidableEq (MaySet α)
  | ⟨s⟩, ⟨t⟩ => decidable_of_iff (s = t) (by rw [MaySet.mk.injEq])

instance : JoinLattice (MaySet α) := ⟨∅, join, effect, fun s t => decide (s = t)⟩

end MaySet

end ForwardFlow
