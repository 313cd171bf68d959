import Std.Data.ExtTreeSet
import ForwardFlow.Lattice.Basic

namespace ForwardFlow

/-- What must hold: a join keeps what both sides have. -/
structure MustSet (α : Type) [Ord α] where
  elems : Std.ExtTreeSet α

namespace MustSet

variable {α : Type} [Ord α] [Std.TransOrd α]

def empty : MustSet α := ⟨∅⟩

instance : EmptyCollection (MustSet α) := ⟨empty⟩

def insert (s : MustSet α) (a : α) : MustSet α := ⟨s.elems.insert a⟩

def erase (s : MustSet α) (a : α) : MustSet α := ⟨s.elems.erase a⟩

def join (s t : MustSet α) : MustSet α := ⟨s.elems ∩ t.elems⟩

/-- An intersection is a change if it has fewer elements. -/
def effect (s t : MustSet α) : Effect := .ofBool ((s.join t).elems.size != s.elems.size)

variable [Std.LawfulEqOrd α]

instance : DecidableEq (MustSet α)
  | ⟨s⟩, ⟨t⟩ => decidable_of_iff (s = t) (by rw [MustSet.mk.injEq])

/-- The value an analysis starts with is the empty set, where nothing is known to hold. -/
instance : JoinLattice (MustSet α) := ⟨∅, join, effect, fun s t => decide (s = t)⟩

end MustSet

end ForwardFlow
