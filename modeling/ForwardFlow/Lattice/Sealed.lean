import ForwardFlow.Fault
import ForwardFlow.Lattice.Shape

namespace ForwardFlow

/-- Lattices under tags that can be compared at run time. -/
class Catalogue (ι : Type) [DecidableEq ι] where
  Carrier : ι → Type
  lattice (i : ι) : JoinLattice (Carrier i)
  name : ι → String

instance {ι : Type} [DecidableEq ι] [Catalogue ι] (i : ι) : JoinLattice (Catalogue.Carrier i) := Catalogue.lattice i

instance : Catalogue Shape := ⟨Shape.Carrier, Shape.lattice, Shape.name⟩

/-- A lattice value with its tag. Whoever holds it cannot see which lattice the value belongs to. -/
structure Sealed (ι : Type) [DecidableEq ι] [Catalogue ι] where
  tag : ι
  value : Catalogue.Carrier tag

namespace Sealed

variable {ι : Type} [DecidableEq ι] [Catalogue ι]

/-- The value, for one who asks with the right tag. -/
def open? (s : Sealed ι) (i : ι) : Option (Catalogue.Carrier i) :=
  if h : s.tag = i then some (h ▸ s.value) else none

/-- The value. To ask with another tag is a fault. -/
def openAs (s : Sealed ι) (i : ι) : Except Fault (Catalogue.Carrier i) :=
  match s.open? i with
  | some value => .ok value
  | none => .error (.mismatch (Catalogue.name s.tag) (Catalogue.name i))

/-- Joins the second value into the first. The second is opened first. -/
def joinAs (i : ι) (s t : Sealed ι) : Except Fault (Sealed ι × Effect) := do
  let b ← t.openAs i
  let a ← s.openAs i
  return (⟨i, JoinLattice.join a b⟩, JoinLattice.effect a b)

def equalAs (i : ι) (s t : Sealed ι) : Except Fault Bool := do
  let a ← s.openAs i
  let b ← t.openAs i
  return JoinLattice.equals a b

@[simp] theorem openAs_mk (i : ι) (value : Catalogue.Carrier i) : (Sealed.mk i value).openAs i = .ok value := by
  simp [openAs, open?]

end Sealed

end ForwardFlow
