import Std.Data.ExtTreeMap
import ForwardFlow.Lattice.Basic

namespace ForwardFlow

/-- A lattice value for each of finitely many keys. A key that is missing lies below every value. -/
structure Pointwise (κ : Type) [Ord κ] (α : Type) where
  entries : Std.ExtTreeMap κ α

namespace Pointwise

variable {κ α : Type} [Ord κ] [Std.TransOrd κ]

def empty : Pointwise κ α := ⟨∅⟩

instance : EmptyCollection (Pointwise κ α) := ⟨empty⟩

def get? (m : Pointwise κ α) (k : κ) : Option α := m.entries[k]?

def insert (m : Pointwise κ α) (k : κ) (a : α) : Pointwise κ α := ⟨m.entries.insert k a⟩

def erase (m : Pointwise κ α) (k : κ) : Pointwise κ α := ⟨m.entries.erase k⟩

theorem ext_get? [Std.LawfulEqOrd κ] {m n : Pointwise κ α} (h : ∀ k, m.get? k = n.get? k) : m = n := by
  have entries : m.entries = n.entries := Std.ExtTreeMap.ext_getElem? h
  cases m
  cases n
  exact congrArg _ entries

variable [JoinLattice α]

/-- A value joined into what may be missing. -/
def joinInto (mine : Option α) (theirs : α) : α :=
  match mine with
  | some a => JoinLattice.join a theirs
  | none => theirs

def join (m n : Pointwise κ α) : Pointwise κ α :=
  ⟨m.entries ∪ n.entries.map fun k theirs => joinInto m.entries[k]? theirs⟩

/-- A join is a change if it adds a key or changes the value of one. -/
def effect (m n : Pointwise κ α) : Effect :=
  n.entries.toList.foldl (fun effect (k, theirs) =>
    effect.or <| match m.entries[k]? with
      | some mine => JoinLattice.effect mine theirs
      | none => .changed) .unchanged

theorem get?_join [Std.LawfulEqOrd κ] (m n : Pointwise κ α) (k : κ) :
    (m.join n).get? k = ((n.get? k).map (joinInto (m.get? k))).or (m.get? k) := by
  simp only [join, get?, Std.ExtTreeMap.getElem?_union, Std.ExtTreeMap.getElem?_map]

variable [Std.LawfulEqOrd κ] [DecidableEq α]

instance : DecidableEq (Pointwise κ α)
  | ⟨m⟩, ⟨n⟩ => decidable_of_iff (m = n) (by rw [Pointwise.mk.injEq])

instance : JoinLattice (Pointwise κ α) := ⟨∅, join, effect, fun m n => decide (m = n)⟩

end Pointwise

end ForwardFlow
