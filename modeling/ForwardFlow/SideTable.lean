import Std.Data.ExtTreeMap
import ForwardFlow.Index

namespace ForwardFlow

/-- A side table has an entry for every index: the one written last, or the default of its type. -/
structure SideTable (kind : Kind) (α : Type) where
  written : Std.ExtTreeMap (Index kind) α := ∅

namespace SideTable

variable {kind : Kind} {α : Type}

instance : EmptyCollection (SideTable kind α) := ⟨⟨∅⟩⟩

def get [Inhabited α] (t : SideTable kind α) (i : Index kind) : α := t.written.getD i default

def set (t : SideTable kind α) (i : Index kind) (a : α) : SideTable kind α := ⟨t.written.insert i a⟩

@[simp] theorem get_empty [Inhabited α] (i : Index kind) : (∅ : SideTable kind α).get i = default := by
  exact Std.ExtTreeMap.getD_empty

theorem get_set [Inhabited α] (t : SideTable kind α) (i j : Index kind) (a : α) :
    (t.set i a).get j = if i = j then a else t.get j := by
  simp [get, set, Std.ExtTreeMap.getD_insert]

end SideTable

end ForwardFlow
