namespace ForwardFlow

/-- What an index counts. -/
inductive Kind
  | block
  | var
  | position
deriving DecidableEq, Repr

/-- The word an index of this kind is printed with. -/
def Kind.tag : Kind → String
  | .block => "block"
  | .var => "v"
  | .position => "rpo"

/-- An index names one slot of the tables of its kind, or it is the invalid index, which names none. -/
inductive Index (kind : Kind)
  | slot (place : Nat)
  | invalid
deriving DecidableEq, Repr

abbrev Block := Index .block

abbrev Var := Index .var

/-- A place in the order in which the blocks of a body are listed. -/
abbrev Position := Index .position

namespace Index

variable {kind : Kind}

/-- The number the invalid index is written with. Every slot has a smaller one. -/
def limit : Nat := 4294967295

/-- The slot with a number, which has to be below the limit. -/
def ofNat? (n : Nat) : Option (Index kind) :=
  if n < limit then some (.slot n) else none

def number : Index kind → Nat
  | .slot n => n
  | .invalid => limit

def isValid : Index kind → Bool
  | .slot _ => true
  | .invalid => false

def text (i : Index kind) : String :=
  kind.tag ++ toString i.number

instance : Inhabited (Index kind) := ⟨.invalid⟩

/-- Slots are ordered by their numbers, and the invalid index comes after them all. -/
instance : Ord (Index kind) where
  compare
    | .slot m, .slot n => compare m n
    | .slot _, .invalid => .lt
    | .invalid, .slot _ => .gt
    | .invalid, .invalid => .eq

theorem compare_slot (m n : Nat) : compare (slot m : Index kind) (slot n) = compare m n := rfl

private theorem natCompare : Std.TransCmp (compare : Nat → Nat → Ordering) := inferInstance

instance : Std.LawfulEqOrd (Index kind) where
  compare_self {i} := by
    match i with
    | .slot n => exact Nat.compare_eq_eq.mpr rfl
    | .invalid => rfl
  eq_of_compare {i j} h := by
    match i, j with
    | .slot m, .slot n => exact congrArg slot (Nat.compare_eq_eq.mp h)
    | .invalid, .invalid => rfl

instance : Std.TransOrd (Index kind) where
  eq_swap {i j} := by
    match i, j with
    | .slot m, .slot n => exact natCompare.eq_swap
    | .slot _, .invalid => rfl
    | .invalid, .slot _ => rfl
    | .invalid, .invalid => rfl
  isLE_trans {i j k} hij hjk := by
    match i, j, k with
    | .slot l, .slot m, .slot n => exact natCompare.isLE_trans hij hjk
    | .invalid, .slot _, .slot _ => exact hij
    | .slot _, _, .invalid => rfl
    | .invalid, _, .invalid => rfl
    | .slot _, .invalid, .slot _ => exact absurd hjk Bool.false_ne_true
    | .invalid, .invalid, .slot _ => exact hjk

theorem ofNat?_eq_some_iff {n : Nat} {i : Index kind} : ofNat? n = some i ↔ n < limit ∧ i = .slot n := by
  simp only [ofNat?, Option.ite_none_right_eq_some, Option.some.injEq]
  exact and_congr_right fun _ => eq_comm

end Index

end ForwardFlow
