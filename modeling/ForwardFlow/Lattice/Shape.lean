import ForwardFlow.Index
import ForwardFlow.Text.Quoted
import ForwardFlow.Lattice.Flat
import ForwardFlow.Lattice.MaySet
import ForwardFlow.Lattice.MustSet
import ForwardFlow.Lattice.Point
import ForwardFlow.Lattice.Pointwise

namespace ForwardFlow

/-- What the elements of sets and the keys of maps are, where a lattice is chosen at run time. -/
inductive KeyKind
  | int
  | text
  | var
deriving DecidableEq, Repr

namespace KeyKind

abbrev Key : KeyKind → Type
  | .int => Int64
  | .text => String
  | .var => Var

instance (k : KeyKind) : DecidableEq k.Key :=
  match k with
  | .int => inferInstanceAs (DecidableEq Int64)
  | .text => inferInstanceAs (DecidableEq String)
  | .var => inferInstanceAs (DecidableEq Var)

instance (k : KeyKind) : Ord k.Key :=
  match k with
  | .int => inferInstanceAs (Ord Int64)
  | .text => inferInstanceAs (Ord String)
  | .var => inferInstanceAs (Ord Var)

instance (k : KeyKind) : Std.TransOrd k.Key :=
  match k with
  | .int => inferInstanceAs (Std.TransOrd Int64)
  | .text => inferInstanceAs (Std.TransOrd String)
  | .var => inferInstanceAs (Std.TransOrd Var)

instance (k : KeyKind) : Std.LawfulEqOrd k.Key :=
  match k with
  | .int => inferInstanceAs (Std.LawfulEqOrd Int64)
  | .text => inferInstanceAs (Std.LawfulEqOrd String)
  | .var => inferInstanceAs (Std.LawfulEqOrd Var)

def name : KeyKind → String
  | .int => "i64"
  | .text => "String"
  | .var => "Var"

/-- A key as it stands in the text of a lattice value. -/
def debug : (k : KeyKind) → k.Key → String
  | .int, n => toString n
  | .text, s => Text.quote s
  | .var, v => v.text

end KeyKind

/-- A lattice that can be chosen at run time. -/
inductive Shape
  | onePoint
  | twoPoint
  | flat (value : KeyKind)
  | may (elem : KeyKind)
  | must (elem : KeyKind)
  | map (key : KeyKind) (value : Shape)
deriving DecidableEq, Repr

namespace Shape

/-- The values of the lattice a shape stands for. -/
abbrev Carrier : Shape → Type
  | .onePoint => OnePoint
  | .twoPoint => TwoPoint
  | .flat k => Flat k.Key
  | .may k => MaySet k.Key
  | .must k => MustSet k.Key
  | .map k s => Pointwise k.Key s.Carrier

instance decEq : (s : Shape) → DecidableEq s.Carrier
  | .onePoint => inferInstanceAs (DecidableEq OnePoint)
  | .twoPoint => inferInstanceAs (DecidableEq TwoPoint)
  | .flat k => inferInstanceAs (DecidableEq (Flat k.Key))
  | .may k => inferInstanceAs (DecidableEq (MaySet k.Key))
  | .must k => inferInstanceAs (DecidableEq (MustSet k.Key))
  | .map k s => have := decEq s; inferInstanceAs (DecidableEq (Pointwise k.Key s.Carrier))

instance lattice : (s : Shape) → JoinLattice s.Carrier
  | .onePoint => inferInstanceAs (JoinLattice OnePoint)
  | .twoPoint => inferInstanceAs (JoinLattice TwoPoint)
  | .flat k => inferInstanceAs (JoinLattice (Flat k.Key))
  | .may k => inferInstanceAs (JoinLattice (MaySet k.Key))
  | .must k => inferInstanceAs (JoinLattice (MustSet k.Key))
  | .map k s => have := lattice s; inferInstanceAs (JoinLattice (Pointwise k.Key s.Carrier))

def name : Shape → String
  | .onePoint => "NoopLattice"
  | .twoPoint => "TwoPoint"
  | .flat k => "Flat<" ++ k.name ++ ">"
  | .may k => "UnionSet<" ++ k.name ++ ">"
  | .must k => "IntersectionSet<" ++ k.name ++ ">"
  | .map k s => "MapLattice<" ++ k.name ++ ", " ++ s.name ++ ">"

/-- Texts between braces, with a comma and a space between two. -/
def braced (parts : List String) : String := "\x7b" ++ ", ".intercalate parts ++ "\x7d"

/-- The text of a lattice value, for a reader who wants to see how it is built. -/
def debug : (s : Shape) → s.Carrier → String
  | .onePoint, _ => "NoopLattice"
  | .twoPoint, .bottom => "Bottom"
  | .twoPoint, .top => "Top"
  | .flat _, .bottom => "Bottom"
  | .flat k, .value a => "Value(" ++ k.debug a ++ ")"
  | .flat _, .top => "Top"
  | .may k, ⟨elems⟩ => "UnionSet \x7b set: " ++ braced (elems.toList.map k.debug) ++ " \x7d"
  | .must k, ⟨elems⟩ => "IntersectionSet \x7b set: " ++ braced (elems.toList.map k.debug) ++ " \x7d"
  | .map k s, ⟨entries⟩ =>
    "MapLattice \x7b map: " ++ braced (entries.toList.map fun (key, a) => k.debug key ++ ": " ++ s.debug a) ++ " \x7d"

end Shape

end ForwardFlow
