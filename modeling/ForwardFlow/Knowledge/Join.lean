import ForwardFlow.Knowledge.Basic

namespace ForwardFlow

/-- Decides what is known of a variable of some type for which two facts differ. It may also change the joined
knowledge, as far as that has come. -/
abbrev Merger := Ty → Fact → Fact → Knowledge → Option Fact × Knowledge

namespace Merger

/-- Nothing is known where facts differ. -/
def strict : Merger := fun _ _ _ joined => (none, joined)

/-- The bounds of an integer fact. -/
def bounds? : Fact → Option (Int64 × Int64)
  | .int n => some (n, n)
  | .range low high => some (low, high)
  | .bool _ => none

/-- The least range around two integer facts. -/
def around? (a b : Fact) : Option Fact := do
  let (alow, ahigh) ← bounds? a
  let (blow, bhigh) ← bounds? b
  return .range (min alow blow) (max ahigh bhigh)

/-- Integer variables keep the least range around both facts. -/
def ranges : Merger := fun ty a b joined => (if ty = .int then around? a b else none, joined)

/-- Two integers keep the range between them, but a range is not made wider. -/
def between : Merger := fun _ a b joined =>
  match a, b with
  | .int m, .int n => (some (.range (min m n) (max m n)), joined)
  | _, _ => (none, joined)

def left : Merger := fun _ a _ joined => (some a, joined)

def right : Merger := fun _ _ b joined => (some b, joined)

/-- Keeps the right fact, and notes the left one at a variable of its own. -/
def noting (v : Var) : Merger := fun _ a b joined => (some b, joined.learn v a)

end Merger

namespace Knowledge

/-- One variable's part of a join: a fact on one side only is dropped, one on both sides is kept, and for different
facts about a declared variable the merger decides. -/
def joinFact (merger : Merger) (k l : Knowledge) (joined : Knowledge) (v : Var) (a : Fact) : Knowledge :=
  match l.fact? v with
  | none => joined
  | some b =>
    if a = b then joined.learn v a
    else
      match k.ty? v with
      | none => joined
      | some ty =>
        match merger ty a b joined with
        | (some fact, joined) => joined.learn v fact
        | (none, joined) => joined

/-- What is known where two paths meet. The declarations are those of the left side. -/
def join (merger : Merger) (k l : Knowledge) : Knowledge :=
  k.toList.foldl (fun joined (v, a) => joinFact merger k l joined v a) { decls := k.decls }

section Monadic

variable {m : Type → Type} [Monad m] (merger : Ty → Fact → Fact → Knowledge → m (Option Fact × Knowledge))

/-- One variable's part of a join with a merger that has effects. -/
def joinFactM (k l : Knowledge) (joined : Knowledge) (v : Var) (a : Fact) : m Knowledge :=
  match l.fact? v with
  | none => pure joined
  | some b =>
    if a = b then pure (joined.learn v a)
    else
      match k.ty? v with
      | none => pure joined
      | some ty => do
        match ← merger ty a b joined with
        | (some fact, joined) => return joined.learn v fact
        | (none, joined) => return joined

def joinM (k l : Knowledge) : m Knowledge :=
  k.toList.foldlM (fun joined (v, a) => joinFactM merger k l joined v a) { decls := k.decls }

end Monadic

end Knowledge

end ForwardFlow
