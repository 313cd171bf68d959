namespace ForwardFlow.Text

/-- A share of a whole. -/
structure Share where
  part : Nat
  whole : Nat
deriving DecidableEq, Repr

def Share.exceeds (s t : Share) : Bool := t.part * s.whole < s.part * t.whole

/-- The places of a text that were matched with characters of another one, the last one first, and how often a match went
back behind the one before it. -/
structure Matching where
  places : List Nat := []
  swaps : Nat := 0
deriving DecidableEq, Repr

/-- Matches a character with the first equal one that is still free and stands within reach of the same place. -/
def Matching.add (text : List Char) (reach : Nat) (m : Matching) (c : Char) (i : Nat) : Matching :=
  match text.zipIdx.find? fun (d, j) => c == d && decide (i ≤ j + reach ∧ j ≤ i + reach) && !m.places.contains j with
  | none => m
  | some (_, j) => ⟨j :: m.places, if j < m.places.headD 0 then m.swaps + 1 else m.swaps⟩

/-- The mean of three shares: of the first text and of the second text that is matched, and of the matches that keep the
order. Characters match within half the longer text. -/
def matchedShare (s t : List Char) : Share :=
  let reach := max s.length t.length / 2 - 1
  let m := s.zipIdx.foldl (fun m (c, i) => Matching.add t reach m c i) {}
  let matched := m.places.length
  if matched = 0 then ⟨0, 1⟩
  else
    ⟨matched * matched * t.length + matched * matched * s.length + (matched - m.swaps) * s.length * t.length,
      3 * s.length * t.length * matched⟩

/-- How many characters two texts start with in common. -/
def commonStart : List Char → List Char → Nat
  | c :: cs, d :: ds => if c = d then commonStart cs ds + 1 else 0
  | _, _ => 0

/-- How alike two texts are: the matched share, where each character of a common start closes a tenth of the gap that is
left to the whole. -/
def likeness (s t : List Char) : Share :=
  let base := matchedShare s t
  let lifted := 10 * base.part + commonStart s t * (base.whole - base.part)
  ⟨min lifted (10 * base.whole), 10 * base.whole⟩

/-- The candidate that is most like a text, if it is so for more than four parts in five. Of equals it is the first. -/
def closest? (s : List Char) (candidates : List String) : Option String :=
  (candidates.foldl (fun (best, found) candidate =>
    let share := likeness s candidate.toList
    if share.exceeds best then (share, some candidate) else (best, found)) ((⟨4, 5⟩ : Share), none)).2

end ForwardFlow.Text
