namespace ForwardFlow.Checked

/-- The 64-bit word that stands for an integer, if one does. -/
def ofInt? (n : Int) : Option Int64 :=
  if -9223372036854775808 ≤ n ∧ n < 9223372036854775808 then some (Int64.ofInt n) else none

/-- Sum, difference and product are defined where the exact result fits a word. -/
def add? (a b : Int64) : Option Int64 := ofInt? (a.toInt + b.toInt)

def sub? (a b : Int64) : Option Int64 := ofInt? (a.toInt - b.toInt)

def mul? (a b : Int64) : Option Int64 := ofInt? (a.toInt * b.toInt)

theorem ofInt?_eq_some_iff {n : Int} {w : Int64} : ofInt? n = some w ↔ w.toInt = n := by
  simp only [ofInt?, Option.ite_none_right_eq_some, Option.some.injEq]
  constructor
  · rintro ⟨⟨lower, upper⟩, rfl⟩
    exact Int64.toInt_ofInt_of_le lower upper
  · rintro rfl
    exact ⟨⟨Int64.le_toInt w, Int64.toInt_lt w⟩, Int64.ofInt_toInt w⟩

theorem ofInt?_toInt (w : Int64) : ofInt? w.toInt = some w := ofInt?_eq_some_iff.mpr rfl

theorem add?_eq_some_iff {a b c : Int64} : add? a b = some c ↔ c.toInt = a.toInt + b.toInt := ofInt?_eq_some_iff

theorem sub?_eq_some_iff {a b c : Int64} : sub? a b = some c ↔ c.toInt = a.toInt - b.toInt := ofInt?_eq_some_iff

theorem mul?_eq_some_iff {a b c : Int64} : mul? a b = some c ↔ c.toInt = a.toInt * b.toInt := ofInt?_eq_some_iff

end ForwardFlow.Checked
