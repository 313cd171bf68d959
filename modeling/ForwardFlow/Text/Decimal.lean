import ForwardFlow.Arith.Checked

namespace ForwardFlow.Text

/-- The number a non-empty run of decimal digits stands for. Leading zeros are allowed. -/
def readNat? (digits : List Char) : Option Nat :=
  if digits.isEmpty || !digits.all Char.isDigit then none else some (Nat.ofDigitChars 10 digits 0)

/-- A decimal integer may have either sign in front. -/
def readInt? : List Char → Option Int
  | '-' :: digits => (readNat? digits).map fun n : Nat => -(n : Int)
  | '+' :: digits => (readNat? digits).map Int.ofNat
  | digits => (readNat? digits).map Int.ofNat

/-- The word a decimal integer stands for; one that does not fit a word is no word's text. -/
def readWord? (cs : List Char) : Option Int64 := (readInt? cs).bind Checked.ofInt?

def renderNat (n : Nat) : List Char := Nat.toDigits 10 n

/-- Decimal digits without leading zeros, after a minus sign for the negative integers. -/
def renderInt : Int → List Char
  | .ofNat n => renderNat n
  | .negSucc n => '-' :: renderNat (n + 1)

def renderWord (w : Int64) : List Char := renderInt w.toInt

theorem readNat?_renderNat (n : Nat) : readNat? (renderNat n) = some n := by
  have digits : (renderNat n).all Char.isDigit = true :=
    List.all_eq_true.mpr fun c mem => Nat.isDigit_of_mem_toDigits (by decide) (by decide) mem
  have nonempty : (renderNat n).isEmpty = false := by
    simpa only [renderNat, List.isEmpty_eq_false_iff] using Nat.toDigits_ne_nil
  simp only [readNat?, digits, nonempty, Bool.not_true, Bool.or_self, Bool.false_eq_true, if_false]
  exact congrArg some Nat.ofDigitChars_ten_toDigits

theorem renderNat_head_isDigit {n : Nat} {c : Char} {cs : List Char} (h : renderNat n = c :: cs) : c.isDigit :=
  Nat.isDigit_of_mem_toDigits (b := 10) (n := n) (by decide) (by decide) (by
    have mem : c ∈ renderNat n := h ▸ List.mem_cons_self
    exact mem)

theorem readInt?_renderInt (n : Int) : readInt? (renderInt n) = some n := by
  match n with
  | .negSucc n =>
    simp only [renderInt, readInt?, readNat?_renderNat, Option.map_some]
    rfl
  | .ofNat n =>
    have read := readNat?_renderNat n
    simp only [renderInt]
    match h : renderNat n with
    | [] => simp [h, readNat?] at read
    | c :: cs =>
      have digit := renderNat_head_isDigit h
      have noMinus : c ≠ '-' := by rintro rfl; exact absurd digit (by decide)
      have noPlus : c ≠ '+' := by rintro rfl; exact absurd digit (by decide)
      rw [h] at read
      simp [readInt?, noMinus, noPlus, read]

theorem readWord?_renderWord (w : Int64) : readWord? (renderWord w) = some w := by
  simp only [readWord?, renderWord, readInt?_renderInt, Option.bind_some, Checked.ofInt?_toInt]

end ForwardFlow.Text
