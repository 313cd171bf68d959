import ForwardFlow.Text.Printable

namespace ForwardFlow.Text

/-- Lower-case hexadecimal digits without leading zeros. -/
def renderHex (n : Nat) : List Char := Nat.toDigits 16 n

/-- A character between quotes. The quote, the backslash and the usual control characters have short escapes; another
character that does not show by itself is written by its number. -/
def quoteChar (c : Char) : List Char :=
  match c with
  | '"' => ['\\', '"']
  | '\\' => ['\\', '\\']
  | '\n' => ['\\', 'n']
  | '\r' => ['\\', 'r']
  | '\t' => ['\\', 't']
  | '\x00' => ['\\', '0']
  | c => if isPrintable c then [c] else ['\\', 'u', '\x7b'] ++ renderHex c.toNat ++ ['\x7d']

def quote (s : String) : String := .ofList ('"' :: s.toList.flatMap quoteChar ++ ['"'])

end ForwardFlow.Text
