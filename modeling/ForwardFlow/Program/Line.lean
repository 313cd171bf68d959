import ForwardFlow.Text.Blank
import ForwardFlow.Text.Split

namespace ForwardFlow

/-- A line of source text that says something, without its comment and its outer blanks. Lines are counted from 1. -/
structure Line where
  number : Nat
  chars : List Char
deriving DecidableEq, Repr

/-- A name starts with an ASCII letter or an underscore and goes on with these, digits and points. -/
def isIdent : List Char → Bool
  | [] => false
  | c :: cs => (c.isAlpha || c == '_') && cs.all fun c => c.isAlphanum || c == '_' || c == '.'

/-- The words that cannot name a variable. -/
def keywords : List String :=
  ["function", "var", "init", "end", "eval", "branch", "return", "goto", "call", "true", "false"]

namespace Line

/-- A comment starts at the first hash sign. -/
def strip (raw : List Char) : List Char := Text.trim (raw.takeWhile (· != '#'))

def ofText (text : List Char) : List Line :=
  (((text.splitOn '\n').map strip).zipIdx 1).filterMap fun (chars, number) =>
    if chars.isEmpty then none else some ⟨number, chars⟩

/-- A line that is a name and a colon labels the block that follows. -/
def label? (line : Line) : Option String :=
  match Text.dropEnd? ':' line.chars with
  | some name => if isIdent name then some (.ofList name) else none
  | none => none

end Line

/-- The lines that follow a label, up to the next one. -/
structure Section where
  number : Nat
  label : String
  content : List Line
deriving DecidableEq, Repr

/-- The lines before the first label, and the sections. -/
def sections : List Line → List Line × List Section
  | [] => ([], [])
  | line :: rest =>
    let (content, later) := sections rest
    match line.label? with
    | some label => ([], ⟨line.number, label, content⟩ :: later)
    | none => (line :: content, later)

end ForwardFlow
