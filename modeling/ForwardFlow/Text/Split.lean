namespace ForwardFlow.Text

/-- The text before and after the first place where a separator stands. -/
def splitFirst? (separator : List Char) : List Char → Option (List Char × List Char)
  | [] => none
  | c :: cs =>
    match separator.isPrefixOf? (c :: cs) with
    | some rest => some ([], rest)
    | none => (splitFirst? separator cs).map fun (before, after) => (c :: before, after)

/-- The text before the last place where a character stands. -/
def beforeLast? (mark : Char) (cs : List Char) : Option (List Char) :=
  match cs.reverse.dropWhile (· != mark) with
  | [] => none
  | _ :: before => some before.reverse

/-- The rest of the text after a word it has to start with. -/
def after? (word : String) (cs : List Char) : Option (List Char) := word.toList.isPrefixOf? cs

/-- The text without a character it has to end in. -/
def dropEnd? (mark : Char) (cs : List Char) : Option (List Char) :=
  if cs.getLast? = some mark then some cs.dropLast else none

end ForwardFlow.Text
