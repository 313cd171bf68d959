import ForwardFlow.CommandLine.UsageError
import ForwardFlow.Text.Likeness
import ForwardFlow.Text.Split

namespace ForwardFlow

/-- What may stand on a command line: switches, free words, and at last the name of a command with a line of its own. -/
structure Grammar where
  name : String
  help : String
  switches : List Switch := []
  /-- How many free words there may be; any number without a limit. -/
  capacity : Option Nat := none
  /-- The names of commands, each with its switches. -/
  commands : List (String × List Switch) := []

/-- How far a command line was read: the switches used and the values given to options, by their long names, and the free
words. An option may wait for its value in the next argument. Behind two hyphens alone there are only free words. -/
structure Reading where
  uses : List String := []
  values : List (String × String) := []
  words : List String := []
  waiting : Option String := none
  closed : Bool := false
deriving DecidableEq, Repr

namespace Reading

/-- Notes that a switch was used. An option that still waits does without its value. -/
def use (r : Reading) (long : String) : Reading := { r with uses := r.uses ++ [long], waiting := none }

def give (r : Reading) (long value : String) : Reading :=
  { r with values := r.values ++ [(long, value)], waiting := none }

def addWord (r : Reading) (word : String) : Reading := { r with words := r.words ++ [word] }

def valuesOf (r : Reading) (option : Switch) : List String :=
  r.values.filterMap fun (long, value) => if long = option.long then some value else none

def checkOnce (r : Reading) (switch : Switch) : Except Halt Unit :=
  if 1 < r.uses.count switch.long then throw (.refuse (.repeated switch)) else return ()

/-- What the value of an option stands for, or a default if no value was given. First each value is read, then it is
checked that the option was not used twice. -/
def meaning {α : Type} (r : Reading) (option : Switch) (default : α) (read? : String → Option α)
    (refusal : String → UsageError) : Except Halt α := do
  let values ← (r.valuesOf option).mapM fun value =>
    match read? value with
    | some a => return a
    | none => throw (.refuse (refusal value))
  r.checkOnce option
  return values.headD default

end Reading

namespace Grammar

def helpSwitch : Switch := { long := "help", short? := some 'h', role := .help }

def versionSwitch : Switch := { long := "version", short? := some 'V', role := .version }

/-- Every line has the switches for help and for the version. -/
def allSwitches (g : Grammar) : List Switch := g.switches ++ [helpSwitch, versionSwitch]

/-- A switch beside a value in the same argument, where equals signs may stand in between. A flag takes no notice of it,
and an option without it waits for the next argument. -/
def useSwitch (g : Grammar) (r : Reading) (switch : Switch) (value : Option (List Char)) : Except Halt Reading :=
  match switch.role with
  | .flag => .ok (r.use switch.long)
  | .option =>
    match value with
    | some value => .ok ((r.use switch.long).give switch.long (.ofList (value.dropWhile (· == '='))))
    | none => .ok { r.use switch.long with waiting := some switch.long }
  | .help => .error (.say g.help)
  | .version => .error (.say (Help.version g.name))

/-- What may have been meant by an unknown long name. -/
def hint? (g : Grammar) (long : List Char) : Option Hint :=
  match Text.closest? long (g.allSwitches.map Switch.long) with
  | some likely => some (.switch likely)
  | none => g.commands.findSome? fun (command, switches) =>
    (Text.closest? long (switches.map Switch.long)).map (.behind · command)

/-- A long name stands behind two or more hyphens, and its value behind the first equals sign. -/
def readLong (g : Grammar) (r : Reading) (arg : List Char) : Except Halt Reading :=
  let body := arg.dropWhile (· == '-')
  let (long, value) := match Text.splitFirst? ['='] body with
    | some (long, value) => (long, some value)
    | none => (body, none)
  match g.allSwitches.find? (·.long == .ofList long) with
  | some switch => g.useSwitch r switch value
  | none => .error (.refuse (.unexpected ("--" ++ .ofList long) (g.hint? long)))

/-- Letters behind one hyphen. What follows the letter of an option is its value. -/
def readShort (g : Grammar) (r : Reading) : List Char → Except Halt Reading
  | [] => .ok r
  | c :: rest =>
    match g.allSwitches.find? (·.short? == some c) with
    | none => .error (.refuse (.unexpected (.ofList ['-', c]) none))
    | some switch =>
      if switch.role = .option then g.useSwitch r switch (if rest.isEmpty then none else some rest)
      else do g.readShort (← g.useSwitch r switch none) rest

/-- A free word may be a misspelled command, or one too many. -/
def readWord (g : Grammar) (r : Reading) (arg : String) : Except Halt Reading :=
  match Text.closest? arg.toList (g.commands.map Prod.fst) with
  | some likely => .error (.refuse (.misspelled arg likely))
  | none =>
    if g.capacity = some r.words.length then .error (.refuse (.unexpected arg none))
    else .ok (r.addWord arg)

/-- Reads one argument that does not name a command. A hyphen alone is no switch. -/
def readArg (g : Grammar) (r : Reading) (arg : String) : Except Halt Reading :=
  if r.closed then g.readWord r arg
  else
    match arg.toList with
    | ['-', '-'] => .ok { r with closed := true }
    | '-' :: '-' :: _ => g.readLong r arg.toList
    | '-' :: c :: rest => g.readShort r (c :: rest)
    | _ =>
      match r.waiting with
      | some long => .ok (r.give long arg)
      | none => g.readWord r arg

/-- Whether an argument names a command here. -/
def isCommand (g : Grammar) (r : Reading) (arg : String) : Bool :=
  !r.closed && r.waiting.isNone && g.commands.any (·.1 == arg)

/-- Reads a line up to the name of a command. The arguments behind that name are left to the command. -/
def read (g : Grammar) (r : Reading) : List String → Except Halt (Reading × Option (String × List String))
  | [] => .ok (r, none)
  | arg :: rest => if g.isCommand r arg then .ok (r, some (arg, rest)) else do g.read (← g.readArg r arg) rest

/-- Reads a line without commands. -/
def readAll (g : Grammar) (args : List String) : Except Halt Reading := args.foldlM g.readArg {}

end Grammar

end ForwardFlow
