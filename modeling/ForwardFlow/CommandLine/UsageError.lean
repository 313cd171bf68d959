import ForwardFlow.CommandLine.Help

namespace ForwardFlow

/-- What a switch does. -/
inductive Role
  | flag
  | option
  | help
  | version
deriving DecidableEq, Repr

/-- A switch goes by a long name behind two hyphens, and perhaps by one letter behind a hyphen. An option is a switch with
a value. -/
structure Switch where
  long : String
  short? : Option Char := none
  role : Role := .flag
deriving DecidableEq, Repr

def Switch.text (switch : Switch) : String :=
  "--" ++ switch.long ++ if switch.role = .option then " <" ++ switch.long ++ ">" else ""

/-- What someone may have meant by an unknown long name: that of a switch here, or of one that belongs behind the name of
a command. -/
inductive Hint
  | switch (long : String)
  | behind (long command : String)
deriving DecidableEq, Repr

/-- A text that a terminal shows in green. -/
def green (s : String) : String := "\x1b[32m" ++ s ++ "\x1b[0m"

def Hint.message : Hint → String
  | .switch long => "\n\tDid you mean " ++ green "--" ++ green long ++ "?"
  | .behind long command =>
    "\n\tDid you mean to put '" ++ green "--" ++ green long ++ "' after the subcommand '" ++ green command ++ "'?"

inductive UsageError
  | unexpected (arg : String) (hint : Option Hint)
  | misspelled (command likely : String)
  | unknownCommand (name : String)
  | unknownAnalysis (name : String)
  | unknownOrder (name : String)
  | repeated (switch : Switch)
  | missing (what : String)
  | missingCommand
deriving DecidableEq, Repr

/-- A message says what is wrong, and not how the program is used. -/
def UsageError.message : UsageError → String
  | .unexpected arg hint =>
    "error: Found argument '" ++ arg ++ "' which wasn't expected, or isn't valid in this context" ++
      (hint.map Hint.message).getD ""
  | .misspelled command likely =>
    "error: The subcommand '" ++ command ++ "' wasn't recognized\n\tDid you mean '" ++ likely ++
      "'?\n\nIf you believe you received this message in error, try re-running with '" ++ Help.program ++ " -- " ++
      command ++ "'"
  | .unknownCommand name => "error: The subcommand '" ++ name ++ "' wasn't recognized"
  | .unknownAnalysis name =>
    "error: Invalid value for '--analysis <analysis>': unknown analysis `" ++ name ++ "`"
  | .unknownOrder name => "error: Invalid value for '--order <order>': unknown worklist order `" ++ name ++ "`"
  | .repeated switch =>
    "error: The argument '" ++ switch.text ++
      "' was provided more than once, but cannot be used multiple times"
  | .missing what => "error: The following required arguments were not provided:\n    " ++ what
  | .missingCommand => Help.ofLines Help.heading

/-- What ends the reading of a command line before its end: a text that was asked for, or an error. -/
inductive Halt
  | say (text : String)
  | refuse (error : UsageError)
deriving DecidableEq, Repr

end ForwardFlow
