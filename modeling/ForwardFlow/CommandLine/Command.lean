import ForwardFlow.CommandLine.Grammar
import ForwardFlow.Report

namespace ForwardFlow

namespace Bundled

def ofName? : String → Option Bundled
  | "definite-assignment" => some .assigned
  | "constants" => some .constants
  | _ => none

end Bundled

namespace Policy

def ofName? : String → Option Policy
  | "rpo" => some .reversePostorder
  | "fifo" => some .fifo
  | _ => none

end Policy

/-- What the command line asks for. -/
inductive Command
  | print (file : String)
  | analyze (analysis : Bundled) (policy : Policy) (trace : Bool) (files : List String)
deriving DecidableEq, Repr

namespace Command

def debugSwitch : Switch := { long := "debug", short? := some 'd' }

def traceSwitch : Switch := { long := "trace" }

def analysisSwitch : Switch := { long := "analysis", short? := some 'a', role := .option }

def orderSwitch : Switch := { long := "order", role := .option }

def analyzeSwitches : List Switch := [traceSwitch, analysisSwitch, orderSwitch]

def general : Grammar where
  name := Help.program
  help := Help.general
  switches := [debugSwitch]
  capacity := some 0
  commands := [("print", []), ("analyze", analyzeSwitches), ("help", [])]

def printGrammar : Grammar where
  name := Help.program ++ "-print"
  help := Help.print
  capacity := some 1

def analyzeGrammar : Grammar where
  name := Help.program ++ "-analyze"
  help := Help.analyze
  switches := analyzeSwitches

def readPrint (args : List String) : Except Halt Command := do
  match (← printGrammar.readAll args).words with
  | [] => throw (.refuse (.missing "<file>"))
  | file :: _ => return .print file

def readAnalyze (args : List String) : Except Halt Command := do
  let r ← analyzeGrammar.readAll args
  let analysis ← r.meaning analysisSwitch .assigned Bundled.ofName? .unknownAnalysis
  let policy ← r.meaning orderSwitch .reversePostorder Policy.ofName? .unknownOrder
  r.checkOnce traceSwitch
  return .analyze analysis policy (r.uses.contains traceSwitch.long) r.words

/-- The help for a command, which has no commands of its own. -/
def help : List String → Halt
  | [] => .say Help.general
  | ["print"] => .say Help.print
  | ["analyze"] => .say Help.analyze
  | ["help"] => .say Help.general
  | name :: rest =>
    if general.commands.any (·.1 == name) then .refuse (.unknownCommand (rest.headD name))
    else .refuse (.unknownCommand name)

def readCommand : String → List String → Except Halt Command
  | "print", args => readPrint args
  | "analyze", args => readAnalyze args
  | _, args => .error (help args)

/-- The command the arguments stand for. The flag that asks for a log changes nothing else. -/
def ofArgs (args : List String) : Except Halt Command := do
  match ← general.read {} args with
  | (_, none) => throw (.refuse .missingCommand)
  | (r, some (name, rest)) =>
    let command ← readCommand name rest
    r.checkOnce debugSwitch
    return command

/-- The files a command reads. -/
def files : Command → List String
  | .print file => [file]
  | .analyze _ _ _ files => files

end Command

end ForwardFlow
