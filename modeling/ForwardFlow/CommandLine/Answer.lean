import ForwardFlow.CommandLine.Command
import ForwardFlow.CommandLine.Folder
import ForwardFlow.Program.Printer
import ForwardFlow.Program.Reader

namespace ForwardFlow

/-- Why a command has no result. -/
inductive CommandError
  | reading (file : String) (error : ReadError)
  | parsing (file : String) (error : ParseError)
  | analyzing (file : String) (error : RunError)
deriving DecidableEq, Repr

namespace CommandError

/-- What was being done, and why it failed. -/
def during (activity file cause : String) : String := s!"Error: {activity} {file}\n\nCaused by:\n    {cause}"

def message : CommandError → String
  | .reading file error => during "reading" file error.message
  | .parsing file error => during "parsing" file error.message
  | .analyzing file error => during "analyzing" file error.message

end CommandError

namespace Command

def load (file : String) (content : Except ReadError String) : Except CommandError Body := do
  let text ← content.mapError (.reading file)
  (Body.parse text).mapError (.parsing file)

/-- What a command prints, given the contents of the files. The first error in the order of the files is the answer. -/
def run (content : String → Except ReadError String) : Command → Except CommandError String
  | .print file => do
    let body ← load file (content file)
    return (body.text? "").getD ""
  | .analyze analysis policy trace files => do
    let reports ← files.mapM fun file => do
      let body ← load file (content file)
      (analysis.report policy trace body).mapError (.analyzing file)
    return String.join reports

end Command

/-- What a run of the program leaves behind. -/
structure Answer where
  code : Nat
  stdout : String := ""
  stderr : String := ""
deriving DecidableEq, Repr

def Answer.ofArgs (content : String → Except ReadError String) (args : List String) : Answer :=
  match Command.ofArgs args with
  | .error (.say text) => { code := 0, stdout := text ++ "\n" }
  | .error (.refuse error) => { code := 1, stderr := error.message }
  | .ok command =>
    match command.run content with
    | .ok stdout => { code := 0, stdout }
    | .error error => { code := 1, stderr := error.message }

end ForwardFlow
