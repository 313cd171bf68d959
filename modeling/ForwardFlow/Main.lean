import ForwardFlow.CommandLine.Answer

namespace ForwardFlow

/-- The text of a file. -/
def readFile (file : String) : IO (Except ReadError String) := do
  try
    return decodeText (← IO.FS.readBinFile file)
  catch
    | .noFileOrDirectory .. => return .error .missing
    | .inappropriateType _ 20 _ => return .error .notDirectory
    | .inappropriateType _ 21 _ => return .error .isDirectory
    | e => return .error (.other (toString e))

/-- Reads the files a command needs, each once. -/
def readFiles (files : List String) : IO (List (String × Except ReadError String)) :=
  files.eraseDups.mapM fun file => return (file, ← readFile file)

end ForwardFlow

open ForwardFlow in
def main (args : List String) : IO UInt32 := do
  let files := match Command.ofArgs args with
    | .ok command => command.files
    | .error _ => []
  let contents ← readFiles files
  let answer := Answer.ofArgs (fun file => (contents.lookup file).getD (.error .missing)) args
  IO.print answer.stdout
  unless answer.stderr.isEmpty do IO.eprintln answer.stderr
  return answer.code.toUInt32
