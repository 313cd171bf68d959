namespace ForwardFlow

/-- Why a file has no text. -/
inductive ReadError
  | missing
  | notDirectory
  | isDirectory
  | tooLong
  | notUtf8
  | other (message : String)
deriving DecidableEq, Repr

def ReadError.message : ReadError → String
  | .missing => "No such file or directory (os error 2)"
  | .notDirectory => "Not a directory (os error 20)"
  | .isDirectory => "Is a directory (os error 21)"
  | .tooLong => "File name too long (os error 36)"
  | .notUtf8 => "stream did not contain valid UTF-8"
  | .other message => message

def decodeText (bytes : ByteArray) : Except ReadError String :=
  match String.fromUTF8? bytes with
  | some text => .ok text
  | none => .error .notUtf8

/-- A directory that holds files only. -/
structure Folder where
  files : List (String × ByteArray)

/-- Where the first parts of a path lead: to the folder itself, to a file in it, or to a directory outside, of which
nothing is known. -/
inductive Spot
  | inside
  | file (content : ByteArray)
  | outside

namespace Folder

/-- Follows one part of a path. No part leads on from a file, not even an empty one. -/
def follow (folder : Folder) : Spot → String → Except ReadError Spot
  | .file _, _ => .error .notDirectory
  | spot, "" => .ok spot
  | spot, "." => .ok spot
  | _, ".." => .ok .outside
  | spot, name =>
    if 255 < name.utf8ByteSize then .error .tooLong
    else
      match spot, folder.files.lookup name with
      | .inside, some content => .ok (.file content)
      | _, _ => .error .missing

/-- The text of the file that a path leads to, seen from inside the folder. -/
def read (folder : Folder) (path : String) : Except ReadError String :=
  if path.isEmpty then .error .missing
  else if 4096 ≤ path.utf8ByteSize then .error .tooLong
  else do
    let start := if path.toList.head? = some '/' then Spot.outside else .inside
    match ← ((path.toList.splitOn '/').map String.ofList).foldlM folder.follow start with
    | .file content => decodeText content
    | _ => throw .isDirectory

end Folder

end ForwardFlow
