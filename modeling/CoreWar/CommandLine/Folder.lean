/-
# The folder of a call

A call reads files by their paths, which start in the folder where the call is
made. A path is followed name by name: no name and a single dot stay where they
are, two dots lead out of the folder, any other name leads to a file in it, and
nothing leads on from a file. What lies outside of the folder is not known:
it can be entered, and no file is found there.

Key definitions: `CommandLine.ReadError`, `CommandLine.Folder.read`.
-/

namespace CoreWar.CommandLine

/-- Why a file cannot be read. -/
inductive ReadError
  /-- Nothing has this name. -/
  | missing
  /-- The path goes on behind a file. -/
  | notFolder
  /-- The path leads to a folder. -/
  | isFolder
  | nameTooLong
  /-- The content is no text. -/
  | notText
  /-- The system has another reason. -/
  | system (code : UInt32) (reason : String)
  deriving DecidableEq

/-- The words and the number that the system has for an error. -/
def ReadError.message : ReadError → String
  | missing => "No such file or directory (os error 2)"
  | notFolder => "Not a directory (os error 20)"
  | isFolder => "Is a directory (os error 21)"
  | nameTooLong => "File name too long (os error 36)"
  | notText => "stream did not contain valid UTF-8"
  | system code reason => reason ++ " (os error " ++ toString code.toNat ++ ")"

/-- The files of a folder: names and texts. -/
abbrev Folder := List (String × String)

namespace Folder

/-- Where a path has led. -/
inductive Place
  | inside
  | outside
  | file (text : String)

/-- How many bytes a name may have. -/
def nameLimit : Nat := 255

/-- How many bytes a path may have. -/
def pathLimit : Nat := 4095

/-- Follow one name of a path. -/
def enter (folder : Folder) (place : Place) (name : String) : Except ReadError Place :=
  match place with
  | .file _ => .error .notFolder
  | place =>
    if name = "" ∨ name = "." then .ok place
    else if name = ".." then .ok .outside
    else if nameLimit < name.utf8ByteSize then .error .nameTooLong
    else
      match place, folder.lookup name with
      | .inside, some text => .ok (.file text)
      | _, _ => .error .missing

/-- The text of the file at the end of a path. -/
def read (folder : Folder) (path : String) : Except ReadError String :=
  if path = "" then .error .missing
  else if pathLimit < path.utf8ByteSize then .error .nameTooLong
  else do
    let start := if path.startsWith "/" then Place.outside else Place.inside
    match ← (path.splitOn "/").foldlM folder.enter start with
    | .file text => return text
    | _ => .error .isFolder

end Folder

end CoreWar.CommandLine
