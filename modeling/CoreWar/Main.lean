/-
# The program

Reads the files that the arguments name, answers the call, and prints what it
has to say.
-/
import CoreWar.CommandLine

namespace CoreWar.CommandLine

/-- The environment variable that asks for a level of logging. -/
def levelVariable : String := "RUST_LOG"

/-- The files that a call reads. -/
def Request.files : Request → List String
  | .version => []
  | .perform _ o => o.settingsFile.toList ++ o.files

/-- The error with a number of the system, which may come negated. -/
def ReadError.ofNumber (code : UInt32) (reason : String) : ReadError :=
  let code := min code (0 - code)
  if code = 2 then .missing
  else if code = 20 then .notFolder
  else if code = 21 then .isFolder
  else if code = 36 then .nameTooLong
  else .system code reason

/-- Why the system did not read a file. -/
def ReadError.ofSystem : IO.Error → ReadError
  | .noFileOrDirectory .. => .missing
  | .permissionDenied _ code reason | .inappropriateType _ code reason
  | .invalidArgument _ code reason | .resourceExhausted _ code reason
  | .otherError code reason => .ofNumber code reason
  | _ => .notText

/-- The content of a file, or why it cannot be read. -/
def content (name : String) : IO (Except ReadError String) := do
  try
    return .ok (← IO.FS.readFile name)
  catch e =>
    return .error (.ofSystem e)

end CoreWar.CommandLine

open CoreWar.CommandLine in
def main (args : List String) : IO UInt32 := do
  let names := ((Request.ofArguments? args).map Request.files).getD []
  let contents ← names.mapM fun name => return (name, ← content name)
  let logging ← IO.getEnv levelVariable
  let report := respond (fun name => (contents.lookup name).getD (.error .missing)) logging args
  for line in report.stderr do
    IO.eprintln line
  for line in report.stdout do
    IO.println line
  return report.code
