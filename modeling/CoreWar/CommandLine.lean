/-
# The command line

`run` fights a battle between the warriors in the given files and tells how it
ended; `check` only loads them and tells where each one starts. Settings come
from a file, if one is named, and options override them. The settings are read
before the warriors, and the warriors in order; the first thing that fails is
reported.

What a call prints is a value here: `respond` takes the arguments, the files
and the wish for logging to an exit code and the lines of both outputs.

Key definitions: `CommandLine.Report`, `CommandLine.respond`.
-/
import CoreWar.Codec.Battle
import CoreWar.Codec.Program
import CoreWar.Codec.Settings
import CoreWar.CommandLine.Arguments
import CoreWar.CommandLine.Folder
import CoreWar.Log

namespace CoreWar.CommandLine

/-- What a call prints. An entry of an output may hold several lines. -/
structure Report where
  code : UInt32 := 0
  stdout : List String := []
  stderr : List String := []

/-- What reading a file gives, by its path. -/
abbrev Files := String → Except ReadError String

/-- What stops a call. -/
inductive Failure
  | unreadable (file : String) (e : ReadError)
  | settings
  | warrior (file : String)
  | load (e : LoadError)

def Failure.message : Failure → String
  | unreadable file e => "failed to read " ++ file ++ ": " ++ e.message
  | settings => "invalid config:"
  | warrior file => "invalid warrior " ++ file ++ ":"
  | load e => e.message

/-- The content of a file. -/
def contentOf (files : Files) (name : String) : Except Failure String :=
  (files name).mapError (.unreadable name)

/-- The settings of the file, if one is named, with the options laid over them. -/
def settingsOf (files : Files) (o : Options) : Except Failure Settings := do
  let s ← match o.settingsFile with
    | none => .ok Settings.standard
    | some name =>
      match Settings.parse? (← contentOf files name) with
      | some s => .ok s
      | none => .error Failure.settings
  return { s with
    coreSize := o.coreSize.getD s.coreSize
    cycleLimit := o.cycles.or s.cycleLimit
    seed := o.seed.or s.seed
    startPositions := o.start.or s.startPositions }

/-- The program in a warrior file. -/
def programOf (files : Files) (name : String) : Except Failure Program := do
  match Program.parse? (← contentOf files name) with
  | some p => .ok p
  | none => .error (.warrior name)

/-- The settings and programs of a call. -/
def inputs (files : Files) (o : Options) : Except Failure (List Program × Settings) := do
  let s ← settingsOf files o
  let programs ← o.files.mapM (programOf files)
  return (programs, s)

/-- The name of the file of the warrior `id`. -/
def fileOf (o : Options) (id : UInt64) : String := o.files.getD id.toNat ""

/-- A number, filled up with blanks on the left to `width`. -/
def padded (width n : Nat) : String :=
  let digits := Nat.toDigits 10 n
  String.ofList (List.replicate (width - digits.length) ' ' ++ digits)

/-- The line about the verdict. -/
def verdictLine (o : Options) : Verdict → String
  | .winner w => "Winner: " ++ fileOf o w ++ " (" ++ toString w.toNat ++ ")"
  | .draw ids => "Draw between: " ++ ", ".intercalate (ids.map (fileOf o))
  | .extinct => "No survivors"

/-- What `run` tells about a battle that is over. -/
def runLines (o : Options) (b : Battle) : List String :=
  (b.verdict.map (verdictLine o)).toList ++
    ["Cycles: " ++ toString b.cycles.toNat] ++
    (if b.incidents.isEmpty then [] else ["Invalid operands: " ++ toString b.incidents.size]) ++
    (if o.snapshot then [b.snapshot.toJson.indented] else [])

/-- What `check` tells about a loaded warrior. -/
def checkLine (o : Options) (core : Core) (w : Warrior) : String :=
  let start := w.next?.getD 0
  padded 3 w.id.toNat ++ "  start " ++ padded 5 start.toNat ++ "  " ++ (core.read start).text ++
    "  " ++ fileOf o w.id

/-- What `check` tells about a loaded battle. -/
def checkLines (o : Options) (b : Battle) : List String :=
  ("Core size: " ++ toString b.core.size) :: b.warriors.map (checkLine o b.core)

/-- The level from which on the log is shown: what the environment asks for, or
else warnings, or every instruction when the battle is traced. -/
def threshold (logging : Option String) (o : Options) : Log.Threshold :=
  (logging.bind Log.Threshold.ofWord?).getD (.level (if o.trace then .debug else .warn))

/-- The shown lines of a log, behind those in `lines`. -/
def shown (t : Log.Threshold) (lines : Array String) (entries : List Log.Entry) : Array String :=
  entries.foldl (fun lines e => if t.shows e.level then lines.push e.line else lines) lines

def fail (lines : Array String) (e : Failure) : Report :=
  { code := 1, stderr := (lines.push ("error: " ++ e.message)).toList }

/-- Carry out a command. -/
def perform (files : Files) (logging : Option String) (command : Command) (o : Options) : Report :=
  match inputs files o with
  | .error e => fail #[] e
  | .ok (programs, s) =>
    let t := threshold logging o
    let lines := (linked programs s).foldl (fun lines l => shown t lines (Log.ofLoading l.1 l.2)) #[]
    match Battle.load programs s with
    | .error e => fail lines (.load e)
    | .ok b =>
      match command with
      | .check => { stdout := checkLines o b, stderr := lines.toList }
      | .run =>
        let (lines, b) := b.follow (fun lines turn => shown t lines (Log.ofTurn turn)) b.horizon lines
        { stdout := runLines o b, stderr := lines.toList }

/-- The name and version of the program. -/
def versionLine : String := "mars-vm 0.1.0"

/-- Answer a call. -/
def respond (files : Files) (logging : Option String) (args : List String) : Report :=
  match Request.ofArguments? args with
  | none => { code := 2 }
  | some .version => { stdout := [versionLine] }
  | some (.perform command o) => perform files logging command o

end CoreWar.CommandLine
