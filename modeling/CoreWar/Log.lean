/-
# The log

Loading and fighting are reported in log entries: a level, the part of the
program that speaks, and a message with its values. Only entries from a chosen
level on are shown.

Key definitions: `Log.Level`, `Log.Threshold`, `Log.Entry`, `Log.Entry.line`,
`Log.ofLoading`, `Log.ofTurn`.
-/
import CoreWar.Loading
import CoreWar.Log.Quoted

namespace CoreWar

namespace Log

inductive Level
  | trace | debug | info | warn | error
  deriving DecidableEq

namespace Level

/-- Every level. -/
def all : List Level := [trace, debug, info, warn, error]

def rank : Level → Nat
  | trace => 0
  | debug => 1
  | info => 2
  | warn => 3
  | error => 4

def name : Level → String
  | trace => "TRACE"
  | debug => "DEBUG"
  | info => "INFO"
  | warn => "WARN"
  | error => "ERROR"

end Level

/-- From which level on entries are shown. -/
inductive Threshold
  | level (l : Level)
  /-- Nothing is shown. -/
  | off
  deriving DecidableEq

namespace Threshold

/-- The threshold that a word asks for, in any case of its letters. -/
def ofWord? (word : String) : Option Threshold :=
  if word.toUpper == "OFF" then some off
  else (Level.all.find? (·.name == word.toUpper)).map level

def shows : Threshold → Level → Bool
  | level l, l' => l.rank ≤ l'.rank
  | off, _ => false

end Threshold

/-- The part of the program that speaks. -/
inductive Source
  | loading | battle
  deriving DecidableEq

def Source.name : Source → String
  | loading => "mars::asm::loader"
  | battle => "mars::vm::mars"

/-- What can be reported. -/
inductive Entry
  /-- A program asks to start at a label that it does not have. -/
  | unknownEntry (warrior : Nat) (label : String)
  /-- A program was loaded. -/
  | loaded (warrior : Nat) (origin start : Address) (cells : Nat)
  /-- An instruction was executed. -/
  | executed (cycle warrior : UInt64) (pc : Address) (instruction : Instruction)
  /-- The executed instruction was disallowed. -/
  | incident (i : Incident)
  /-- A warrior lost its last process. -/
  | elimination (e : Elimination)
  /-- The battle is over. -/
  | verdict (cycle : UInt64) (v : Verdict)
  deriving DecidableEq

/-- The verdict as it stands in the log. -/
def verdictText : Verdict → String
  | .winner w => "Winner \x7b warrior: " ++ toString w.toNat ++ " \x7d"
  | .draw ids =>
    "Draw \x7b survivors: [" ++ ", ".intercalate (ids.map fun id => toString id.toNat) ++ "] \x7d"
  | .extinct => "Extinct"

namespace Entry

def level : Entry → Level
  | unknownEntry .. => .warn
  | loaded .. => .info
  | executed .. => .debug
  | incident _ => .warn
  | elimination _ => .info
  | verdict .. => .info

def source : Entry → Source
  | unknownEntry .. | loaded .. => .loading
  | _ => .battle

def message : Entry → String
  | unknownEntry .. => "END names an unknown label; starting at first cell"
  | loaded .. => "loaded warrior"
  | executed .. => "executed"
  | incident _ => "invalid operand"
  | elimination _ => "warrior eliminated"
  | verdict .. => "match over"

/-- The values behind the message, each with its name. -/
def values : Entry → List (String × String)
  | unknownEntry warrior label => [("warrior", toString warrior), ("label", quoted label)]
  | loaded warrior origin start cells =>
    [("warrior", toString warrior), ("origin", toString origin.toNat),
      ("start", toString start.toNat), ("cells", toString cells)]
  | executed cycle warrior pc instruction =>
    [("cycle", toString cycle.toNat), ("warrior", toString warrior.toNat),
      ("pc", toString pc.toNat), ("instruction", instruction.text)]
  | incident i =>
    [("cycle", toString i.cycle.toNat), ("warrior", toString i.warrior.toNat),
      ("pc", toString i.pc.toNat), ("error", i.fault.message)]
  | elimination e =>
    [("cycle", toString e.cycle.toNat), ("warrior", toString e.warrior.toNat)]
  | verdict cycle v => [("cycle", toString cycle.toNat), ("outcome", verdictText v)]

/-- The line of an entry. -/
def line (e : Entry) : String :=
  e.level.name ++ " " ++ e.source.name ++ ": " ++ e.message ++
    String.join (e.values.map fun v => " " ++ v.1 ++ "=" ++ v.2)

end Entry

/-- The log of loading one program. -/
def ofLoading (job : Job) (image : Image) : List Entry :=
  (image.unknownEntry.map (.unknownEntry job.warrior)).toList ++
    [.loaded job.warrior job.origin image.start job.program.footprint]

/-- The log of one turn: the executed instruction, its fault, the elimination and
the verdict, as far as there are any. -/
def ofTurn (t : Turn) : List Entry :=
  (t.step.map fun s => .executed t.cycle t.warrior s.pc s.instruction).toList ++
    (t.incident?.map .incident).toList ++ (t.elimination?.map .elimination).toList ++
    (t.verdict.map (.verdict t.cycle)).toList

end Log

end CoreWar
