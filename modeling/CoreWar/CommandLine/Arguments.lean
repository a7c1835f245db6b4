/-
# Arguments

The command line is a command, `run` or `check`, then options and warrior
files in any order. A long option takes its value behind `=` or as the next
argument, the short one behind it, behind `=` or as the next argument; a next
argument that starts with a dash (and is more than a dash) is no value. Each
option may be given once, except for the start positions, which add up. Behind
`--` every argument is a file.

Reading is a left fold of `Reader.step` over the arguments; whatever does not
fit is bad usage.

Key definitions: `Request`, `Options`, `Reader.step`, `Request.ofArguments?`.
-/
import CoreWar.Settings

namespace CoreWar.CommandLine

/-- What to do with the warriors. -/
inductive Command
  /-- Fight the battle. -/
  | run
  /-- Only load the warriors and tell where they start. -/
  | check
  deriving DecidableEq

/-- What follows the command. -/
structure Options where
  files : List String := []
  settingsFile : Option String := none
  coreSize : Option UInt64 := none
  cycles : Option UInt64 := none
  seed : Option UInt64 := none
  start : Option (List UInt64) := none
  /-- Log every executed instruction. -/
  trace : Bool := false
  /-- Print the final state. -/
  snapshot : Bool := false
  deriving DecidableEq

/-- What a command line asks for. -/
inductive Request
  | version
  | perform (command : Command) (options : Options)
  deriving DecidableEq

/-- The options that take a value. -/
inductive Parameter
  | settingsFile | coreSize | cycles | seed | start
  deriving DecidableEq

/-- A decimal number of 64 bits, with or without a plus sign. -/
def decimal? (s : String) : Option UInt64 :=
  let digits := match s.toList with
    | '+' :: ds => ds
    | ds => ds
  let n := Nat.ofDigitChars 10 digits 0
  if digits ≠ [] ∧ digits.all Char.isDigit ∧ n < UInt64.size then some (UInt64.ofNat n) else none

namespace Options

/-- Set an option that may be given once. -/
def once (old : Option α) (new : Option α) : Option (Option α) :=
  match old with
  | none => new.map some
  | some _ => none

/-- Give an option its value. -/
def assign (o : Options) (p : Parameter) (value : String) : Option Options :=
  match p with
  | .settingsFile => (once o.settingsFile (some value)).map ({ o with settingsFile := · })
  | .coreSize => (once o.coreSize (decimal? value)).map ({ o with coreSize := · })
  | .cycles => (once o.cycles (decimal? value)).map ({ o with cycles := · })
  | .seed => (once o.seed (decimal? value)).map ({ o with seed := · })
  | .start =>
    ((value.splitOn ",").mapM decimal?).map fun ns =>
      { o with start := some (o.start.getD [] ++ ns) }

def setTrace (o : Options) : Option Options :=
  if o.trace then none else some { o with trace := true }

def setSnapshot (o : Options) : Option Options :=
  if o.snapshot then none else some { o with snapshot := true }

end Options

namespace Reader

/-- The options so far and what the next argument is. -/
inductive Next
  /-- An option or a file. -/
  | any
  /-- The value of an option. -/
  | value (p : Parameter)
  /-- A file. -/
  | file
  deriving DecidableEq

structure State where
  options : Options
  next : Next

def start : State := ⟨{}, .any⟩

/-- The option of a long name. -/
def parameter? : String → Option Parameter
  | "config" => some .settingsFile
  | "core-size" => some .coreSize
  | "cycles" => some .cycles
  | "seed" => some .seed
  | "start" => some .start
  | _ => none

/-- An option with its value, or one that waits for it. -/
def withValue (o : Options) (p : Parameter) : Option String → Option State
  | some value => (o.assign p value).map (⟨·, .any⟩)
  | none => some ⟨o, .value p⟩

/-- A long option; `body` is what stands behind the two dashes. -/
def long (command : Command) (o : Options) (body : List Char) : Option State :=
  let name := String.ofList (body.takeWhile (· ≠ '='))
  let value := match body.dropWhile (· ≠ '=') with
    | [] => none
    | _ :: cs => some (String.ofList cs)
  match parameter? name with
  | some p => withValue o p value
  | none =>
    if command = .run ∧ value = none then
      if name = "trace" then o.setTrace.map (⟨·, .any⟩)
      else if name = "snapshot" then o.setSnapshot.map (⟨·, .any⟩)
      else none
    else none

/-- Short options; `body` is what stands behind the dash. -/
def short (command : Command) (o : Options) : List Char → Option State
  | [] => some ⟨o, .any⟩
  | 't' :: cs =>
    if command = .run then o.setTrace.bind fun o => short command o cs else none
  | 'c' :: cs =>
    withValue o .settingsFile (match cs with
      | [] => none
      | '=' :: cs => some (String.ofList cs)
      | cs => some (String.ofList cs))
  | _ => none

/-- Take in one argument. -/
def step (command : Command) (s : State) (arg : String) : Option State :=
  let file : State := ⟨{ s.options with files := s.options.files ++ [arg] }, s.next⟩
  match s.next, arg.toList with
  | .file, _ => some file
  | .any, ['-', '-'] => some { s with next := .file }
  | .any, '-' :: '-' :: body => long command s.options body
  | .any, '-' :: c :: body => short command s.options (c :: body)
  | .any, _ => some file
  | .value _, '-' :: _ :: _ => none
  | .value p, _ => (s.options.assign p arg).map (⟨·, .any⟩)

/-- The options when the arguments end here: no value may be missing and there
must be a file. -/
def finish (s : State) : Option Options :=
  match s.next with
  | .value _ => none
  | _ => if s.options.files.isEmpty then none else some s.options

end Reader

/-- The options of a command. -/
def Options.ofArguments? (command : Command) (args : List String) : Option Options :=
  (args.foldlM (Reader.step command) Reader.start).bind Reader.finish

/-- What the arguments ask for; none when they are bad usage. -/
def Request.ofArguments? : List String → Option Request
  | [] => none
  | "run" :: args => (Options.ofArguments? .run args).map (.perform .run)
  | "check" :: args => (Options.ofArguments? .check args).map (.perform .check)
  | first :: _ =>
    match first.toList with
    | '-' :: 'V' :: _ => some .version
    | _ => if first = "--version" then some .version else none

end CoreWar.CommandLine
