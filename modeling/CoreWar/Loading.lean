/-
# Loading

Programs become an arena: a core that holds their images and a warrior for
each. The stages, each of which can fail, are: there are programs and cells,
every program has an instruction, the programs have places, and every program
can be linked at its place.

Key definitions: `LoadError`, `Arena`, `Job`, `plan`, `load`, `linked`,
`Battle.load`.
-/
import CoreWar.Battle
import CoreWar.Image
import CoreWar.Placement

namespace CoreWar

/-- Why programs cannot be loaded. Warriors and statements are named by their
positions. -/
inductive LoadError
  | placement (e : PlacementError)
  | statement (warrior index : Nat) (cause : StatementError)
  | emptyProgram (warrior : Nat)
  deriving DecidableEq

namespace StatementError

def message : StatementError → String
  | symbol (.unresolved name) => "unresolved symbol `" ++ name ++ "`"
  | symbol .divisionByZero => "division by zero"
  | symbol (.duplicate name) => "symbol `" ++ name ++ "` defined twice"
  | unlabeledConstant => "EQU without a label"

end StatementError

namespace LoadError

def message : LoadError → String
  | placement e => "placement failed: " ++ e.message
  | statement warrior index cause =>
    "warrior " ++ toString warrior ++ ", statement " ++ toString index ++ ": " ++ cause.message
  | emptyProgram warrior => "warrior " ++ toString warrior ++ " has no instructions"

end LoadError

/-- A core and the warriors in it, ready to start. -/
structure Arena where
  core : Core
  warriors : List Warrior
  deriving DecidableEq

/-- A program that has its place but is not linked yet. -/
structure Job where
  warrior : Nat
  program : Program
  origin : Address

/-- The jobs of loading `programs`, in order. -/
def plan (programs : List Program) (s : Settings) : Except LoadError (List Job) :=
  if programs.isEmpty then .error (.placement .noPrograms)
  else if s.coreSize = 0 then .error (.placement .emptyCore)
  else match programs.findIdx? fun p => p.footprint = 0 with
    | some warrior => .error (.emptyProgram warrior)
    | none =>
      match place (programs.map fun p => UInt64.ofNat p.footprint) s with
      | .error e => .error (.placement e)
      | .ok positions =>
        .ok ((programs.zip positions).zipIdx.map fun ((p, origin), i) => ⟨i, p, origin⟩)

/-- Link a program at its place. -/
def Job.link (size : Nat) (j : Job) : Except LoadError Image :=
  (CoreWar.link size j.program j.origin).mapError fun (index, cause) =>
    .statement j.warrior index cause

/-- Write an image. -/
def Core.install (core : Core) (image : Image) : Core :=
  image.cells.foldl (fun core cell => core.write cell.1 cell.2) core

/-- Load programs, one for each warrior. -/
def load (programs : List Program) (s : Settings) : Except LoadError Arena :=
  (plan programs s).bind fun jobs =>
    (jobs.mapM (Job.link s.coreSize.toNat)).map fun images =>
      { core := images.foldl .install (.blank s.coreSize.toNat)
        warriors := images.zipIdx.map fun (image, i) => .start (UInt64.ofNat i) image.start }

/-- The jobs that loading gets done, with their images: all of them, or those
before the first that fails. -/
def linked (programs : List Program) (s : Settings) : List (Job × Image) :=
  match plan programs s with
  | .error _ => []
  | .ok jobs =>
    (jobs.map fun j => ((j.link s.coreSize.toNat).toOption.map (j, ·))).takeWhile Option.isSome
      |>.filterMap id

/-- Load programs and start the battle. -/
def Battle.load (programs : List Program) (s : Settings) : Except LoadError Battle :=
  (CoreWar.load programs s).map fun arena => .ofParts arena.core arena.warriors s.cycleLimit

end CoreWar
