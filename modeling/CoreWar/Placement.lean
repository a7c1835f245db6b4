/-
# Placement

Where in the core each program is loaded. Positions chosen by hand are reduced
to the core and must not let two programs overlap. Otherwise the programs
follow each other from a base, with an equal share of the free cells behind
each.

Key definitions: `PlacementError`, `Placement.overlap`,
`Placement.firstOverlap?`, `Placement.layOut`, `place`.
-/
import CoreWar.Settings
import CoreWar.Placement.Generator

namespace CoreWar

/-- Why programs cannot be placed. -/
inductive PlacementError
  | emptyCore
  | noPrograms
  | tooLarge (needed available : UInt64)
  | positionCount (expected actual : Nat)
  | overlap (first second : Nat)
  deriving DecidableEq

def PlacementError.message : PlacementError → String
  | emptyCore => "core size must be non-zero"
  | noPrograms => "no programs to load"
  | tooLarge needed available =>
    "programs need " ++ toString needed.toNat ++ " cells but the core has " ++
      toString available.toNat
  | positionCount expected actual =>
    "expected " ++ toString expected ++ " start positions, got " ++ toString actual
  | overlap first second =>
    "warriors " ++ toString first ++ " and " ++ toString second ++ " overlap"

namespace Placement

/-- A stretch of the core: its first cell and its number of cells. -/
structure Region where
  origin : Address
  length : UInt64
  deriving DecidableEq

/-- How many cells lie from `a` forward to `b`; both are below `size`. -/
def ahead (size : UInt64) (a b : Address) : UInt64 := (b + size - a) % size

/-- Do two regions share a cell? One of them then begins inside the other. -/
def overlap (size : UInt64) (p q : Region) : Bool :=
  ahead size p.origin q.origin < p.length || ahead size q.origin p.origin < q.length

/-- The first pair of regions that share a cell. -/
def firstOverlap? (size : UInt64) (regions : List Region) : Option (Nat × Nat) :=
  regions.zipIdx.findSome? fun (p, i) =>
    (regions.zipIdx.drop (i + 1)).findSome? fun (q, j) =>
      if overlap size p q then some (i, j) else none

/-- Programs of the given lengths laid out from `base`, `gap` free cells behind each. -/
def layOut (size gap : UInt64) (base : Address) : List UInt64 → List Address
  | [] => []
  | length :: lengths =>
    let origin := base % size
    origin :: layOut size gap (origin + length + gap) lengths

/-- The number of draws that may be thrown away. -/
def patience : Nat := 1024

/-- Where the first program goes when no positions are chosen by hand. -/
def base (s : Settings) : Address :=
  match s.seed with
  | some seed => Generator.below s.coreSize patience (.ofSeed seed)
  | none => s.baseOffset % s.coreSize

end Placement

open Placement in
/-- A position for each program, given the lengths of the programs. -/
def place (lengths : List UInt64) (s : Settings) : Except PlacementError (List Address) :=
  let size := s.coreSize
  let needed := lengths.foldl (· + ·) 0
  if size = 0 then .error .emptyCore
  else if lengths.isEmpty then .error .noPrograms
  else if size < needed then .error (.tooLarge needed size)
  else match s.startPositions with
    | some chosen =>
      if chosen.length ≠ lengths.length then
        .error (.positionCount lengths.length chosen.length)
      else
        let positions := chosen.map (· % size)
        match firstOverlap? size (positions.zipWith Region.mk lengths) with
        | some (first, second) => .error (.overlap first second)
        | none => .ok positions
    | none =>
      let gap := (size - needed) / UInt64.ofNat lengths.length
      .ok (layOut size gap (base s) lengths)

end CoreWar
