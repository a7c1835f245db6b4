/-
# Settings

What a battle depends on besides the programs. Every setting has a standard
value, and a builder that replaces it.

Key definitions: `Settings`, `Settings.standard`.
-/
import CoreWar.Core

namespace CoreWar

/-- The number of turns before a draw when nothing else is asked for. -/
def standardLimit : UInt64 := 80000

structure Settings where
  /-- The number of cells. -/
  coreSize : UInt64 := Core.standardSize
  /-- The number of turns before a draw; none for no limit. -/
  cycleLimit : Option UInt64 := some standardLimit
  /-- Where each program is placed, when that is chosen by hand. -/
  startPositions : Option (List Address) := none
  /-- Where the first program is placed otherwise. -/
  baseOffset : Address := 0
  /-- When set, the place of the first program is drawn with this seed instead. -/
  seed : Option UInt64 := none
  deriving DecidableEq

namespace Settings

def standard : Settings := {}

def withCoreSize (s : Settings) (size : UInt64) : Settings := { s with coreSize := size }

def withCycleLimit (s : Settings) (limit : Option UInt64) : Settings :=
  { s with cycleLimit := limit }

def withStartPositions (s : Settings) (positions : List Address) : Settings :=
  { s with startPositions := some positions }

def withBaseOffset (s : Settings) (offset : Address) : Settings := { s with baseOffset := offset }

def withSeed (s : Settings) (seed : UInt64) : Settings := { s with seed := some seed }

end Settings

end CoreWar
