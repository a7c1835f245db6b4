/-
# The core

The memory that all warriors share: a ring of instructions. Reading and
writing take any address and use the cell at its remainder. A core made by
`Core.make` has at least one cell; a core without cells can still be written
down (it reads as neutral everywhere and ignores writes).

Key definitions: `Core`, `Core.make`, `Core.read`, `Core.write`,
`Core.modify`, `Core.offset`, `Core.occupied`.
-/
import CoreWar.Address

namespace CoreWar

/-- The shared memory. -/
structure Core where
  cells : Array Instruction
  deriving DecidableEq

namespace Core

/-- Why a core cannot be made. -/
inductive SizeError
  | zero
  deriving DecidableEq

def SizeError.message : SizeError → String
  | zero => "core size must be non-zero"

/-- The size of a core when nothing else is asked for. -/
def standardSize : UInt64 := 8000

/-- A core of `size` neutral cells. -/
def blank (size : Nat) : Core := ⟨Array.replicate size .neutral⟩

/-- A core of `size` neutral cells, of which there must be at least one. -/
def make (size : Nat) : Except SizeError Core :=
  if size = 0 then .error .zero else .ok (blank size)

/-- The number of cells. -/
def size (core : Core) : Nat := core.cells.size

/-- The index of the cell that `a` names. -/
def index (core : Core) (a : Address) : Nat := a.toNat % core.size

/-- The content of the cell that `a` names. -/
def read (core : Core) (a : Address) : Instruction :=
  core.cells.getD (core.index a) .neutral

/-- Replace the content of the cell that `a` names. -/
def write (core : Core) (a : Address) (i : Instruction) : Core :=
  let k := core.index a
  ⟨core.cells.setIfInBounds k i⟩

/-- Change the content of the cell that `a` names. -/
def modify (core : Core) (a : Address) (f : Instruction → Instruction) : Core :=
  let k := core.index a
  ⟨core.cells.modify k f⟩

/-- The cell `delta` away from `base`. -/
def offset (core : Core) (base : Address) (delta : Field) : Address :=
  CoreWar.offset core.size base delta

/-- The number of cells that are not neutral. -/
def occupied (core : Core) : Nat :=
  core.cells.foldl (fun n i => if i = .neutral then n else n + 1) 0

/-- One line about the core's extent. -/
def summary (core : Core) : String :=
  "Core \x7b occupied_cells: " ++ toString core.occupied ++
    ", total_cells: " ++ toString core.size ++ " \x7d"

end Core

end CoreWar
