/-
# Operands

Resolving an operand turns its mode and field into the raw field (immediate)
or the address of a cell. Indirection is one level deep and goes through the
B-field of the cell that the field leads to, for either operand;
autodecrement takes one from that B-field first, which is the only way in
which resolving changes the core.

Key definitions: `Operand`, `Core.resolve`.
-/
import CoreWar.Core

namespace CoreWar

/-- What an operand comes to. -/
inductive Operand
  | immediate (value : Field)
  | address (a : Address)
  deriving DecidableEq

namespace Operand

/-- The address, unless the operand is immediate. -/
def address? : Operand → Option Address
  | immediate _ => none
  | address a => some a

/-- The number an operand contributes to a test: the raw field of an immediate
operand, else the B-field of the addressed cell. -/
def value (core : Core) : Operand → Field
  | immediate v => v
  | address a => (core.read a).bField

end Operand

/-- Take one from a cell's B-field. -/
def Instruction.decrement (i : Instruction) : Instruction :=
  { i with bField := i.bField - 1 }

/-- Resolve one operand of the instruction at `pc`. -/
def Core.resolve (core : Core) (pc : Address) (mode : Mode) (field : Field) : Operand × Core :=
  match mode with
  | .immediate => (.immediate field, core)
  | .direct => (.address (core.offset pc field), core)
  | .indirect =>
    let pointer := core.offset pc field
    (.address (core.offset pointer (core.read pointer).bField), core)
  | .autodecrement =>
    let pointer := core.offset pc field
    let core := core.modify pointer .decrement
    (.address (core.offset pointer (core.read pointer).bField), core)

end CoreWar
