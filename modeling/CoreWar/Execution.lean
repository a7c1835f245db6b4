/-
# Executing one instruction

A process runs the instruction at its program counter and is replaced by no,
one or two successors. The rules:

* `DAT` ends the process and resolves nothing.
* A disallowed instruction (`Instruction.fault?`) does nothing: the process
  goes on at the next cell and the fault is reported.
* Every other instruction resolves A, then B, from the instruction as it was
  fetched, and then has its effect (`Instruction.effect`).

Key definitions: `Fault`, `Successors`, `Step`, `Instruction.fault?`,
`Instruction.effect`, `Core.step`, `Warrior.act`.
-/
import CoreWar.Operand
import CoreWar.Warrior

namespace CoreWar

/-- Which operand of an instruction. -/
inductive Slot
  | a | b
  deriving DecidableEq

namespace Slot

def all : List Slot := [a, b]

def name : Slot → String
  | a => "A"
  | b => "B"

end Slot

/-- An operand that is immediate where the opcode does not allow it. -/
structure Fault where
  opcode : Opcode
  slot : Slot
  deriving DecidableEq

def Fault.message (f : Fault) : String :=
  f.opcode.name ++ " cannot take an immediate " ++ f.slot.name ++ "-operand"

/-- The processes that replace the one that ran. -/
inductive Successors
  /-- The process ends. -/
  | none
  /-- The process goes on at `next`. -/
  | one (next : Address)
  /-- The process goes on at `next` and a new one starts at `child`. -/
  | two (next child : Address)
  deriving DecidableEq

/-- The successors in the order in which they join the queue. -/
def Successors.toList : Successors → List Address
  | none => []
  | one next => [next]
  | two next child => [next, child]

/-- The record of one executed instruction. -/
structure Step where
  /-- The program counter as it stood in the queue. -/
  pc : Address
  /-- The instruction as it was fetched. -/
  instruction : Instruction
  successors : Successors
  /-- Set when the instruction was disallowed. -/
  fault : Option Fault
  deriving DecidableEq

namespace Instruction

/-- The operand, if any, that makes the instruction disallowed: the target of an
arithmetic, counting or ordering instruction, and the destination of a jump or
split, may not be immediate. -/
def fault? (i : Instruction) : Option Fault :=
  match i.opcode with
  | .add | .sub | .djn | .slt => if i.bMode.isImmediate then some ⟨i.opcode, .b⟩ else none
  | .jmp | .jmz | .jmn | .spl => if i.aMode.isImmediate then some ⟨i.opcode, .a⟩ else none
  | .dat | .mov | .cmp => none

/-- The sum, or for `SUB` the difference, of two fields. -/
def combine (op : Opcode) (x y : Field) : Field :=
  if op = .sub then x - y else x + y

/-- The cell a write goes to: where B leads, or the executing cell when B is
immediate. -/
def target (pc : Address) (b : Operand) : Address := b.address?.getD pc

/-- Where a jump leads: to A when it is `taken`, else to `next`. -/
def jump (next : Address) (a : Operand) (taken : Bool) : Successors :=
  if taken then .one (a.address?.getD next) else .one next

/-- The core after `MOV`: a cell is copied, or, when an operand is immediate, the
A-field as fetched is stored in a B-field. -/
def move (i : Instruction) (pc : Address) (a b : Operand) (core : Core) : Core :=
  match a, b with
  | .address src, .address dst =>
    let copied := core.read src
    core.write dst copied
  | _, _ => core.modify (target pc b) fun cell => { cell with bField := i.aField }

/-- The core after `ADD` or `SUB`: an immediate A changes the B-field, an addressed
cell changes both fields by its own. -/
def arithmetic (op : Opcode) (pc : Address) (a b : Operand) (core : Core) : Core :=
  match a with
  | .immediate v =>
    core.modify (target pc b) fun cell => { cell with bField := combine op cell.bField v }
  | .address src =>
    let source := core.read src
    core.modify (target pc b) fun cell =>
      { cell with
        aField := combine op cell.aField source.aField
        bField := combine op cell.bField source.bField }

/-- The test of `CMP`: two cells are equal when both their fields are; against an
immediate operand only a B-field counts. -/
def equalOperands (core : Core) (a b : Operand) : Bool :=
  match a, b with
  | .immediate v, b => v == b.value core
  | .address src, .immediate v => (core.read src).bField == v
  | .address src, .address dst =>
    (core.read src).aField == (core.read dst).aField &&
      (core.read src).bField == (core.read dst).bField

/-- The test of `SLT`: an immediate A, or the A-field of its cell, lies below B. -/
def lessOperands (core : Core) (a b : Operand) : Bool :=
  match a with
  | .immediate v => v < b.value core
  | .address src => (core.read src).aField < b.value core

/-- What an allowed instruction other than `DAT` does once its operands are
resolved. -/
def effect (i : Instruction) (pc : Address) (a b : Operand) (core : Core) : Successors × Core :=
  let next := core.offset pc 1
  match i.opcode with
  | .dat => (.none, core)
  | .mov => (.one next, i.move pc a b core)
  | .add | .sub => (.one next, arithmetic i.opcode pc a b core)
  | .jmp => (jump next a true, core)
  | .jmz => (jump next a (b.value core == 0), core)
  | .jmn => (jump next a (b.value core != 0), core)
  | .djn =>
    let counter := target pc b
    let core := core.modify counter .decrement
    (jump next a ((core.read counter).bField == 0), core)
  | .cmp => (.one (if equalOperands core a b then core.offset pc 2 else next), core)
  | .slt => (.one (if lessOperands core a b then core.offset pc 2 else next), core)
  | .spl => ((a.address?.map (.two next)).getD (.one next), core)

end Instruction

/-- Run the instruction that `pc` names. -/
def Core.step (core : Core) (pc : Address) : Step × Core :=
  let i := core.read pc
  match i.fault?, i.opcode with
  | some fault, _ => (⟨pc, i, .one (core.offset pc 1), some fault⟩, core)
  | none, .dat => (⟨pc, i, .none, none⟩, core)
  | none, _ =>
    let (a, core) := core.resolve pc i.aMode i.aField
    let (b, core) := core.resolve pc i.bMode i.bField
    let (successors, core) := i.effect pc a b core
    (⟨pc, i, successors, none⟩, core)

/-- Run a warrior's front process. Without a process nothing happens. -/
def Warrior.act (w : Warrior) (core : Core) : Option Step × Warrior × Core :=
  match w.queue.pop? with
  | none => (none, w, core)
  | some (pc, queue) =>
    let (step, core) := core.step pc
    (some step, Warrior.spawn ⟨w.id, queue⟩ step.successors.toList, core)

end CoreWar
