/-
# Images

The image of a program at an origin is what loading it writes: a cell for each
instruction, with its fields evaluated at the cell's own address, and the
address at which the warrior starts.

Linking goes over the statements twice. `outline` walks to the first `END`,
gives the labels of instructions their addresses and collects the constants.
The constants are then evaluated in order, each after the ones before it, and
last the fields of the instructions, so a field may use a name that is defined
further down.

Key definitions: `Outline`, `outline`, `Image`, `link`.
-/
import CoreWar.Program
import CoreWar.SymbolTable

namespace CoreWar

/-- What is wrong with a statement. -/
inductive StatementError
  | symbol (e : SymbolError)
  | unlabeledConstant
  deriving DecidableEq

/-- An instruction and its address, before its fields are evaluated. -/
structure Placed where
  /-- The position of the statement in its program. -/
  index : Nat
  address : Address
  opcode : Opcode
  statement : Statement

/-- A constant before it is evaluated. -/
structure Definition where
  /-- The position of the statement in its program. -/
  index : Nat
  name : String
  value : Expression
  /-- The address of the instruction that follows. -/
  address : Address

/-- What the first walk over a program learns. -/
structure Outline where
  /-- The labels of the instructions. -/
  labels : SymbolTable
  instructions : List Placed
  constants : List Definition
  /-- The name at which `END` asks to start. -/
  entry : Option String

/-- A failure at a statement: its position and what is wrong with it. -/
abbrev LinkFailure := Nat × StatementError

/-- Report a failure of the symbol table at the statement `index`. -/
def atStatement (index : Nat) (r : Except SymbolError α) : Except LinkFailure α :=
  r.mapError fun e => (index, .symbol e)

/-- Bind an instruction's label, if it has one. -/
def bindLabel (t : SymbolTable) (index : Nat) (here : Address) :
    Option String → Except LinkFailure SymbolTable
  | none => .ok t
  | some name => atStatement index (t.define name (.label here))

/-- Walk over the statements from position `index` and address `here` on. -/
def outline (size index : Nat) (here : Address) (t : SymbolTable) :
    Program → Except LinkFailure Outline
  | [] => .ok ⟨t, [], [], none⟩
  | s :: rest =>
    match s.mnemonic with
    | .op o =>
      (bindLabel t index here s.label).bind fun t =>
        (outline size (index + 1) (offset size here 1) t rest).map fun r =>
          { r with instructions := ⟨index, here, o, s⟩ :: r.instructions }
    | .equ =>
      match s.label with
      | none => .error (index, .unlabeledConstant)
      | some name =>
        (outline size (index + 1) here t rest).map fun r =>
          { r with constants := ⟨index, name, s.aField, here⟩ :: r.constants }
    | .finish => .ok ⟨t, [], [], s.aField.symbol?⟩

/-- Evaluate a constant and bind its name. -/
def Definition.bind (t : SymbolTable) (d : Definition) : Except LinkFailure SymbolTable :=
  (atStatement d.index (t.evaluate d.address d.value)).bind fun v =>
    atStatement d.index (t.define d.name (.constant v))

/-- Evaluate the fields of an instruction. -/
def Placed.cell (t : SymbolTable) (p : Placed) : Except LinkFailure (Address × Instruction) :=
  (atStatement p.index (t.evaluate p.address p.statement.aField)).bind fun a =>
    (atStatement p.index (t.evaluate p.address p.statement.bField)).map fun b =>
      (p.address, ⟨p.opcode, p.statement.aMode, a, p.statement.bMode, b⟩)

/-- What loading a program writes. -/
structure Image where
  cells : List (Address × Instruction)
  /-- Where the warrior starts. -/
  start : Address
  /-- The name at which `END` asks to start, if no instruction has it as its label. -/
  unknownEntry : Option String

/-- The image of a program at `origin` in a core of `size` cells. -/
def link (size : Nat) (program : Program) (origin : Address) : Except LinkFailure Image :=
  (outline size 0 origin .empty program).bind fun o =>
    (o.constants.foldlM Definition.bind o.labels).bind fun t =>
      (o.instructions.mapM (Placed.cell t)).map fun cells =>
        let found := o.entry.bind t.label?
        { cells
          start := found.getD origin
          unknownEntry := if found.isSome then none else o.entry }

end CoreWar
