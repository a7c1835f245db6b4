/-
# Programs

A program is a list of statements. A statement is an instruction whose fields
are expressions, or one of two directives: `EQU` gives the name in its label
the value of its A-field, and `END` closes the program and may name the place
to start in its A-field. Only instructions in front of the first `END` occupy
a cell.

Key definitions: `Mnemonic`, `Statement`, `Program`, `Program.footprint`.
-/
import CoreWar.Expression

namespace CoreWar

/-- The operation of a statement. -/
inductive Mnemonic
  | op (opcode : Opcode)
  /-- A constant, written `EQU`. -/
  | equ
  /-- The close of the program, written `END`. -/
  | finish
  deriving DecidableEq

namespace Mnemonic

/-- Every mnemonic. -/
def all : List Mnemonic := Opcode.all.map op ++ [equ, finish]

def name : Mnemonic → String
  | op o => o.name
  | equ => "EQU"
  | finish => "END"

/-- The opcode, unless the statement is a directive. -/
def opcode? : Mnemonic → Option Opcode
  | op o => some o
  | _ => none

end Mnemonic

structure Statement where
  mnemonic : Mnemonic
  label : Option String := none
  comment : Option String := none
  aMode : Mode := .direct
  aField : Expression := .literal 0
  bMode : Mode := .direct
  bField : Expression := .literal 0
  deriving DecidableEq

namespace Statement

/-- The directive that gives `name` the value of `value`. -/
def constant (name : String) (value : Expression) : Statement :=
  { mnemonic := .equ, label := some name, aField := value }

/-- The close of a program, with the name of the place to start. -/
def finish (entry : Option String) : Statement :=
  { mnemonic := .finish, aField := entry.elim (.literal 0) .symbol }

/-- Does the statement occupy a cell? -/
def occupies (s : Statement) : Bool := s.mnemonic.opcode?.isSome

end Statement

/-- The statements of one warrior. -/
abbrev Program := List Statement

/-- The statements in front of the first `END`. -/
def Program.body (p : Program) : Program := p.takeWhile fun s => s.mnemonic ≠ .finish

/-- The number of cells that a program occupies. -/
def Program.footprint (p : Program) : Nat := p.body.countP Statement.occupies

end CoreWar
