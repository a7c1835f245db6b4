/-
# Instructions

A core is an array of instructions. An instruction is an opcode and two
operands, A and B; an operand is an addressing mode and a signed 64-bit
field. Fields wrap around at the ends of their range.

The printed form is the opcode, a blank, and the operands separated by a
comma and a blank; each operand is the sigil of its mode and the field in
decimal: `MOV 0, @2`.

Key definitions: `Opcode`, `Mode`, `Instruction`, `Instruction.neutral`,
`Instruction.text`.
-/

namespace CoreWar

/-- The number in an operand. -/
abbrev Field := Int64

/-- The executable operations. -/
inductive Opcode
  | dat | mov | add | sub | jmp | jmz | jmn | djn | cmp | slt | spl
  deriving DecidableEq

namespace Opcode

/-- Every opcode, in the order of the instruction set. -/
def all : List Opcode := [dat, mov, add, sub, jmp, jmz, jmn, djn, cmp, slt, spl]

def name : Opcode → String
  | dat => "DAT"
  | mov => "MOV"
  | add => "ADD"
  | sub => "SUB"
  | jmp => "JMP"
  | jmz => "JMZ"
  | jmn => "JMN"
  | djn => "DJN"
  | cmp => "CMP"
  | slt => "SLT"
  | spl => "SPL"

end Opcode

/-- How an operand's field leads to a value or a cell. -/
inductive Mode
  /-- The field is a displacement from the executing cell. -/
  | direct
  /-- The field is the value itself. -/
  | immediate
  /-- The field leads to a cell whose B-field is a further displacement. -/
  | indirect
  /-- As `indirect`, after one is taken from that B-field. -/
  | autodecrement
  deriving DecidableEq

namespace Mode

/-- Every mode. -/
def all : List Mode := [direct, immediate, indirect, autodecrement]

instance : Inhabited Mode := ⟨direct⟩

/-- The mark in front of a printed field. -/
def sigil : Mode → String
  | direct => ""
  | immediate => "#"
  | indirect => "@"
  | autodecrement => "<"

def isImmediate : Mode → Bool
  | immediate => true
  | _ => false

end Mode

/-- The content of one cell. -/
structure Instruction where
  opcode : Opcode
  aMode : Mode
  aField : Field
  bMode : Mode
  bField : Field
  deriving DecidableEq

namespace Instruction

/-- What an untouched cell holds. -/
def neutral : Instruction := ⟨.dat, .immediate, 0, .immediate, 0⟩

instance : Inhabited Instruction := ⟨neutral⟩

/-- An operand as it is printed: sigil, then field. -/
def operandText (mode : Mode) (field : Field) : String :=
  mode.sigil ++ toString field.toInt

/-- The printed form. -/
def text (i : Instruction) : String :=
  i.opcode.name ++ " " ++ operandText i.aMode i.aField ++ ", " ++ operandText i.bMode i.bField

end Instruction

end CoreWar
