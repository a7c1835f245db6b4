/-
# Programs in JSON

A program is an array of statements. A statement is a record in which only the
mnemonic must be given; a missing label or comment is left out when printed.
An expression is an integer, a string (a name) or an object with an operator
and two operands, and everything inside it is checked, also what is skipped.

Key definitions: `Expression.ofJson?`, `Statement.ofJson?`,
`Program.ofJson?`, `Program.parse?` and their `toJson`.
-/
import CoreWar.Codec.Instruction
import CoreWar.Program

namespace CoreWar

open Json (required optional)

namespace Operator

def toJson (o : Operator) : Json.Value := .ofText o.name

def ofJson? (v : Json.Value) : Option Operator :=
  v.tag?.bind fun name => all.find? (·.name == name)

end Operator

namespace Mnemonic

def toJson (m : Mnemonic) : Json.Value := .ofText m.name

def ofJson? (v : Json.Value) : Option Mnemonic :=
  v.tag?.bind fun name => all.find? (·.name == name)

end Mnemonic

namespace Expression

def toJson : Expression → Json.Value
  | literal v => .ofField v
  | symbol name => .ofText name
  | binary op left right =>
    .ofRecord [("operator", op.toJson), ("left", left.toJson), ("right", right.toJson)]

/-- Read an expression from a value that is already known to be sound, with at
most `room` objects inside each other. -/
def ofSound? : Nat → Json.Value → Option Expression
  | _, .number n => (Json.Value.field? (.number n)).map literal
  | _, .string s => s.map symbol
  | room + 1, .object fields =>
    match Json.Value.fields? ["operator", "left", "right"] fields with
    | some [operator, left, right] => do
      let operator ← required Operator.ofJson? operator
      let left ← required (ofSound? room) left
      let right ← required (ofSound? room) right
      return binary operator left right
    | _ => none
  | _, _ => none

/-- Read an expression in which at most `room` arrays and objects are open at once. -/
def ofJson? (room : Nat) (v : Json.Value) : Option Expression :=
  if v.isSound room then ofSound? room v else none

end Expression

namespace Statement

/-- The fields of a statement's record, in order. -/
def fieldNames : List String :=
  ["opcode", "label", "comment", "a_mode", "a_field", "b_mode", "b_field"]

/-- A field that is left out when it is missing. -/
def textField (name : String) (s : Option String) : List (String × Json.Value) :=
  (s.map fun s => (name, .ofText s)).toList

def toJson (s : Statement) : Json.Value :=
  .ofRecord ([("opcode", s.mnemonic.toJson)] ++ textField "label" s.label ++
    textField "comment" s.comment ++
    [("a_mode", s.aMode.toJson), ("a_field", s.aField.toJson),
      ("b_mode", s.bMode.toJson), ("b_field", s.bField.toJson)])

/-- Read a statement, with `room` arrays and objects that may be open in it and
itself. -/
def ofJson? (room : Nat) (v : Json.Value) : Option Statement :=
  match v.record? fieldNames with
  | some [mnemonic, label, comment, aMode, aField, bMode, bField] => do
    let mnemonic ← required Mnemonic.ofJson? mnemonic
    let label ← optional none (Json.Value.nullable? Json.Value.text?) label
    let comment ← optional none (Json.Value.nullable? Json.Value.text?) comment
    let aMode ← optional .direct Mode.ofJson? aMode
    let aField ← optional (.literal 0) (Expression.ofJson? (room - 1)) aField
    let bMode ← optional .direct Mode.ofJson? bMode
    let bField ← optional (.literal 0) (Expression.ofJson? (room - 1)) bField
    return { mnemonic, label, comment, aMode, aField, bMode, bField }
  | _ => none

end Statement

namespace Program

def toJson (p : Program) : Json.Value := .ofList Statement.toJson p

def ofJson? (room : Nat) (v : Json.Value) : Option Program :=
  v.listOf? (Statement.ofJson? (room - 1))

/-- Read a program from its text. -/
def parse? (text : String) : Option Program :=
  (Json.Value.parse? text).bind (ofJson? Json.depthLimit)

end Program

end CoreWar
