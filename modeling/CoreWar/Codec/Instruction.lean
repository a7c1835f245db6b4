/-
# Instructions and faults in JSON

Opcodes, slots and modes are tags; instructions and faults are records with
all their fields.

Key definitions: `Opcode.ofJson?`, `Mode.ofJson?`, `Slot.ofJson?`,
`Instruction.ofJson?`, `Fault.ofJson?` and their `toJson`.
-/
import CoreWar.Execution
import CoreWar.Json.Record

namespace CoreWar

open Json (required)

namespace Opcode

def toJson (o : Opcode) : Json.Value := .ofText o.name

def ofJson? (v : Json.Value) : Option Opcode :=
  v.tag?.bind fun name => all.find? (·.name == name)

end Opcode

namespace Mode

/-- The name of a mode in a record. -/
def name : Mode → String
  | direct => "Direct"
  | immediate => "Immediate"
  | indirect => "Indirect"
  | autodecrement => "Autodecrement"

def toJson (m : Mode) : Json.Value := .ofText m.name

def ofJson? (v : Json.Value) : Option Mode :=
  v.tag?.bind fun name => all.find? (·.name == name)

end Mode

namespace Slot

def toJson (s : Slot) : Json.Value := .ofText s.name

def ofJson? (v : Json.Value) : Option Slot :=
  v.tag?.bind fun name => all.find? (·.name == name)

end Slot

namespace Instruction

/-- The fields of an instruction's record, in order. -/
def fieldNames : List String := ["opcode", "a_mode", "a_field", "b_mode", "b_field"]

def toJson (i : Instruction) : Json.Value :=
  .ofRecord [("opcode", i.opcode.toJson), ("a_mode", i.aMode.toJson), ("a_field", .ofField i.aField),
    ("b_mode", i.bMode.toJson), ("b_field", .ofField i.bField)]

def ofJson? (v : Json.Value) : Option Instruction :=
  match v.record? fieldNames with
  | some [opcode, aMode, aField, bMode, bField] => do
    let opcode ← required Opcode.ofJson? opcode
    let aMode ← required Mode.ofJson? aMode
    let aField ← required Json.Value.field? aField
    let bMode ← required Mode.ofJson? bMode
    let bField ← required Json.Value.field? bField
    return ⟨opcode, aMode, aField, bMode, bField⟩
  | _ => none

end Instruction

namespace Core

def toJson (core : Core) : Json.Value :=
  .ofRecord [("cells", .ofList Instruction.toJson core.cells.toList)]

def ofJson? (v : Json.Value) : Option Core :=
  match v.record? ["cells"] with
  | some [cells] => (required (Json.Value.listOf? Instruction.ofJson?) cells).map fun is => ⟨is.toArray⟩
  | _ => none

end Core

namespace Fault

def toJson (f : Fault) : Json.Value :=
  .ofRecord [("opcode", f.opcode.toJson), ("slot", f.slot.toJson)]

def ofJson? (v : Json.Value) : Option Fault :=
  match v.record? ["opcode", "slot"] with
  | some [opcode, slot] => do
    let opcode ← required Opcode.ofJson? opcode
    let slot ← required Slot.ofJson? slot
    return ⟨opcode, slot⟩
  | _ => none

end Fault

end CoreWar
