/-
# The records of a battle in JSON

Verdicts and eliminations are variants; incidents, warriors and snapshots are
records with all their fields.

Key definitions: `Verdict.ofJson?`, `Elimination.ofJson?`,
`Incident.ofJson?`, `Warrior.ofJson?`, `WarriorState.ofJson?`,
`Snapshot.ofJson?` and their `toJson`.
-/
import CoreWar.Battle
import CoreWar.Codec.Instruction

namespace CoreWar

open Json (required)

namespace Verdict

def toJson : Verdict → Json.Value
  | winner w => .ofVariant "Winner" (.ofRecord [("warrior", .ofWord w)])
  | draw ids => .ofVariant "Draw" (.ofRecord [("survivors", .ofList .ofWord ids)])
  | extinct => .ofText "Extinct"

def ofJson? (v : Json.Value) : Option Verdict :=
  if v.tag? = some "Extinct" then some extinct
  else match v.variant? with
    | some ("Winner", content) =>
      match content.record? ["warrior"] with
      | some [w] => (required Json.Value.word? w).map winner
      | _ => none
    | some ("Draw", content) =>
      match content.record? ["survivors"] with
      | some [ids] => (required (Json.Value.listOf? Json.Value.word?) ids).map draw
      | _ => none
    | _ => none

end Verdict

namespace Elimination

def toJson (e : Elimination) : Json.Value :=
  .ofVariant "Eliminated" (.ofRecord [("warrior", .ofWord e.warrior), ("cycle", .ofWord e.cycle)])

def ofJson? (v : Json.Value) : Option Elimination :=
  match v.variant? with
  | some ("Eliminated", content) =>
    match content.record? ["warrior", "cycle"] with
    | some [warrior, cycle] => do
      let warrior ← required Json.Value.word? warrior
      let cycle ← required Json.Value.word? cycle
      return ⟨warrior, cycle⟩
    | _ => none
  | _ => none

end Elimination

namespace Incident

def toJson (i : Incident) : Json.Value :=
  .ofRecord [("cycle", .ofWord i.cycle), ("warrior", .ofWord i.warrior), ("pc", .ofWord i.pc),
    ("error", i.fault.toJson)]

def ofJson? (v : Json.Value) : Option Incident :=
  match v.record? ["cycle", "warrior", "pc", "error"] with
  | some [cycle, warrior, pc, fault] => do
    let cycle ← required Json.Value.word? cycle
    let warrior ← required Json.Value.word? warrior
    let pc ← required Json.Value.word? pc
    let fault ← required Fault.ofJson? fault
    return ⟨cycle, warrior, pc, fault⟩
  | _ => none

end Incident

namespace Warrior

def toJson (w : Warrior) : Json.Value :=
  .ofRecord [("id", .ofWord w.id), ("queue", .ofList .ofWord w.queue.toList)]

def ofJson? (v : Json.Value) : Option Warrior :=
  match v.record? ["id", "queue"] with
  | some [id, queue] => do
    let id ← required Json.Value.word? id
    let queue ← required (Json.Value.listOf? Json.Value.word?) queue
    return ⟨id, .ofList queue⟩
  | _ => none

end Warrior

namespace WarriorState

def toJson (w : WarriorState) : Json.Value :=
  .ofRecord [("id", .ofWord w.id), ("alive", .bool w.alive), ("queue", .ofList .ofWord w.queue)]

def ofJson? (v : Json.Value) : Option WarriorState :=
  match v.record? ["id", "alive", "queue"] with
  | some [id, alive, queue] => do
    let id ← required Json.Value.word? id
    let alive ← required Json.Value.bool? alive
    let queue ← required (Json.Value.listOf? Json.Value.word?) queue
    return ⟨id, alive, queue⟩
  | _ => none

end WarriorState

namespace Snapshot

def toJson (s : Snapshot) : Json.Value :=
  .ofRecord [("cycle", .ofWord s.cycle), ("memory", .ofList Instruction.toJson s.memory.toList),
    ("warriors", .ofList WarriorState.toJson s.warriors)]

def ofJson? (v : Json.Value) : Option Snapshot :=
  match v.record? ["cycle", "memory", "warriors"] with
  | some [cycle, memory, warriors] => do
    let cycle ← required Json.Value.word? cycle
    let memory ← required (Json.Value.listOf? Instruction.ofJson?) memory
    let warriors ← required (Json.Value.listOf? WarriorState.ofJson?) warriors
    return ⟨cycle, memory.toArray, warriors⟩
  | _ => none

end Snapshot

end CoreWar
