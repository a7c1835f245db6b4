/-
# Settings in JSON

A record in which every field may be missing. Each field has its own value for
that case: the cycle limit the standard one, the positions and the seed none.
These three may be null too, which means none for all of them.

Key definitions: `Settings.toJson`, `Settings.ofJson?`, `Settings.parse?`.
-/
import CoreWar.Json.Record
import CoreWar.Settings

namespace CoreWar.Settings

open Json (optional)

/-- The fields of the record, in order. -/
def fieldNames : List String :=
  ["core_size", "cycle_limit", "start_positions", "base_offset", "seed"]

def toJson (s : Settings) : Json.Value :=
  .ofRecord [("core_size", .ofWord s.coreSize),
    ("cycle_limit", .ofOption .ofWord s.cycleLimit),
    ("start_positions", .ofOption (.ofList .ofWord) s.startPositions),
    ("base_offset", .ofWord s.baseOffset),
    ("seed", .ofOption .ofWord s.seed)]

/-- The number of cells when the field is missing. -/
def missingCoreSize : UInt64 := Core.standardSize

/-- The cycle limit when the field is missing. -/
def missingCycleLimit : Option UInt64 := some standardLimit

def ofJson? (v : Json.Value) : Option Settings :=
  match v.record? fieldNames with
  | some [coreSize, cycleLimit, startPositions, baseOffset, seed] => do
    let coreSize ← optional missingCoreSize Json.Value.word? coreSize
    let cycleLimit ← optional missingCycleLimit (Json.Value.nullable? Json.Value.word?) cycleLimit
    let startPositions ← optional none
      (Json.Value.nullable? (Json.Value.listOf? Json.Value.word?)) startPositions
    let baseOffset ← optional 0 Json.Value.word? baseOffset
    let seed ← optional none (Json.Value.nullable? Json.Value.word?) seed
    return { coreSize, cycleLimit, startPositions, baseOffset, seed }
  | _ => none

/-- Read settings from their text. -/
def parse? (text : String) : Option Settings := (Json.Value.parse? text).bind ofJson?

end CoreWar.Settings
