/-
# The records of a battle survive being printed

Each part of a record is printed in a way that its reader undoes, so the record
is: what is printed of a snapshot, a core, a warrior, an instruction, a verdict
or an entry of the logs is read back as the same value. A snapshot loses nothing
on the way either: it shows the cycle, the cells of the core at their
addresses, and of each warrior the number, whether it is alive, and its
processes in order (`Battle.snapshot_shows`). So the text of a snapshot tells
what the battle is (`state_texts`).

Key definitions: `Json.ReadsBack`, `Snapshot.Shows`.
Key theorems: `Instruction.survives`, `Verdict.survives`, `Snapshot.survives`,
`Battle.snapshot_shows`, `state_texts`.
-/
import CoreWar.Codec.Battle
import CoreWar.Proofs.ProgramTexts
import CoreWar.Proofs.Stepping

namespace CoreWar

open Json (Survives required)

/-! ### Instructions and faults -/

theorem Opcode.survives : Survives toJson ofJson? where
  read_write o := by cases o <;> rfl
  integral _ := .string _

theorem Mode.survives : Survives toJson ofJson? where
  read_write := ofJson?_toJson
  integral _ := .string _

theorem Slot.survives : Survives toJson ofJson? where
  read_write s := by cases s <;> rfl
  integral _ := .string _

theorem Instruction.survives : Survives toJson ofJson? where
  read_write i := by
    have hrecord : i.toJson.record? fieldNames = some [some i.opcode.toJson, some i.aMode.toJson,
        some (.ofField i.aField), some i.bMode.toJson, some (.ofField i.bField)] :=
      Json.Value.record?_keys (by simp)
    unfold ofJson?
    rw [hrecord]
    simp [Opcode.survives.required_write, Mode.survives.required_write,
      Survives.field.required_write]
  integral i := by
    refine .ofRecord ?_
    simp only [List.forall_mem_cons]
    exact ⟨Opcode.survives.integral _, Mode.survives.integral _, Survives.field.integral _,
      Mode.survives.integral _, Survives.field.integral _, by simp⟩

theorem Fault.survives : Survives toJson ofJson? where
  read_write f := by
    have hrecord : f.toJson.record? ["opcode", "slot"] =
        some [some f.opcode.toJson, some f.slot.toJson] :=
      Json.Value.record?_keys (by simp)
    unfold ofJson?
    rw [hrecord]
    simp [Opcode.survives.required_write, Slot.survives.required_write]
  integral f := by
    refine .ofRecord ?_
    simp only [List.forall_mem_cons]
    exact ⟨Opcode.survives.integral _, Slot.survives.integral _, by simp⟩

theorem Core.survives : Survives toJson ofJson? where
  read_write core := by
    have hrecord : core.toJson.record? ["cells"] =
        some [some (.ofList Instruction.toJson core.cells.toList)] :=
      Json.Value.record?_keys (by simp)
    unfold ofJson?
    rw [hrecord]
    simp [Instruction.survives.list.required_write]
  integral core := by
    refine .ofRecord ?_
    simp only [List.forall_mem_cons]
    exact ⟨Instruction.survives.list.integral _, by simp⟩

/-! ### Warriors -/

theorem Warrior.survives : Survives toJson ofJson? where
  read_write w := by
    have hrecord : w.toJson.record? ["id", "queue"] =
        some [some (.ofWord w.id), some (.ofList .ofWord w.queue.toList)] :=
      Json.Value.record?_keys (by simp)
    unfold ofJson?
    rw [hrecord]
    simp [Survives.word.required_write, Survives.word.list.required_write]
  integral w := by
    refine .ofRecord ?_
    simp only [List.forall_mem_cons]
    exact ⟨Survives.word.integral _, Survives.word.list.integral _, by simp⟩

theorem WarriorState.survives : Survives toJson ofJson? where
  read_write w := by
    have hrecord : w.toJson.record? ["id", "alive", "queue"] =
        some [some (.ofWord w.id), some (.bool w.alive), some (.ofList .ofWord w.queue)] :=
      Json.Value.record?_keys (by simp)
    unfold ofJson?
    rw [hrecord]
    simp [Survives.word.required_write, Survives.bool.required_write,
      Survives.word.list.required_write]
  integral w := by
    refine .ofRecord ?_
    simp only [List.forall_mem_cons]
    exact ⟨Survives.word.integral _, .bool _, Survives.word.list.integral _, by simp⟩

theorem Snapshot.survives : Survives toJson ofJson? where
  read_write s := by
    have hrecord : s.toJson.record? ["cycle", "memory", "warriors"] = some [some (.ofWord s.cycle),
        some (.ofList Instruction.toJson s.memory.toList),
        some (.ofList WarriorState.toJson s.warriors)] :=
      Json.Value.record?_keys (by simp)
    unfold ofJson?
    rw [hrecord]
    simp [Survives.word.required_write, Instruction.survives.list.required_write,
      WarriorState.survives.list.required_write]
  integral s := by
    refine .ofRecord ?_
    simp only [List.forall_mem_cons]
    exact ⟨Survives.word.integral _, Instruction.survives.list.integral _,
      WarriorState.survives.list.integral _, by simp⟩

/-! ### Verdicts and the logs -/

namespace Json.Value

/-- A variant with data is not one without. -/
theorem tag?_ofVariant_ofRecord (name : String) (fields : List (String × Value)) :
    (ofVariant name (ofRecord fields)).tag? = none := rfl

theorem variant?_ofVariant (name : String) (content : Value) :
    (ofVariant name content).variant? = some (name, content) := rfl

theorem Integral.ofVariant {name : String} {content : Value} (h : content.Integral) :
    (ofVariant name content).Integral := by
  refine .object ?_
  simp only [List.forall_mem_cons]
  exact ⟨h, by simp⟩

end Json.Value

theorem Verdict.survives : Survives toJson ofJson? where
  read_write v := by
    cases v with
    | winner w =>
      have hrecord : (Json.Value.ofRecord [("warrior", .ofWord w)]).record? ["warrior"] =
          some [some (.ofWord w)] :=
        Json.Value.record?_keys (by simp)
      unfold toJson ofJson?
      rw [Json.Value.tag?_ofVariant_ofRecord, Json.Value.variant?_ofVariant]
      simp [hrecord, Survives.word.required_write]
    | draw ids =>
      have hrecord : (Json.Value.ofRecord [("survivors", .ofList .ofWord ids)]).record?
          ["survivors"] = some [some (.ofList .ofWord ids)] :=
        Json.Value.record?_keys (by simp)
      unfold toJson ofJson?
      rw [Json.Value.tag?_ofVariant_ofRecord, Json.Value.variant?_ofVariant]
      simp [hrecord, Survives.word.list.required_write]
    | extinct => rfl
  integral v := by
    cases v with
    | winner w => exact .ofVariant (.ofRecord (by simpa using Survives.word.integral w))
    | draw ids => exact .ofVariant (.ofRecord (by simpa using Survives.word.list.integral ids))
    | extinct => exact .string _

theorem Elimination.survives : Survives toJson ofJson? where
  read_write e := by
    have hrecord : (Json.Value.ofRecord [("warrior", .ofWord e.warrior),
        ("cycle", .ofWord e.cycle)]).record? ["warrior", "cycle"] =
          some [some (.ofWord e.warrior), some (.ofWord e.cycle)] :=
      Json.Value.record?_keys (by simp)
    unfold toJson ofJson?
    rw [Json.Value.variant?_ofVariant]
    simp [hrecord, Survives.word.required_write]
  integral e := by
    refine .ofVariant (.ofRecord ?_)
    simp only [List.forall_mem_cons]
    exact ⟨Survives.word.integral _, Survives.word.integral _, by simp⟩

theorem Incident.survives : Survives toJson ofJson? where
  read_write i := by
    have hrecord : i.toJson.record? ["cycle", "warrior", "pc", "error"] =
        some [some (.ofWord i.cycle), some (.ofWord i.warrior), some (.ofWord i.pc),
          some i.fault.toJson] :=
      Json.Value.record?_keys (by simp)
    unfold ofJson?
    rw [hrecord]
    simp [Survives.word.required_write, Fault.survives.required_write]
  integral i := by
    refine .ofRecord ?_
    simp only [List.forall_mem_cons]
    exact ⟨Survives.word.integral _, Survives.word.integral _, Survives.word.integral _,
      Fault.survives.integral _, by simp⟩

/-! ### Texts -/

/-- The printed text of every value, compact or indented, is read back as the value. -/
def Json.ReadsBack {α : Type} (write : α → Value) (read : Value → Option α) : Prop :=
  ∀ x, (Value.parse? (write x).compact).bind read = some x ∧
    (Value.parse? (write x).indented).bind read = some x

theorem Json.Survives.readsBack {α : Type} {write : α → Value} {read : Value → Option α}
    (h : Survives write read) : ReadsBack write read :=
  fun x => ⟨h.parse?_compact x, h.parse?_indented x⟩

/-- What a snapshot `s` tells about a battle is what the battle is. -/
structure Snapshot.Shows (s : Snapshot) (b : Battle) : Prop where
  cycle : s.cycle = b.cycles
  cells : s.memory = b.core.cells
  /-- Each cell stands at its address. -/
  memory : ∀ a : Address, a.toNat < b.core.size → s.memory[a.toNat]? = some (b.core.read a)
  count : s.warriors.length = b.warriors.length
  /-- The warriors in order, each with its processes in order. -/
  warriors : ∀ (i : Nat) (w : Warrior), b.warriors[i]? = some w →
    s.warriors[i]? = some ⟨w.id, w.alive, w.queue.toList⟩

theorem Battle.snapshot_shows (b : Battle) : b.snapshot.Shows b where
  cycle := rfl
  cells := rfl
  memory a ha := by
    have hcell := Core.cells_index (Nat.lt_of_le_of_lt (Nat.zero_le _) ha) a
    rwa [Core.index, Nat.mod_eq_of_lt ha] at hcell
  count := by simp [snapshot]
  warriors i w hw := by
    simp [snapshot, hw]

/-- **The records of a battle survive being printed**, and the printed snapshot of a battle in
whatever state shows that battle when it is read back. -/
theorem state_texts :
    Json.ReadsBack Snapshot.toJson Snapshot.ofJson? ∧ Json.ReadsBack Core.toJson Core.ofJson? ∧
    Json.ReadsBack Warrior.toJson Warrior.ofJson? ∧
    Json.ReadsBack WarriorState.toJson WarriorState.ofJson? ∧
    Json.ReadsBack Instruction.toJson Instruction.ofJson? ∧
    Json.ReadsBack Verdict.toJson Verdict.ofJson? ∧
    Json.ReadsBack Elimination.toJson Elimination.ofJson? ∧
    Json.ReadsBack Incident.toJson Incident.ofJson? ∧
    Json.ReadsBack Fault.toJson Fault.ofJson? ∧
    ∀ b : Battle, ∃ s : Snapshot, s.Shows b ∧
      (Json.Value.parse? b.snapshot.toJson.compact).bind Snapshot.ofJson? = some s ∧
      (Json.Value.parse? b.snapshot.toJson.indented).bind Snapshot.ofJson? = some s := by
  refine ⟨Snapshot.survives.readsBack, Core.survives.readsBack, Warrior.survives.readsBack,
    WarriorState.survives.readsBack, Instruction.survives.readsBack, Verdict.survives.readsBack,
    Elimination.survives.readsBack, Incident.survives.readsBack, Fault.survives.readsBack,
    fun b => ?_⟩
  exact ⟨b.snapshot, b.snapshot_shows, Snapshot.survives.readsBack b.snapshot⟩

end CoreWar
