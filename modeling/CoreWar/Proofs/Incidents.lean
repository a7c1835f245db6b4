/-
# Disallowed instructions

Four opcodes may not have an immediate B-operand and four may not have an
immediate A-operand (`Instruction.Disallowed`). A process that meets such an
instruction goes on at the next cell, and that is all: the core is not
touched, not even by an autodecrement of the other operand, and the incident
is put into the record with the cycle, the warrior, the place and the operand
at fault. No other instruction leaves an incident.

That nothing is touched depends on when the operand is looked at. `ADD`,
`SUB` and `DJN` could find that a write has no destination only after both
operands are resolved, too late to undo what that did to the core. An attempt
to run an instruction that looks both before and after
(`Core.attempt`) is what a step reports (`Core.step_eq_report`), and the
second look never finds anything (`Core.attempt_ne_stranded`).

Key definitions: `Instruction.Disallowed`, `Attempt`, `Core.attempt`,
`Battle.Skipped`, `Battle.RecordsFaults`.
Key theorems: `Instruction.fault?_eq_some_iff`, `Core.attempt_ne_stranded`,
`Core.step_eq_report`, `Battle.tick_incidents`, `Battle.incidents_exact`.
-/
import CoreWar.Proofs.Rounds
import CoreWar.Proofs.Succession

namespace CoreWar

namespace Instruction

/-- The operand in the slot is immediate where the opcode does not allow it. -/
def Disallowed (i : Instruction) : Slot → Prop
  | .a => i.opcode ∈ [.jmp, .jmz, .jmn, .spl] ∧ i.aMode = .immediate
  | .b => i.opcode ∈ [.add, .sub, .djn, .slt] ∧ i.bMode = .immediate

theorem ite_isImmediate_eq_some {mode : Mode} {f g : Fault} :
    (if mode.isImmediate then some f else none) = some g ↔ g = f ∧ mode = .immediate := by
  by_cases hm : mode = .immediate
  · rw [if_pos (isImmediate_iff.mpr hm), Option.some.injEq, eq_comm, and_iff_left hm]
  · rw [if_neg fun h => hm (isImmediate_iff.mp h)]
    exact iff_of_false nofun fun h => hm h.2

theorem fault?_eq_some_iff {i : Instruction} {f : Fault} :
    i.fault? = some f ↔ f.opcode = i.opcode ∧ i.Disallowed f.slot := by
  obtain ⟨opcode, slot⟩ := f
  unfold fault?
  cases ho : i.opcode with
  | dat | mov | cmp => cases slot <;> simp [Disallowed, ho]
  | add | sub | djn | slt | jmp | jmz | jmn | spl =>
    rw [ite_isImmediate_eq_some]
    cases slot <;> simp [Disallowed, ho]

theorem fault?_eq_none_iff {i : Instruction} :
    i.fault? = none ↔ ∀ slot, ¬ i.Disallowed slot := by
  constructor
  · intro h slot hd
    have hsome : i.fault? = some ⟨i.opcode, slot⟩ := fault?_eq_some_iff.mpr ⟨rfl, hd⟩
    rw [h] at hsome
    cases hsome
  · intro h
    cases hf : i.fault? with
    | none => rfl
    | some f => exact absurd (fault?_eq_some_iff.mp hf).2 (h f.slot)

end Instruction

/-! ### Looking twice -/

/-- How the attempt to run an instruction ends. -/
inductive Attempt
  /-- The instruction is disallowed, and no operand is resolved. -/
  | refused (fault : Fault)
  /-- The write has no destination, and resolving the operands has led to `core`. -/
  | stranded (fault : Fault) (core : Core)
  /-- The instruction has had its effect. -/
  | done (successors : Successors) (core : Core)

/-- The operand that a write goes through, when that is looked at behind the operands: `ADD`,
`SUB` and `DJN` need a cell there. -/
def Instruction.destination (i : Instruction) (b : Operand) : Except Fault Operand :=
  match i.opcode, b with
  | .add, .immediate _ | .sub, .immediate _ | .djn, .immediate _ => .error ⟨i.opcode, .b⟩
  | _, b => .ok b

namespace Core

/-- Run the instruction that `pc` names, looking for a fault before its operands are resolved
and for the destination of its write behind them. -/
def attempt (core : Core) (pc : Address) : Attempt :=
  let i := core.read pc
  match i.fault?, i.opcode with
  | some fault, _ => .refused fault
  | none, .dat => .done .none core
  | none, _ =>
    let (a, core) := core.resolve pc i.aMode i.aField
    let (b, core) := core.resolve pc i.bMode i.bField
    match i.destination b with
    | .error fault => .stranded fault core
    | .ok b =>
      let (successors, core) := i.effect pc a b core
      .done successors core

/-- What is reported of an attempt. A fault leads to the next cell, in the core as the attempt
has left it. -/
def report (core : Core) (pc : Address) : Attempt → Step × Core
  | .refused fault => (⟨pc, core.read pc, .one (core.offset pc 1), some fault⟩, core)
  | .stranded fault left => (⟨pc, core.read pc, .one (core.offset pc 1), some fault⟩, left)
  | .done successors left => (⟨pc, core.read pc, successors, none⟩, left)

end Core

/-- An allowed instruction that needs a cell for its write has one. -/
theorem Instruction.destination_eq_ok {i : Instruction} (hf : i.fault? = none) (core : Core)
    (pc : Address) : i.destination (core.resolve pc i.bMode i.bField).1 =
      .ok (core.resolve pc i.bMode i.bField).1 := by
  unfold destination
  cases ho : i.opcode with
  | add | sub | djn =>
    have hmode : i.bMode ≠ .immediate := fun hm =>
      fault?_eq_none_iff.mp hf .b ⟨by simp [ho], hm⟩
    obtain ⟨a, ha⟩ := core.exists_address pc hmode i.bField
    rw [ha]
  | dat | mov | jmp | jmz | jmn | cmp | slt | spl => rfl

namespace Core

variable {core : Core} {pc : Address}

theorem attempt_of_fault {f : Fault} (h : (core.read pc).fault? = some f) :
    core.attempt pc = .refused f := by
  unfold attempt
  simp only [h]

theorem attempt_of_dat (h : (core.read pc).opcode = .dat) : core.attempt pc = .done .none core := by
  have hf : (core.read pc).fault? = none := by simp [Instruction.fault?, h]
  unfold attempt
  simp only [hf, h]

theorem attempt_of_allowed (hf : (core.read pc).fault? = none)
    (hd : (core.read pc).opcode ≠ .dat) :
    core.attempt pc = .done
      ((core.read pc).effect pc (core.operands pc).1 (core.operands pc).2.1
        (core.operands pc).2.2).1
      ((core.read pc).effect pc (core.operands pc).1 (core.operands pc).2.1
        (core.operands pc).2.2).2 := by
  have hdest := Instruction.destination_eq_ok hf
    (core.resolve pc (core.read pc).aMode (core.read pc).aField).2 pc
  unfold attempt
  simp only [hf, hdest]
  cases ho : (core.read pc).opcode <;> first | exact absurd ho hd | rfl

variable (core pc)

/-- **A step is what is reported of the attempt.** -/
theorem step_eq_report : core.step pc = core.report pc (core.attempt pc) := by
  cases hf : (core.read pc).fault? with
  | some f =>
    rw [step_of_fault hf, attempt_of_fault hf]
    rfl
  | none =>
    by_cases hd : (core.read pc).opcode = .dat
    · rw [step_of_dat hd, attempt_of_dat hd]
      rfl
    · rw [step_of_allowed hf hd, attempt_of_allowed hf hd]
      rfl

/-- **The look behind the operands finds nothing.** -/
theorem attempt_ne_stranded (f : Fault) (left : Core) : core.attempt pc ≠ .stranded f left := by
  cases hf : (core.read pc).fault? with
  | some f =>
    rw [attempt_of_fault hf]
    exact nofun
  | none =>
    by_cases hd : (core.read pc).opcode = .dat
    · rw [attempt_of_dat hd]
      exact nofun
    · rw [attempt_of_allowed hf hd]
      exact nofun

end Core

/-! ### One tick -/

namespace Battle

/-- What a tick does when the warrior `w` at the cursor, with `rest` behind its front process
`pc`, meets an instruction that is disallowed for its operand in `slot`. -/
structure Skipped (b : Battle) (w : Warrior) (pc : Address) (rest : List Address) (slot : Slot) :
    Prop where
  /-- No cell changes. -/
  core : b.tick.core = b.core
  /-- The process goes on at the next cell. -/
  queue : ∃ next : Address, next.toNat = (pc.toNat + 1) % b.core.size ∧
    b.tick.warriors[b.cursor]? = some ⟨w.id, .ofList (rest ++ [next])⟩
  /-- The other warriors stay as they are. -/
  others : ∀ i, i ≠ b.cursor → b.tick.warriors[i]? = b.warriors[i]?
  /-- One incident is put into the record. -/
  incident : b.tick.incidents =
    b.incidents.push ⟨b.cycles + 1, w.id, pc, ⟨(b.core.read pc).opcode, slot⟩⟩

/-- How the next tick treats the instruction at `pc`, as to faults. -/
structure RecordsFaults (b : Battle) (w : Warrior) (pc : Address) (rest : List Address) : Prop where
  /-- There is an incident exactly for a disallowed instruction. -/
  records : (∃ e, b.tick.incidents = b.incidents.push e) ↔
    ∃ slot, (b.core.read pc).Disallowed slot
  /-- Such an instruction is skipped. -/
  skips : ∀ slot, (b.core.read pc).Disallowed slot → b.Skipped w pc rest slot
  /-- Any other leaves the record as it is. -/
  keeps : (∀ slot, ¬ (b.core.read pc).Disallowed slot) → b.tick.incidents = b.incidents
  /-- The step is reported of an attempt -/
  reported : b.core.step pc = b.core.report pc (b.core.attempt pc)
  /-- in which no write is found without destination once the operands are resolved. -/
  early : ∀ fault left, b.core.attempt pc ≠ .stranded fault left

section Tick

variable {b : Battle} {w : Warrior} {pc : Address} {rest : List Address}
  (hv : b.verdict = none) (hw : b.warriors[b.cursor]? = some w)
  (hq : w.queue.toList = pc :: rest)

include hv hw hq

/-- **The record grows by the fault of the instruction, if it has one.** -/
theorem tick_incidents : b.tick.incidents.toList = b.incidents.toList ++
    ((b.core.read pc).fault?.map fun f => ⟨b.cycles + 1, w.id, pc, f⟩).toList := by
  rw [tick_of_open hv hw, toList_advance_incidents, advance_fst, Warrior.act_of_cons hq]
  simp [Turn.incident?, b.core.step_fault]

theorem tick_incidents_of_allowed (h : (b.core.read pc).fault? = none) :
    b.tick.incidents = b.incidents := by
  have htick := tick_incidents hv hw hq
  rw [h, Option.map_none, Option.toList_none, List.append_nil] at htick
  exact Array.toList_inj.mp htick

theorem tick_incidents_of_fault {f : Fault} (h : (b.core.read pc).fault? = some f) :
    b.tick.incidents = b.incidents.push ⟨b.cycles + 1, w.id, pc, f⟩ := by
  have htick := tick_incidents hv hw hq
  rw [h, Option.map_some, Option.toList_some] at htick
  apply Array.toList_inj.mp
  rw [htick, Array.toList_push]

theorem skipped_of_disallowed (hs : b.core.size < 2 ^ 63) (hpc : pc.toNat < b.core.size)
    {slot : Slot} (h : (b.core.read pc).Disallowed slot) : b.Skipped w pc rest slot := by
  have hf : (b.core.read pc).fault? = some ⟨(b.core.read pc).opcode, slot⟩ :=
    Instruction.fault?_eq_some_iff.mpr ⟨rfl, h⟩
  have hact := Warrior.act_of_cons hq b.core
  rw [Core.step_of_fault hf] at hact
  have hlt : b.cursor < b.warriors.length := (List.getElem?_eq_some_iff.mp hw).1
  have htick := tick_of_open hv hw
  refine ⟨?_, ⟨b.core.offset pc 1, ?_, ?_⟩, fun i hi => ?_, tick_incidents_of_fault hv hw hq hf⟩
  · rw [htick, advance_core, hact]
  · exact offset_one_toNat (by omega) hs hpc
  · rw [htick, advance_warriors, List.getElem?_set_self hlt, hact]
    rfl
  · rw [htick, advance_warriors, List.getElem?_set_ne (Ne.symm hi)]

theorem recordsFaults (hs : b.core.size < 2 ^ 63) (hpc : pc.toNat < b.core.size) :
    b.RecordsFaults w pc rest where
  records := by
    constructor
    · rintro ⟨e, he⟩
      by_contra hnone
      have hf := Instruction.fault?_eq_none_iff.mpr (not_exists.mp hnone)
      have hsize := congrArg Array.size (he.symm.trans (tick_incidents_of_allowed hv hw hq hf))
      simp at hsize
    · rintro ⟨slot, h⟩
      exact ⟨_, (skipped_of_disallowed hv hw hq hs hpc h).incident⟩
  skips slot h := skipped_of_disallowed hv hw hq hs hpc h
  keeps h := tick_incidents_of_allowed hv hw hq (Instruction.fault?_eq_none_iff.mpr h)
  reported := b.core.step_eq_report pc
  early := b.core.attempt_ne_stranded pc

end Tick

/-- **A disallowed instruction is skipped as a whole and always recorded, and nothing else
is.** In an open state of any battle this is so for the process whose turn it is. -/
theorem incidents_exact {core : Core} (hsize : core.size < 2 ^ 63) {warriors : List Warrior}
    (hpcs : ∀ w ∈ warriors, ∀ pc ∈ w.queue.toList, pc.toNat < core.size)
    (limit : Option UInt64) (n : Nat)
    (hopen : ((ofParts core warriors limit).ticks n).verdict = none) :
    ∃ w pc rest, ((ofParts core warriors limit).ticks n).warriors[
        ((ofParts core warriors limit).ticks n).cursor]? = some w ∧
      w.queue.toList = pc :: rest ∧
      ((ofParts core warriors limit).ticks n).core.size = core.size ∧
      ((ofParts core warriors limit).ticks n).RecordsFaults w pc rest := by
  have hr := ready_ofParts core warriors limit
  have hring : (ofParts core warriors limit).InRing core.size := ⟨rfl, hpcs⟩
  have hn := hring.ticks (by omega) hr n
  obtain ⟨w, hw, halive⟩ := aliveAt_iff.mp (ready_ticks hr n hopen)
  obtain ⟨pc, rest, hq⟩ := List.exists_cons_of_ne_nil ((Warrior.alive_iff w).mp halive)
  have hpc : pc.toNat < core.size := hn.queue_lt hw pc (by simp [hq])
  refine ⟨w, pc, rest, hw, hq, hn.cells, ?_⟩
  rw [← hn.cells] at hpc hsize
  exact recordsFaults hopen hw hq hsize hpc

/-- A warrior that jumps to a disallowed `SUB`, whose A-operand would take one from the loop of
the other warrior. -/
def blundering : Battle :=
  ofParts ⟨#[⟨.jmp, .direct, 1, .direct, 0⟩, ⟨.sub, .autodecrement, 1, .immediate, 7⟩,
    ⟨.jmp, .direct, 0, .direct, 0⟩]⟩ [.start 5 0, .start 8 2] none

/-- In the third tick the `SUB` is skipped: the loop is as it was, and there is one incident. -/
theorem incidents_exact_blundering : (blundering.ticks 2).verdict = none ∧
    ((blundering.ticks 2).core.read 1).Disallowed .b ∧
    (blundering.ticks 3).core = blundering.core ∧
    (blundering.ticks 3).incidents = #[⟨3, 5, 1, ⟨.sub, .b⟩⟩] := by
  have hpcs : ∀ w ∈ [Warrior.start 5 0, .start 8 2], ∀ pc ∈ w.queue.toList, pc.toNat < 3 := by
    simp [Warrior.start]
  have hopen : (blundering.ticks 2).verdict = none := by decide +kernel
  have hbefore : (blundering.ticks 2).core = blundering.core := by decide +kernel
  have hempty : (blundering.ticks 2).incidents = #[] := by decide +kernel
  have hcycles : (blundering.ticks 2).cycles = 2 := by decide +kernel
  have hturn : (blundering.ticks 2).warriors[(blundering.ticks 2).cursor]?.map
      (fun w => (w.id, w.queue.toList)) = some (5, [1]) := by decide +kernel
  have hread : blundering.core.read 1 = ⟨.sub, .autodecrement, 1, .immediate, 7⟩ := by decide
  have hdisallowed : ((blundering.ticks 2).core.read 1).Disallowed .b := by
    rw [hbefore, hread]
    exact ⟨by simp, rfl⟩
  obtain ⟨w, pc, rest, hw, hq, -, hrecords⟩ :=
    @incidents_exact blundering.core (by decide) _ hpcs none 2 hopen
  obtain ⟨hid, hqueue⟩ : w.id = 5 ∧ w.queue.toList = [1] := by
    have hw' : (blundering.ticks 2).warriors[(blundering.ticks 2).cursor]? = some w := hw
    rw [hw'] at hturn
    simpa using hturn
  obtain ⟨rfl, rfl⟩ : 1 = pc ∧ [] = rest := by simpa [hqueue] using hq
  have hskipped := hrecords.skips .b hdisallowed
  refine ⟨hopen, hdisallowed, hskipped.core.trans hbefore, hskipped.incident.trans ?_⟩
  show (blundering.ticks 2).incidents.push ⟨(blundering.ticks 2).cycles + 1, w.id, 1,
    ⟨((blundering.ticks 2).core.read 1).opcode, .b⟩⟩ = _
  rw [hempty, hcycles, hid, hbefore, hread]
  rfl

end Battle
end CoreWar
