/-
# Shapes are never invented

The shape of an instruction is its opcode and its two modes. A step changes
the core in two ways only: it copies a cell as a whole, or it changes fields
of a cell. Neither makes a shape that no cell had before, so whatever holds of
all shapes in the core holds of them for ever (`Core.Shaped.step`), although
programs rewrite each other and themselves.

What a process can do depends on the shape it meets. Without a `DAT` in the
core no process ends, without an `SPL` none is added, and without a disallowed
shape there is no incident.

Key definitions: `Instruction.shape`, `Core.Shaped`, `Battle.processes`.
Key theorems: `Core.Shaped.step`, `Battle.shaped_ticks`,
`Battle.shapes_persist`.
-/
import CoreWar.Proofs.RoundRobin
import CoreWar.Proofs.Succession

namespace CoreWar

namespace Instruction

/-- An instruction without its fields: opcode, A-mode and B-mode. -/
def shape (i : Instruction) : Opcode × Mode × Mode := (i.opcode, i.aMode, i.bMode)

/-- The shape decides whether an instruction is disallowed. -/
theorem fault?_congr {i j : Instruction} (h : i.shape = j.shape) : i.fault? = j.fault? := by
  obtain ⟨ho, ha, hb⟩ : i.opcode = j.opcode ∧ i.aMode = j.aMode ∧ i.bMode = j.bMode := by
    simpa [shape] using h
  simp only [fault?, ho, ha, hb]

end Instruction

namespace Core

/-- There is a cell, and the shape of every cell satisfies `P`. -/
structure Shaped (P : Opcode × Mode × Mode → Prop) (core : Core) : Prop where
  pos : 0 < core.size
  cells : ∀ i ∈ core.cells, P i.shape

namespace Shaped

variable {P : Opcode × Mode × Mode → Prop} {core : Core}

/-- Every core with a cell has the shapes of its own cells. -/
theorem of_cells (hs : 0 < core.size) :
    core.Shaped fun shape => ∃ i ∈ core.cells, i.shape = shape :=
  ⟨hs, fun i hi => ⟨i, hi, rfl⟩⟩

theorem read (h : core.Shaped P) (a : Address) : P (core.read a).shape :=
  h.cells _ (read_mem h.pos a)

theorem write (h : core.Shaped P) (a : Address) {i : Instruction} (hi : P i.shape) :
    (core.write a i).Shaped P := by
  refine ⟨by rw [size_write]; exact h.pos, fun j hj => ?_⟩
  rcases Array.mem_or_eq_of_mem_setIfInBounds hj with hj | rfl
  · exact h.cells j hj
  · exact hi

/-- Changing fields of a cell keeps its shape. -/
theorem modify (h : core.Shaped P) (a : Address) {f : Instruction → Instruction}
    (hf : ∀ i, (f i).shape = i.shape) : (core.modify a f).Shaped P := by
  rw [modify_eq_write]
  refine h.write a ?_
  rw [hf]
  exact h.read a

theorem resolve (h : core.Shaped P) (pc : Address) (mode : Mode) (field : Field) :
    (core.resolve pc mode field).2.Shaped P := by
  cases mode with
  | immediate | direct | indirect => exact h
  | autodecrement => exact h.modify _ fun _ => rfl

theorem operands (h : core.Shaped P) (pc : Address) : (core.operands pc).2.2.Shaped P :=
  (h.resolve pc _ _).resolve pc _ _

theorem move (h : core.Shaped P) (i : Instruction) (pc : Address) (a b : Operand) :
    (i.move pc a b core).Shaped P := by
  unfold Instruction.move
  split
  · exact h.write _ (h.read _)
  · exact h.modify _ fun _ => rfl

theorem arithmetic (h : core.Shaped P) (op : Opcode) (pc : Address) (a b : Operand) :
    (Instruction.arithmetic op pc a b core).Shaped P := by
  unfold Instruction.arithmetic
  split
  · exact h.modify _ fun _ => rfl
  · exact h.modify _ fun _ => rfl

theorem effect (h : core.Shaped P) (i : Instruction) (pc : Address) (a b : Operand) :
    (i.effect pc a b core).2.Shaped P := by
  unfold Instruction.effect
  cases i.opcode with
  | dat | jmp | jmz | jmn | cmp | slt | spl => exact h
  | mov => exact h.move i pc a b
  | add | sub => exact h.arithmetic _ pc a b
  | djn => exact h.modify _ fun _ => rfl

/-- **A step makes no new shape.** -/
theorem step (h : core.Shaped P) (pc : Address) : (core.step pc).2.Shaped P := by
  cases hf : (core.read pc).fault? with
  | some f =>
    rw [step_of_fault hf]
    exact h
  | none =>
    by_cases hd : (core.read pc).opcode = .dat
    · rw [step_of_dat hd]
      exact h
    · rw [step_of_allowed hf hd]
      exact (h.operands pc).effect _ pc _ _

end Shaped

end Core

namespace Battle

/-- The number of processes of all warriors together. -/
def processes (b : Battle) : Nat := (b.warriors.map fun w => w.queue.length).sum

/-! ### One turn -/

section Turn

variable {P : Opcode × Mode × Mode → Prop} {b : Battle} {w : Warrior}

theorem shaped_advance (ha : w.alive = true) (h : b.core.Shaped P) :
    (b.advance w).2.core.Shaped P := by
  obtain ⟨pc, rest, -, hact⟩ := Warrior.act_of_alive ha b.core
  rw [advance_core, hact]
  exact h.step pc

theorem act_alive (ha : w.alive = true) {core : Core}
    (h : core.Shaped fun shape => shape.1 ≠ .dat) : (w.act core).2.1.alive = true := by
  obtain ⟨pc, rest, -, hact⟩ := Warrior.act_of_alive ha core
  have hlen := core.length_successors pc
  have hpos : 0 < (core.read pc).offspring := by
    have hd : (core.read pc).opcode ≠ .dat := h.read pc
    unfold Instruction.offspring
    rw [if_neg hd]
    split <;> omega
  rw [hact, Warrior.alive_iff, ProcessQueue.toList_ofList]
  intro hnil
  rw [(List.append_eq_nil_iff.mp hnil).2] at hlen
  simp only [List.length_nil] at hlen
  omega

theorem act_length_le (ha : w.alive = true) {core : Core}
    (h : core.Shaped fun shape => shape.1 ≠ .spl) :
    (w.act core).2.1.queue.length ≤ w.queue.length := by
  obtain ⟨pc, rest, hq, hact⟩ := Warrior.act_of_alive ha core
  have hlen := core.length_successors pc
  have hone : (core.read pc).offspring ≤ 1 := by
    have hs : (core.read pc).splits = false :=
      Bool.eq_false_iff.mpr fun hs => h.read pc (Instruction.splits_iff.mp hs).1
    simp only [Instruction.offspring, hs, Bool.false_eq_true, if_false]
    split <;> omega
  rw [hact, ProcessQueue.length, ProcessQueue.length, ProcessQueue.toList_ofList, hq,
    List.length_append, List.length_cons]
  omega

theorem processes_advance_le (hw : b.warriors[b.cursor]? = some w) (ha : w.alive = true)
    (h : b.core.Shaped fun shape => shape.1 ≠ .spl) : (b.advance w).2.processes ≤ b.processes := by
  obtain ⟨hlt, he⟩ := List.getElem?_eq_some_iff.mp hw
  obtain ⟨before, behind, hold, -, hnew⟩ :=
    @List.exists_of_set _ b.cursor (w.act b.core).2.1 b.warriors hlt
  have hle := act_length_le ha h
  rw [he] at hold
  rw [processes, processes, advance_warriors, hnew, hold]
  simp only [List.map_append, List.map_cons, List.sum_append, List.sum_cons]
  omega

/-- A warrior that meets no disallowed shape causes no incident. -/
theorem advance_incident? (ha : w.alive = true) (h : ∀ pc, (b.core.read pc).fault? = none) :
    (b.advance w).1.incident? = none := by
  obtain ⟨pc, rest, -, hact⟩ := Warrior.act_of_alive ha b.core
  rw [advance_fst, hact]
  simp [Turn.incident?, b.core.step_fault, h pc]

end Turn

/-! ### Whole battles -/

section Run

variable {core : Core} (warriors : List Warrior) (limit : Option UInt64)

theorem shaped_ticks {P : Opcode × Mode × Mode → Prop} (h : core.Shaped P) (n : Nat) :
    ((ofParts core warriors limit).ticks n).core.Shaped P :=
  (ticks_induction (P := fun c => c.core.Shaped P) (ready_ofParts core warriors limit) h
    (fun _ _ _ _ ha hc => shaped_advance ha hc) n).2

theorem alive_ticks (h : core.Shaped fun shape => shape.1 ≠ .dat) (n : Nat) :
    ((ofParts core warriors limit).ticks n).eliminations = #[] ∧
      ∀ i, aliveAt warriors i = true →
        aliveAt ((ofParts core warriors limit).ticks n).warriors i = true := by
  have hrun := ticks_induction (b := ofParts core warriors limit)
    (P := fun c => (c.core.Shaped fun shape => shape.1 ≠ .dat) ∧ c.eliminations = #[] ∧
      ∀ i, aliveAt warriors i = true → aliveAt c.warriors i = true)
    (ready_ofParts core warriors limit) ⟨h, rfl, fun _ hi => hi⟩ ?_ n
  · exact hrun.2.2
  · rintro c w - hw ha ⟨hshape, hnone, halive⟩
    have hact := act_alive ha hshape
    refine ⟨shaped_advance ha hshape, ?_, fun i hi => ?_⟩
    · apply Array.toList_inj.mp
      rw [toList_advance_eliminations, hnone, advance_fst]
      simp [Turn.elimination?, hact]
    · rw [advance_warriors]
      by_cases hc : c.cursor = i
      · subst hc
        have hlt := (List.getElem?_eq_some_iff.mp hw).1
        exact aliveAt_iff.mpr ⟨_, List.getElem?_set_self hlt, hact⟩
      · unfold aliveAt
        rw [List.getElem?_set_ne hc]
        exact halive i hi

theorem processes_ticks_le (h : core.Shaped fun shape => shape.1 ≠ .spl) {m n : Nat}
    (hmn : m ≤ n) : ((ofParts core warriors limit).ticks n).processes ≤
      ((ofParts core warriors limit).ticks m).processes := by
  obtain ⟨d, rfl⟩ := Nat.exists_eq_add_of_le hmn
  rw [ticks_add]
  have hrun := ticks_induction (b := (ofParts core warriors limit).ticks m)
    (P := fun c => (c.core.Shaped fun shape => shape.1 ≠ .spl) ∧
      c.processes ≤ ((ofParts core warriors limit).ticks m).processes)
    (ready_ticks (ready_ofParts core warriors limit) m)
    ⟨shaped_ticks warriors limit h m, Nat.le_refl _⟩ ?_ d
  · exact hrun.2.2
  · rintro c w - hw ha ⟨hshape, hle⟩
    exact ⟨shaped_advance ha hshape, Nat.le_trans (processes_advance_le hw ha hshape) hle⟩

theorem incidents_ticks (h : core.Shaped fun shape => ∀ i : Instruction, i.shape = shape →
    i.fault? = none) (n : Nat) : ((ofParts core warriors limit).ticks n).incidents = #[] := by
  have hrun := ticks_induction (b := ofParts core warriors limit)
    (P := fun c => (c.core.Shaped fun shape => ∀ i : Instruction, i.shape = shape →
      i.fault? = none) ∧ c.incidents = #[])
    (ready_ofParts core warriors limit) ⟨h, rfl⟩ ?_ n
  · exact hrun.2.2
  · rintro c w - - ha ⟨hshape, hnone⟩
    refine ⟨shaped_advance ha hshape, Array.toList_inj.mp ?_⟩
    rw [toList_advance_incidents, hnone,
      advance_incident? ha fun pc => hshape.read pc _ rfl]
    rfl

end Run

/-- **Shapes are never invented.** After any number of ticks every cell has the shape of a
cell that was there at the start. So without a `DAT` at the start no living warrior is
eliminated, without an `SPL` the number of processes never grows, and without a disallowed
instruction there is no incident. -/
theorem shapes_persist {core : Core} (hs : 0 < core.size) (warriors : List Warrior)
    (limit : Option UInt64) (n : Nat) :
    (∀ i ∈ ((ofParts core warriors limit).ticks n).core.cells,
      ∃ j ∈ core.cells, j.shape = i.shape) ∧
    ((∀ i ∈ core.cells, i.opcode ≠ .dat) →
      ((ofParts core warriors limit).ticks n).eliminations = #[] ∧
      ∀ i, aliveAt warriors i = true →
        aliveAt ((ofParts core warriors limit).ticks n).warriors i = true) ∧
    ((∀ i ∈ core.cells, i.opcode ≠ .spl) →
      ∀ m ≤ n, ((ofParts core warriors limit).ticks n).processes ≤
        ((ofParts core warriors limit).ticks m).processes) ∧
    ((∀ i ∈ core.cells, i.fault? = none) →
      ((ofParts core warriors limit).ticks n).incidents = #[]) := by
  refine ⟨(shaped_ticks warriors limit (.of_cells hs) n).cells, fun h => ?_, fun h m hmn => ?_,
    fun h => ?_⟩
  · exact alive_ticks warriors limit ⟨hs, h⟩ n
  · exact processes_ticks_le warriors limit ⟨hs, h⟩ hmn
  · refine incidents_ticks warriors limit ⟨hs, fun i hi j hj => ?_⟩ n
    rw [Instruction.fault?_congr hj]
    exact h i hi

/-- A warrior that copies itself over a counter and a loop. -/
def spreading : Core :=
  ⟨#[⟨.mov, .direct, 0, .direct, 1⟩, ⟨.add, .immediate, 1, .direct, 1⟩,
    ⟨.jmp, .direct, -1, .direct, 0⟩]⟩

/-- After four ticks every cell is a copy, and the loop's shape is lost; no other shape came
in its place. -/
theorem shapes_persist_spreading :
    (∀ i ∈ ((ofParts spreading [.start 0 0, .start 1 2] none).ticks 4).core.cells,
      ∃ j ∈ spreading.cells, j.shape = i.shape) ∧
    ((ofParts spreading [.start 0 0, .start 1 2] none).ticks 4).eliminations = #[] ∧
    ((ofParts spreading [.start 0 0, .start 1 2] none).ticks 4).processes ≤
      (ofParts spreading [.start 0 0, .start 1 2] none).processes ∧
    ((ofParts spreading [.start 0 0, .start 1 2] none).ticks 4).incidents = #[] := by
  obtain ⟨hshape, hdat, hspl, hfault⟩ := shapes_persist (show 0 < spreading.size by decide)
    [.start 0 0, .start 1 2] none 4
  refine ⟨hshape, (hdat ?_).1, hspl ?_ 0 (by decide), hfault ?_⟩ <;> decide +kernel

end Battle
end CoreWar
