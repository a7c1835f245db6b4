/-
# What one step keeps

A step writes into the core but never changes its size, and every successor
of the process that ran is an address in the ring: it is the next cell, the
cell behind that, or where the A-operand leads, and all of these come out of
`offset`. The process queue of a warrior loses its front entry and gains the
successors at its back.

Key theorems: `Core.size_step`, `Core.step_successors_lt`, `Warrior.act_of_cons`,
`Warrior.act_queue_lt`.
-/
import CoreWar.Execution
import CoreWar.Proofs.Ring

namespace CoreWar

/-! ### Reading and writing -/

namespace Core

/-- Changing a cell is writing what is read, changed. -/
theorem modify_eq_write (core : Core) (a : Address) (f : Instruction → Instruction) :
    core.modify a f = core.write a (f (core.read a)) := by
  unfold modify write read
  refine congrArg Core.mk (Array.ext (by simp) fun k hk hk' => ?_)
  rw [Array.getElem_modify, Array.getElem_setIfInBounds]
  split
  · rename_i h
    subst h
    rw [Array.getD_eq_getD_getElem?, Array.getElem?_eq_getElem (by simpa using hk)]
    rfl
  · rfl

end Core

/-! ### The size of the core -/

namespace Core

@[simp] theorem size_write (core : Core) (a : Address) (i : Instruction) :
    (core.write a i).size = core.size := by
  simp [write, size]

@[simp] theorem size_modify (core : Core) (a : Address) (f : Instruction → Instruction) :
    (core.modify a f).size = core.size := by
  simp [modify, size]

@[simp] theorem size_resolve (core : Core) (pc : Address) (mode : Mode) (field : Field) :
    (core.resolve pc mode field).2.size = core.size := by
  cases mode <;> simp [resolve]

/-- Every address names a cell of a core that has one. -/
theorem index_lt {core : Core} (hs : 0 < core.size) (a : Address) : core.index a < core.size :=
  Nat.mod_lt _ hs

/-- What is read is in the core. -/
theorem read_mem {core : Core} (hs : 0 < core.size) (a : Address) : core.read a ∈ core.cells := by
  have hlt : core.index a < core.cells.size := index_lt hs a
  rw [read, Array.getD_eq_getD_getElem?, Array.getElem?_eq_getElem hlt]
  exact Array.getElem_mem hlt

theorem cells_index {core : Core} (hs : 0 < core.size) (a : Address) :
    core.cells[core.index a]? = some (core.read a) := by
  have hlt : core.index a < core.cells.size := index_lt hs a
  rw [read, Array.getD_eq_getD_getElem?, Array.getElem?_eq_getElem hlt]
  rfl

end Core

namespace Instruction

@[simp] theorem size_move (i : Instruction) (pc : Address) (a b : Operand) (core : Core) :
    (i.move pc a b core).size = core.size := by
  cases a <;> cases b <;> simp [move]

@[simp] theorem size_arithmetic (op : Opcode) (pc : Address) (a b : Operand) (core : Core) :
    (arithmetic op pc a b core).size = core.size := by
  cases a <;> simp [arithmetic]

@[simp] theorem size_effect (i : Instruction) (pc : Address) (a b : Operand) (core : Core) :
    (i.effect pc a b core).2.size = core.size := by
  unfold effect
  cases i.opcode <;> simp

end Instruction

/-! ### The three ways a step can go -/

namespace Core

/-- A disallowed instruction is skipped. -/
theorem step_of_fault {core : Core} {pc : Address} {f : Fault}
    (h : (core.read pc).fault? = some f) :
    core.step pc = (⟨pc, core.read pc, .one (core.offset pc 1), some f⟩, core) := by
  unfold step
  simp only [h]

/-- `DAT` ends the process. -/
theorem step_of_dat {core : Core} {pc : Address} (h : (core.read pc).opcode = .dat) :
    core.step pc = (⟨pc, core.read pc, .none, none⟩, core) := by
  have hf : (core.read pc).fault? = none := by simp [Instruction.fault?, h]
  unfold step
  simp only [hf, h]

/-- The operands of the instruction at `pc`, A first, and the core behind them. -/
def operands (core : Core) (pc : Address) : Operand × Operand × Core :=
  let i := core.read pc
  let a := core.resolve pc i.aMode i.aField
  let b := a.2.resolve pc i.bMode i.bField
  (a.1, b.1, b.2)

/-- Every other instruction has its effect on the operands. -/
theorem step_of_allowed {core : Core} {pc : Address} (hf : (core.read pc).fault? = none)
    (hd : (core.read pc).opcode ≠ .dat) :
    core.step pc =
      (⟨pc, core.read pc, ((core.read pc).effect pc (core.operands pc).1 (core.operands pc).2.1
          (core.operands pc).2.2).1, none⟩,
        ((core.read pc).effect pc (core.operands pc).1 (core.operands pc).2.1
          (core.operands pc).2.2).2) := by
  unfold step
  simp only [hf]
  cases ho : (core.read pc).opcode <;> first | exact absurd ho hd | rfl

@[simp] theorem size_operands (core : Core) (pc : Address) :
    (core.operands pc).2.2.size = core.size := by
  simp [operands]

/-- A step keeps the number of cells. -/
@[simp] theorem size_step (core : Core) (pc : Address) : (core.step pc).2.size = core.size := by
  cases hf : (core.read pc).fault? with
  | some f => rw [step_of_fault hf]
  | none =>
    by_cases hd : (core.read pc).opcode = .dat
    · rw [step_of_dat hd]
    · rw [step_of_allowed hf hd]
      simp

end Core

/-! ### Where the successors lie -/

/-- The operand is no address outside a ring of `size` cells. -/
def Operand.Within (size : Nat) (o : Operand) : Prop := ∀ a, o = .address a → a.toNat < size

theorem Operand.Within.getD_lt {size : Nat} {o : Operand} (h : o.Within size) {d : Address}
    (hd : d.toNat < size) : (o.address?.getD d).toNat < size := by
  cases o with
  | immediate v => exact hd
  | address a => exact h a rfl

namespace Core

variable {core : Core} (hs : 0 < core.size) (hs' : core.size < 2 ^ 64)

include hs hs' in
theorem offset_lt (base : Address) (delta : Field) :
    (core.offset base delta).toNat < core.size :=
  CoreWar.offset_lt hs hs' base delta

include hs hs' in
theorem resolve_within (pc : Address) (mode : Mode) (field : Field) :
    (core.resolve pc mode field).1.Within core.size := by
  intro a ha
  cases mode with
  | immediate => simp [resolve] at ha
  | direct =>
    simp only [resolve, Operand.address.injEq] at ha
    exact ha ▸ offset_lt hs hs' _ _
  | indirect =>
    simp only [resolve, Operand.address.injEq] at ha
    exact ha ▸ offset_lt hs hs' _ _
  | autodecrement =>
    simp only [resolve, Operand.address.injEq, offset, size_modify] at ha
    exact ha ▸ CoreWar.offset_lt hs hs' _ _

end Core

namespace Instruction

theorem jump_lt {size : Nat} {next : Address} {a : Operand} (hn : next.toNat < size)
    (ha : a.Within size) (taken : Bool) :
    ∀ q ∈ (jump next a taken).toList, q.toNat < size := by
  intro q hq
  cases taken with
  | false =>
    simp only [jump, Successors.toList, Bool.false_eq_true, if_false, List.mem_singleton] at hq
    exact hq ▸ hn
  | true =>
    simp only [jump, Successors.toList, if_true, List.mem_singleton] at hq
    exact hq ▸ ha.getD_lt hn

theorem effect_successors_lt {core : Core} (hs : 0 < core.size) (hs' : core.size < 2 ^ 64)
    (i : Instruction) (pc : Address) {a : Operand} (ha : a.Within core.size) (b : Operand) :
    ∀ q ∈ (i.effect pc a b core).1.toList, q.toNat < core.size := by
  have hn : ∀ d, (core.offset pc d).toNat < core.size := core.offset_lt hs hs' pc
  intro q hq
  unfold effect at hq
  cases ho : i.opcode <;> simp only [ho] at hq
  case dat => simp [Successors.toList] at hq
  case mov | add | sub =>
    simp only [Successors.toList, List.mem_singleton] at hq
    exact hq ▸ hn 1
  case jmp | jmz | jmn => exact jump_lt (hn 1) ha _ q hq
  case djn => exact jump_lt (hn 1) ha _ q hq
  case cmp | slt =>
    simp only [Successors.toList, List.mem_singleton] at hq
    subst hq
    split
    · exact hn 2
    · exact hn 1
  case spl =>
    cases a with
    | immediate v =>
      simp only [Operand.address?, Option.map_none, Option.getD_none, Successors.toList,
        List.mem_singleton] at hq
      exact hq ▸ hn 1
    | address x =>
      simp only [Operand.address?, Option.map_some, Option.getD_some, Successors.toList,
        List.mem_cons, List.not_mem_nil, or_false] at hq
      rcases hq with rfl | rfl
      · exact hn 1
      · exact ha _ rfl

end Instruction

/-- A process goes on inside the ring. -/
theorem Core.step_successors_lt {core : Core} (hs : 0 < core.size) (hs' : core.size < 2 ^ 64)
    (pc : Address) : ∀ q ∈ (core.step pc).1.successors.toList, q.toNat < core.size := by
  intro q hq
  cases hf : (core.read pc).fault? with
  | some f =>
    rw [step_of_fault hf] at hq
    simp only [Successors.toList, List.mem_singleton] at hq
    exact hq ▸ offset_lt hs hs' pc 1
  | none =>
    by_cases hd : (core.read pc).opcode = .dat
    · rw [step_of_dat hd] at hq
      simp [Successors.toList] at hq
    · rw [step_of_allowed hf hd] at hq
      have ha : (core.operands pc).1.Within core.size := resolve_within hs hs' _ _ _
      rw [← size_operands core pc] at hs hs' ha ⊢
      exact Instruction.effect_successors_lt hs hs' _ pc ha _ q hq

/-! ### What a warrior does in its turn -/

namespace Warrior

theorem alive_eq (w : Warrior) : w.alive = !w.queue.toList.isEmpty := by
  rw [alive, ProcessQueue.isEmpty_eq]

theorem alive_iff (w : Warrior) : w.alive = true ↔ w.queue.toList ≠ [] := by
  rw [alive_eq]
  cases w.queue.toList <;> simp

@[simp] theorem toList_spawn (w : Warrior) : ∀ pcs : List Address,
    (w.spawn pcs).queue.toList = w.queue.toList ++ pcs
  | [] => by simp [spawn]
  | pc :: pcs => by
    have h := toList_spawn { w with queue := w.queue.push pc } pcs
    simpa [spawn] using h

/-- The front process runs and its successors go to the back. -/
theorem act_of_cons {w : Warrior} {pc : Address} {pcs : List Address}
    (h : w.queue.toList = pc :: pcs) (core : Core) :
    w.act core = (some (core.step pc).1,
      ⟨w.id, .ofList (pcs ++ (core.step pc).1.successors.toList)⟩, (core.step pc).2) := by
  have hp : w.queue.pop? = some (pc, .ofList pcs) := by
    rw [ProcessQueue.pop?_eq, h]
    rfl
  unfold act
  simp only [hp]
  refine congrArg (fun q => (some (core.step pc).1, (⟨w.id, q⟩ : Warrior), (core.step pc).2)) ?_
  apply ProcessQueue.ext
  have hq := toList_spawn ⟨w.id, .ofList pcs⟩ (core.step pc).1.successors.toList
  rw [ProcessQueue.toList_ofList] at hq ⊢
  exact hq

/-- A warrior that is alive has a front process, which runs. -/
theorem act_of_alive {w : Warrior} (h : w.alive = true) (core : Core) : ∃ pc pcs,
    w.queue.toList = pc :: pcs ∧ w.act core = (some (core.step pc).1,
      ⟨w.id, .ofList (pcs ++ (core.step pc).1.successors.toList)⟩, (core.step pc).2) := by
  obtain ⟨pc, pcs, hq⟩ := List.exists_cons_of_ne_nil ((alive_iff w).mp h)
  exact ⟨pc, pcs, hq, act_of_cons hq core⟩

theorem act_id (w : Warrior) (core : Core) : (w.act core).2.1.id = w.id := by
  unfold act
  split <;> rfl

theorem size_act (w : Warrior) (core : Core) : (w.act core).2.2.size = core.size := by
  unfold act
  split
  · rfl
  · exact core.size_step _

/-- The processes of a warrior stay in the ring. -/
theorem act_queue_lt {w : Warrior} {core : Core} (hs : 0 < core.size)
    (hs' : core.size < 2 ^ 64) (h : ∀ pc ∈ w.queue.toList, pc.toNat < core.size) :
    ∀ pc ∈ (w.act core).2.1.queue.toList, pc.toNat < core.size := by
  cases hq : w.queue.toList with
  | nil =>
    have hp : w.queue.pop? = none := by
      rw [ProcessQueue.pop?_eq, hq]
      rfl
    unfold act
    simp only [hp]
    exact h
  | cons pc pcs =>
    rw [act_of_cons hq]
    intro q hmem
    rw [ProcessQueue.toList_ofList] at hmem
    rcases List.mem_append.mp hmem with hmem | hmem
    · exact h q (by rw [hq]; exact List.mem_cons_of_mem _ hmem)
    · exact core.step_successors_lt hs hs' pc q hmem

end Warrior

end CoreWar
