/-
# How many processes follow

`DAT` leaves no successor. `SPL` with an A-operand that is not immediate
leaves two: the next cell, then the cell that A leads to. Every other
instruction leaves exactly one, whether it is disallowed, jumps, skips or
does neither. So the number of successors can be read off the instruction as
it was fetched (`Instruction.offspring`), and along a list of steps the
successors outnumber the steps by the splits less the `DAT`s
(`Step.sum_offspring`).

Key definitions: `Instruction.splits`, `Instruction.offspring`, `Succession`.
Key theorems: `Core.length_successors`, `Core.step_split`,
`Core.step_succession`, `Step.sum_offspring`.
-/
import Mathlib.Algebra.Ring.Nat
import CoreWar.Proofs.Stepping

namespace CoreWar

namespace Instruction

/-- Does the instruction start a second process? -/
def splits (i : Instruction) : Bool := i.opcode = .spl && !i.aMode.isImmediate

/-- The number of successors of a process that runs the instruction. -/
def offspring (i : Instruction) : Nat :=
  if i.opcode = .dat then 0 else if i.splits then 2 else 1

theorem isImmediate_iff {mode : Mode} : mode.isImmediate = true ↔ mode = .immediate := by
  cases mode <;> simp [Mode.isImmediate]

theorem splits_iff {i : Instruction} :
    i.splits = true ↔ i.opcode = .spl ∧ i.aMode ≠ .immediate := by
  simp [splits, ← isImmediate_iff]

theorem offspring_of_dat {i : Instruction} (hd : i.opcode = .dat) : i.offspring = 0 :=
  if_pos hd

/-- The successors of an instruction that neither ends nor splits its process. -/
theorem offspring_of_plain {i : Instruction} (hd : i.opcode ≠ .dat) (hs : i.splits = false) :
    i.offspring = 1 := by
  simp [offspring, hd, hs]

theorem offspring_of_splits {i : Instruction} (hs : i.splits = true) : i.offspring = 2 := by
  have hd : i.opcode ≠ .dat := by simp [(splits_iff.mp hs).1]
  simp [offspring, hd, hs]

theorem length_jump (next : Address) (a : Operand) (taken : Bool) :
    (jump next a taken).toList.length = 1 := by
  cases taken <;> rfl

theorem length_effect {i : Instruction} (hd : i.opcode ≠ .dat) (hs : i.opcode ≠ .spl)
    (pc : Address) (a b : Operand) (core : Core) :
    (i.effect pc a b core).1.toList.length = 1 := by
  unfold effect
  cases ho : i.opcode with
  | dat => exact absurd ho hd
  | spl => exact absurd ho hs
  | mov | add | sub | cmp | slt => rfl
  | jmp | jmz | jmn | djn => simp only [length_jump]

end Instruction

namespace Core

@[simp] theorem step_pc (core : Core) (pc : Address) : (core.step pc).1.pc = pc := by
  unfold step
  simp only
  split <;> rfl

@[simp] theorem step_instruction (core : Core) (pc : Address) :
    (core.step pc).1.instruction = core.read pc := by
  unfold step
  simp only
  split <;> rfl

theorem step_fault (core : Core) (pc : Address) :
    (core.step pc).1.fault = (core.read pc).fault? := by
  cases hf : (core.read pc).fault? with
  | some f => rw [step_of_fault hf]
  | none =>
    by_cases hd : (core.read pc).opcode = .dat
    · rw [step_of_dat hd]
    · rw [step_of_allowed hf hd]

theorem exists_address (core : Core) (pc : Address) {mode : Mode} (h : mode ≠ .immediate)
    (field : Field) : ∃ a, (core.resolve pc mode field).1 = .address a := by
  cases mode with
  | immediate => exact absurd rfl h
  | direct | indirect | autodecrement => exact ⟨_, rfl⟩

/-- A split goes on at the next cell and starts a process where A leads. -/
theorem step_split {core : Core} {pc : Address} (h : (core.read pc).splits = true) :
    ∃ child, (core.resolve pc (core.read pc).aMode (core.read pc).aField).1 = .address child ∧
      (core.step pc).1.successors = .two (core.offset pc 1) child := by
  obtain ⟨hop, hmode⟩ := Instruction.splits_iff.mp h
  have himm : (core.read pc).aMode.isImmediate ≠ true := fun hi =>
    hmode (Instruction.isImmediate_iff.mp hi)
  have hf : (core.read pc).fault? = none := by
    simp only [Instruction.fault?, hop]
    rw [if_neg himm]
  obtain ⟨child, hchild⟩ := core.exists_address pc hmode (core.read pc).aField
  refine ⟨child, hchild, ?_⟩
  have ha : (core.operands pc).1 = .address child := hchild
  rw [step_of_allowed hf (by simp [hop])]
  simp [Instruction.effect, hop, ha, Operand.address?, offset]

/-- **The instruction says how many successors there are.** -/
theorem length_successors (core : Core) (pc : Address) :
    (core.step pc).1.successors.toList.length = (core.read pc).offspring := by
  by_cases hd : (core.read pc).opcode = .dat
  · rw [step_of_dat hd]
    rw [Instruction.offspring_of_dat hd]
    rfl
  cases hs : (core.read pc).splits with
  | true =>
    obtain ⟨child, -, hsucc⟩ := step_split hs
    rw [hsucc, Instruction.offspring_of_splits hs]
    rfl
  | false =>
    rw [Instruction.offspring_of_plain hd hs]
    cases hf : (core.read pc).fault? with
    | some f =>
      rw [step_of_fault hf]
      rfl
    | none =>
      have hspl : (core.read pc).opcode ≠ .spl := by
        -- an allowed `SPL` has an A-operand that leads somewhere, so it splits
        intro hop
        have himm : (core.read pc).aMode.isImmediate = true := by
          simpa [Instruction.splits, hop] using hs
        simp [Instruction.fault?, hop, himm] at hf
      rw [step_of_allowed hf hd]
      exact Instruction.length_effect hd hspl _ _ _ _

end Core

/-- What joins the queue behind the process at `pc`, by the instruction fetched there. -/
structure Succession (core : Core) (pc : Address) (joined : List Address) : Prop where
  /-- `DAT`: nothing. -/
  dat : (core.read pc).opcode = .dat → joined = []
  /-- `SPL` with an A-operand that is not immediate: the next cell and the cell A leads to. -/
  spl : (core.read pc).opcode = .spl → (core.read pc).aMode ≠ .immediate →
    ∃ next child, joined = [next, child] ∧ next.toNat = (pc.toNat + 1) % core.size ∧
      (core.resolve pc (core.read pc).aMode (core.read pc).aField).1 = .address child
  /-- Everything else: one address in the ring. -/
  other : (core.read pc).opcode ≠ .dat →
    ¬ ((core.read pc).opcode = .spl ∧ (core.read pc).aMode ≠ .immediate) →
    ∃ next, joined = [next] ∧ next.toNat < core.size

namespace Core

variable {core : Core} (hs : 0 < core.size) (hs' : core.size < 2 ^ 63)

include hs hs'

/-- The successors of a process in the ring. -/
theorem step_succession {pc : Address} (hpc : pc.toNat < core.size) :
    Succession core pc (core.step pc).1.successors.toList where
  dat := by
    intro hd
    rw [step_of_dat hd]
    rfl
  spl := by
    intro hop hmode
    obtain ⟨child, hchild, hsucc⟩ := step_split (Instruction.splits_iff.mpr ⟨hop, hmode⟩)
    refine ⟨core.offset pc 1, child, ?_, offset_one_toNat hs hs' hpc, hchild⟩
    rw [hsucc]
    rfl
  other := by
    intro hd hspl
    have hplain : (core.read pc).splits = false :=
      Bool.eq_false_iff.mpr fun h => hspl (Instruction.splits_iff.mp h)
    have hlen := core.length_successors pc
    rw [Instruction.offspring_of_plain hd hplain] at hlen
    obtain ⟨next, hnext⟩ := List.length_eq_one_iff.mp hlen
    refine ⟨next, hnext, ?_⟩
    exact core.step_successors_lt hs (by omega) pc next (by simp [hnext])

end Core

/-- Steps have as many successors as there are of them, and one more for each split and
one less for each `DAT`. -/
theorem Step.sum_offspring : ∀ steps : List Step,
    (steps.map fun s => s.instruction.offspring).sum +
        steps.countP (fun s => s.instruction.opcode = .dat) =
      steps.length + steps.countP fun s => s.instruction.splits
  | [] => rfl
  | s :: steps => by
    have ih := sum_offspring steps
    simp only [List.map_cons, List.sum_cons, List.countP_cons, List.length_cons]
    by_cases hd : s.instruction.opcode = .dat
    · have hs : s.instruction.splits = false := by simp [Instruction.splits, hd]
      simp only [Instruction.offspring_of_dat hd, hd, hs, decide_true, if_true, Bool.false_eq_true,
        if_false]
      omega
    · cases hs : s.instruction.splits with
      | true =>
        simp only [Instruction.offspring_of_splits hs, hd, decide_false, Bool.false_eq_true,
          if_true, if_false]
        omega
      | false =>
        simp only [Instruction.offspring_of_plain hd hs, hd, decide_false, Bool.false_eq_true,
          if_false]
        omega

end CoreWar
