/-
# What one step changes

A step changes the core in two ways. First, every autodecrement operand takes
one from the B-field of its pointer cell, the cell that its field, as fetched,
leads to from the program counter. Both operands are resolved whether the
instruction needs them or not, so a cell loses as many as there are operands
that point at it (`Core.operands_core`). Then at most one cell is updated: by
`MOV`, `ADD`, `SUB` and `DJN`, the cell that B leads to
(`Core.destination`). Where B leads is decided after the decrements, so an
A-operand can redirect B. `DAT` and disallowed instructions change nothing.

Opcode and modes of a cell change only when a whole cell is copied, and
A-fields change only then or when a whole cell is added or subtracted
(`Core.Keeps.effect`).

Key definitions: `Core.decrements`, `Core.decremented`, `Core.destination`,
`Core.Keeps`, `Core.Framed`.
Key theorems: `Core.operands_core`, `Core.target_operands`,
`Core.step_core_of_allowed`, `Core.step_framed`.
-/
import CoreWar.Proofs.Incidents
import CoreWar.Proofs.Shapes

namespace CoreWar

namespace Instruction

/-- Mode and field of A, then of B. -/
def operands (i : Instruction) : List (Mode × Field) := [(i.aMode, i.aField), (i.bMode, i.bField)]

/-- Take `n` from the B-field, going round at the ends of its range. -/
def lower (n : Nat) (i : Instruction) : Instruction := { i with bField := i.bField - Int64.ofNat n }

/-- Does the instruction copy a whole cell? -/
def Copies (i : Instruction) : Prop :=
  i.opcode = .mov ∧ i.aMode ≠ .immediate ∧ i.bMode ≠ .immediate

/-- Does the instruction add or subtract both fields of a cell? -/
def Accumulates (i : Instruction) : Prop :=
  (i.opcode = .add ∨ i.opcode = .sub) ∧ i.aMode ≠ .immediate

@[simp] theorem lower_zero : lower 0 = id := by
  funext i
  simp [lower]

theorem lower_lower (m n : Nat) (i : Instruction) : (i.lower m).lower n = i.lower (m + n) := by
  have h : i.bField - Int64.ofNat m - Int64.ofNat n = i.bField - Int64.ofNat (m + n) := by
    rw [Int64.ofNat_add, Int64.sub_eq_add_neg, Int64.sub_eq_add_neg, Int64.sub_eq_add_neg,
      Int64.neg_add, Int64.sub_eq_add_neg, Int64.add_assoc]
  simp only [lower, h]

end Instruction

/-! ### The two parts of a step -/

namespace Core

/-- How many autodecrement operands of the instruction at `pc` have the cell `x` as their
pointer. -/
def decrements (core : Core) (pc : Address) (x : Nat) : Nat :=
  (core.read pc).operands.countP fun (mode, field) =>
    mode = .autodecrement ∧ (core.offset pc field).toNat = x

/-- The core after the operands of the instruction at `pc` have had what they take. -/
def decremented (core : Core) (pc : Address) : Core :=
  ⟨core.cells.mapIdx fun x cell => cell.lower (core.decrements pc x)⟩

/-- The cell that the B-operand of the instruction at `pc` leads to, and the executing cell
when B is immediate. -/
def destination (core : Core) (pc : Address) : Address :=
  let pointer := core.offset pc (core.read pc).bField
  match (core.read pc).bMode with
  | .immediate => pc
  | .direct => pointer
  | .indirect | .autodecrement =>
    core.offset pointer ((core.decremented pc).read pointer).bField

/-! ### What operands take -/

theorem cells_resolve {core : Core} (hs : 0 < core.size) (hs' : core.size < 2 ^ 64) (pc : Address)
    (mode : Mode) (field : Field) (x : Nat) :
    (core.resolve pc mode field).2.cells[x]? = core.cells[x]?.map (Instruction.lower
      (if mode = .autodecrement ∧ (core.offset pc field).toNat = x then 1 else 0)) := by
  have hlt := core.offset_lt hs hs' pc field
  have hindex : core.index (core.offset pc field) = (core.offset pc field).toNat :=
    Nat.mod_eq_of_lt hlt
  cases mode with
  | immediate | direct | indirect => simp [resolve]
  | autodecrement =>
    simp only [resolve, modify, hindex, Array.getElem?_modify, true_and]
    split
    · rfl
    · simp

theorem resolve_fst (core : Core) (pc : Address) (mode : Mode) (field : Field) :
    (core.resolve pc mode field).1 = match mode with
      | .immediate => .immediate field
      | .direct => .address (core.offset pc field)
      | .indirect | .autodecrement => .address (core.offset (core.offset pc field)
          ((core.resolve pc mode field).2.read (core.offset pc field)).bField) := by
  cases mode with
  | immediate | direct | indirect => rfl
  | autodecrement => simp [resolve, offset]

section Operands

variable {core : Core} (hs : 0 < core.size) (hs' : core.size < 2 ^ 64) (pc : Address)

include hs hs'

theorem cells_operands (x : Nat) : (core.operands pc).2.2.cells[x]? =
    core.cells[x]?.map (Instruction.lower (core.decrements pc x)) := by
  have hsize := core.size_resolve pc (core.read pc).aMode (core.read pc).aField
  have hoffset (field : Field) :
      (core.resolve pc (core.read pc).aMode (core.read pc).aField).2.offset pc field =
        core.offset pc field := by
    simp only [offset, hsize]
  -- B takes its part from what A has left
  simp only [operands, cells_resolve (hsize ▸ hs) (hsize ▸ hs'), cells_resolve hs hs', hoffset,
    Option.map_map]
  refine congrArg (fun f => core.cells[x]?.map f) (funext fun cell => ?_)
  rw [Function.comp_apply, Instruction.lower_lower, decrements, Instruction.operands]
  simp [List.countP_cons, Nat.add_comm]

/-- **Resolving the operands changes the core by what they take.** -/
theorem operands_core : (core.operands pc).2.2 = core.decremented pc := by
  have hcells : (core.operands pc).2.2.cells = (core.decremented pc).cells := by
    apply Array.ext_getElem?
    intro x
    rw [cells_operands hs hs', decremented, Array.getElem?_mapIdx]
  exact congrArg Core.mk hcells

theorem target_operands :
    Instruction.target pc (core.operands pc).2.1 = core.destination pc := by
  have hsize := core.size_resolve pc (core.read pc).aMode (core.read pc).aField
  have hcore := operands_core hs hs' pc
  simp only [operands] at hcore ⊢
  rw [resolve_fst, hcore]
  unfold destination
  cases (core.read pc).bMode with
  | immediate => rfl
  | direct | indirect | autodecrement =>
    simp only [Instruction.target, Operand.address?, Option.getD_some, offset, hsize]

end Operands

end Core

/-! ### The one update -/

namespace Instruction

variable (i : Instruction) (pc : Address) (a b : Operand) (core : Core)

/-- The opcodes that update a cell. -/
def writers : List Opcode := [.mov, .add, .sub, .djn]

/-- The opcodes that only look at the core. -/
def readers : List Opcode := [.jmp, .jmz, .jmn, .cmp, .slt, .spl]

theorem effect_of_reader (h : i.opcode ∈ readers) : (i.effect pc a b core).2 = core := by
  unfold effect
  cases ho : i.opcode with
  | mov | add | sub | djn => simp [readers, ho] at h
  | dat | jmp | jmz | jmn | cmp | slt | spl => rfl

theorem move_eq_write : ∃ cell, i.move pc a b core = core.write (target pc b) cell := by
  cases a with
  | immediate v => exact ⟨_, core.modify_eq_write _ _⟩
  | address src =>
    cases b with
    | immediate v => exact ⟨_, core.modify_eq_write _ _⟩
    | address dst => exact ⟨core.read src, rfl⟩

theorem arithmetic_eq_write (op : Opcode) :
    ∃ cell, arithmetic op pc a b core = core.write (target pc b) cell := by
  cases a with
  | immediate v => exact ⟨_, core.modify_eq_write _ _⟩
  | address src => exact ⟨_, core.modify_eq_write _ _⟩

theorem effect_of_writer (h : i.opcode ∈ writers) :
    ∃ cell, (i.effect pc a b core).2 = core.write (target pc b) cell := by
  unfold effect
  cases ho : i.opcode with
  | mov => exact i.move_eq_write pc a b core
  | add | sub => exact arithmetic_eq_write pc a b core _
  | djn => exact ⟨_, core.modify_eq_write _ _⟩
  | dat | jmp | jmz | jmn | cmp | slt | spl => simp [writers, ho] at h

end Instruction

/-! ### What cells keep -/

section Parts

variable {α : Type}

/-- The part `g` of an instruction does not depend on its B-field. -/
def SkipsB (g : Instruction → α) : Prop :=
  ∀ (i : Instruction) (v : Field), g { i with bField := v } = g i

/-- The part `g` of an instruction does not depend on its fields. -/
def SkipsFields (g : Instruction → α) : Prop :=
  ∀ (i : Instruction) (v w : Field), g { i with aField := v, bField := w } = g i

/-- The part `g` of every cell is the same before and after. -/
def Core.Keeps (g : Instruction → α) (core after : Core) : Prop :=
  ∀ x : Nat, after.cells[x]?.map g = core.cells[x]?.map g

variable {g : Instruction → α} {core : Core}

namespace Core.Keeps

theorem refl (g : Instruction → α) (core : Core) : core.Keeps g core := fun _ => rfl

theorem trans {after later : Core} (h : core.Keeps g after) (h' : after.Keeps g later) :
    core.Keeps g later := fun x => (h' x).trans (h x)

theorem modify (a : Address) {f : Instruction → Instruction} (hf : ∀ i, g (f i) = g i) :
    core.Keeps g (core.modify a f) := by
  intro x
  simp only [Core.modify, Array.getElem?_modify]
  split
  · rw [Option.map_map]
    exact congrArg (fun k => core.cells[x]?.map k) (funext hf)
  · rfl

theorem resolve (hg : SkipsB g) (pc : Address) (mode : Mode) (field : Field) :
    core.Keeps g (core.resolve pc mode field).2 := by
  cases mode with
  | immediate | direct | indirect => exact refl g core
  | autodecrement => exact modify _ fun i => hg i _

theorem operands (hg : SkipsB g) (pc : Address) : core.Keeps g (core.operands pc).2.2 :=
  (resolve hg pc _ _).trans (resolve hg pc _ _)

/-- A move that is no copy stores a B-field. -/
theorem move (hg : SkipsB g) (i : Instruction) (pc : Address) {a b : Operand}
    (h : a.address? = none ∨ b.address? = none) : core.Keeps g (i.move pc a b core) := by
  unfold Instruction.move
  split
  · simp [Operand.address?] at h
  · exact modify _ fun cell => hg cell _

/-- Arithmetic with a number changes a B-field, and with a cell both fields. -/
theorem arithmetic (hg : SkipsB g) (op : Opcode) (pc : Address) {a : Operand} (b : Operand)
    (h : a.address? = none ∨ SkipsFields g) :
    core.Keeps g (Instruction.arithmetic op pc a b core) := by
  unfold Instruction.arithmetic
  split
  · exact modify _ fun cell => hg cell _
  · rcases h with h | h
    · simp [Operand.address?] at h
    · exact modify _ fun cell => h cell _ _

/-- Whatever is not part of the B-field stays in every cell, unless a cell is copied or, if it
is part of the A-field, accumulated. -/
theorem effect (hg : SkipsB g) (i : Instruction) (pc : Address) {a b : Operand}
    (hcopy : i.opcode = .mov → a.address? = none ∨ b.address? = none)
    (hadd : i.opcode = .add ∨ i.opcode = .sub → a.address? = none ∨ SkipsFields g) :
    core.Keeps g (i.effect pc a b core).2 := by
  unfold Instruction.effect
  cases ho : i.opcode with
  | dat | jmp | jmz | jmn | cmp | slt | spl => exact refl g core
  | mov => exact move hg i pc (hcopy ho)
  | add => exact arithmetic hg .add pc b (hadd (.inl ho))
  | sub => exact arithmetic hg .sub pc b (hadd (.inr ho))
  | djn => exact modify _ fun cell => hg cell _

end Core.Keeps

end Parts

theorem Core.address?_resolve_immediate (core : Core) (pc : Address) {mode : Mode} (field : Field)
    (h : mode = .immediate) : (core.resolve pc mode field).1.address? = none := by
  subst h
  rfl

/-! ### One step -/

namespace Core

variable {core : Core} {pc : Address}

theorem step_core_of_allowed (hs : 0 < core.size) (hs' : core.size < 2 ^ 64)
    (hf : (core.read pc).fault? = none) (hd : (core.read pc).opcode ≠ .dat) :
    (core.step pc).2 = ((core.read pc).effect pc (core.operands pc).1 (core.operands pc).2.1
      (core.decremented pc)).2 := by
  rw [step_of_allowed hf hd, operands_core hs hs' pc]

theorem step_core_of_idle
    (h : (core.read pc).opcode = .dat ∨ ∃ slot, (core.read pc).Disallowed slot) :
    (core.step pc).2 = core := by
  rcases h with hd | ⟨slot, hslot⟩
  · rw [step_of_dat hd]
  · rw [step_of_fault (Instruction.fault?_eq_some_iff (f := ⟨_, slot⟩).mpr ⟨rfl, hslot⟩)]

theorem Keeps.step {α : Type} {g : Instruction → α} (hg : SkipsB g)
    (hcopy : ¬ (core.read pc).Copies) (hadd : ¬ (core.read pc).Accumulates ∨ SkipsFields g) :
    core.Keeps g (core.step pc).2 := by
  cases hf : (core.read pc).fault? with
  | some f =>
    rw [step_of_fault hf]
    exact refl g core
  | none =>
    by_cases hd : (core.read pc).opcode = .dat
    · rw [step_of_dat hd]
      exact refl g core
    rw [step_of_allowed hf hd]
    refine (operands hg pc).trans (effect hg _ pc (fun hmov => ?_) fun harith => ?_)
    · by_cases ha : (core.read pc).aMode = .immediate
      · exact .inl (core.address?_resolve_immediate pc _ ha)
      · have hb : (core.read pc).bMode = .immediate := by
          by_contra hb
          exact hcopy ⟨hmov, ha, hb⟩
        exact .inr (Core.address?_resolve_immediate _ pc _ hb)
    · rcases hadd with hadd | hadd
      · have ha : (core.read pc).aMode = .immediate := by
          by_contra ha
          exact hadd ⟨harith, ha⟩
        exact .inl (core.address?_resolve_immediate pc _ ha)
      · exact .inr hadd

/-- What running the instruction at `pc` may change in the core. -/
structure Framed (core : Core) (pc : Address) (after : Core) : Prop where
  /-- `DAT` and a disallowed instruction change nothing. -/
  idle : (core.read pc).opcode = .dat ∨ (∃ slot, (core.read pc).Disallowed slot) → after = core
  /-- An instruction that only looks at the core changes it by what its operands take. -/
  reader : (core.read pc).opcode ∈ Instruction.readers →
    (∀ slot, ¬ (core.read pc).Disallowed slot) → after = core.decremented pc
  /-- An instruction that writes updates the cell that B leads to, and no other. -/
  writer : (core.read pc).opcode ∈ Instruction.writers →
    (∀ slot, ¬ (core.read pc).Disallowed slot) →
      ∃ cell, after = (core.decremented pc).write (core.destination pc) cell
  /-- Opcodes and modes change only by a copy. -/
  shapes : ¬ (core.read pc).Copies → core.Keeps Instruction.shape after
  /-- A-fields change only by a copy or when a cell is accumulated. -/
  aFields : ¬ (core.read pc).Copies → ¬ (core.read pc).Accumulates →
    core.Keeps Instruction.aField after

/-- **A step changes what its operands take, and then at most one cell.** -/
theorem step_framed (hs : 0 < core.size) (hs' : core.size < 2 ^ 64) (pc : Address) :
    core.Framed pc (core.step pc).2 where
  idle := step_core_of_idle
  reader h hallowed := by
    have hf := Instruction.fault?_eq_none_iff.mpr hallowed
    have hd : (core.read pc).opcode ≠ .dat := fun hd => by simp [hd, Instruction.readers] at h
    rw [step_core_of_allowed hs hs' hf hd, Instruction.effect_of_reader _ _ _ _ _ h]
  writer h hallowed := by
    have hf := Instruction.fault?_eq_none_iff.mpr hallowed
    have hd : (core.read pc).opcode ≠ .dat := fun hd => by simp [hd, Instruction.writers] at h
    obtain ⟨cell, hcell⟩ := Instruction.effect_of_writer (core.read pc) pc (core.operands pc).1
      (core.operands pc).2.1 (core.decremented pc) h
    refine ⟨cell, ?_⟩
    rw [step_core_of_allowed hs hs' hf hd, hcell, target_operands hs hs']
  shapes hcopy := Keeps.step (fun _ _ => rfl) hcopy (.inr fun _ _ _ => rfl)
  aFields hcopy hadd := Keeps.step (fun _ _ => rfl) hcopy (.inl hadd)

/-- A copy whose operands share their pointer, the cell behind it. -/
def tangle : Core :=
  ⟨#[⟨.mov, .autodecrement, 1, .autodecrement, 1⟩, ⟨.dat, .immediate, 0, .immediate, 3⟩, .neutral,
    ⟨.jmp, .direct, 7, .indirect, 8⟩, .neutral]⟩

/-- The pointer goes from 3 to 1, A leads to the jump on the way, and the jump is copied to where
B leads in the end. -/
theorem step_framed_tangle : 0 < tangle.size ∧ tangle.size < 2 ^ 64 ∧
    tangle.Framed 0 (tangle.step 0).2 ∧ tangle.decrements 0 1 = 2 ∧
    ((tangle.step 0).2.read 2).opcode = .jmp ∧
    ∃ cell, (tangle.step 0).2 = (tangle.decremented 0).write 2 cell := by
  have hframed : tangle.Framed 0 (tangle.step 0).2 := step_framed (by decide) (by decide) 0
  have hdestination : tangle.destination 0 = 2 := by decide
  have hwritten := hframed.writer (by decide) (Instruction.fault?_eq_none_iff.mp (by decide))
  rw [hdestination] at hwritten
  exact ⟨by decide, by decide, hframed, by decide, by decide, hwritten⟩

end Core

end CoreWar
