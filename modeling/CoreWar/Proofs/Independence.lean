/-
# Independent steps commute

A step looks at few cells and changes fewer. It looks at the cell that it
fetches, at the pointers of its indirect and autodecrement operands and at
the cells that its operands lead to (`Core.touched`); it may change the
autodecremented pointers and, if its opcode writes, the cell that B leads to
(`Core.written`). `DAT` and disallowed instructions get no further than the
fetch.

Cores are compared on some of their cells (`Core.Agree`). Two cores that agree
on what a step touches take the step with the same record, write the same
cells (`Core.Agree.written`), and agree afterwards wherever they did before
(`Core.Agree.step`); and a step leaves a core as it was outside of what it
writes (`Core.agree_step`). So, when neither of two steps writes what the other
touches, neither notices whether the other was taken before it, and the two
can be taken in either order (`Core.step_comm`, `Warrior.act_comm`).

Key definitions: `Core.touched`, `Core.written`, `Core.Independent`,
`Core.Agree`.
Key theorems: `Core.Agree.operands`, `Core.Agree.effect`, `Core.Agree.step`,
`Core.agree_step`, `Core.step_comm`, `Warrior.act_comm`.
-/
import CoreWar.Proofs.Frame

namespace CoreWar

/-- Apart from `DAT`, what does not write only looks. -/
theorem Instruction.mem_readers {op : Opcode} (hd : op ≠ .dat) (hw : op ∉ writers) :
    op ∈ readers := by
  revert hd hw
  cases op <;> decide

/-! ### What a step touches and what it writes -/

namespace Core

/-- Does the step at `pc` get as far as its operands? -/
def resolves (core : Core) (pc : Address) : Bool :=
  (core.read pc).fault?.isNone && (core.read pc).opcode != .dat

/-- The pointers of those operands of the instruction at `pc` whose mode is among `modes`. -/
def pointers (core : Core) (pc : Address) (modes : List Mode) : List Nat :=
  ((core.read pc).operands.filter fun (mode, _) => mode ∈ modes).map fun (_, field) =>
    core.index (core.offset pc field)

/-- The cells that the operands of the instruction at `pc` lead to. -/
def addressed (core : Core) (pc : Address) : List Nat :=
  ((core.operands pc).1.address?.toList ++ (core.operands pc).2.1.address?.toList).map core.index

/-- The cells that the step at `pc` reads or writes. -/
def touched (core : Core) (pc : Address) : List Nat :=
  core.index pc ::
    if core.resolves pc then core.pointers pc [.indirect, .autodecrement] ++ core.addressed pc
    else []

/-- The cells that the step at `pc` may write. -/
def written (core : Core) (pc : Address) : List Nat :=
  if core.resolves pc then
    core.pointers pc [.autodecrement] ++
      if (core.read pc).opcode ∈ Instruction.writers then
        [core.index (Instruction.target pc (core.operands pc).2.1)]
      else []
  else []

/-- Neither of the steps at `p` and `q` writes what the other touches. -/
def Independent (core : Core) (p q : Address) : Prop :=
  (∀ x ∈ core.written p, x ∉ core.touched q) ∧ (∀ x ∈ core.written q, x ∉ core.touched p)

instance (core : Core) (p q : Address) : Decidable (core.Independent p q) :=
  inferInstanceAs (Decidable (_ ∧ _))

section Cells

variable {core : Core} {pc : Address}

theorem resolves_iff : core.resolves pc = true ↔
    (core.read pc).fault? = none ∧ (core.read pc).opcode ≠ .dat := by
  simp [resolves]

theorem mem_pointers {modes : List Mode} {x : Nat} : x ∈ core.pointers pc modes ↔
    ∃ mode field, (mode, field) ∈ (core.read pc).operands ∧ mode ∈ modes ∧
      core.index (core.offset pc field) = x := by
  simp [pointers, and_assoc]

theorem index_pc_mem_touched : core.index pc ∈ core.touched pc := List.mem_cons_self

variable {X : Nat → Prop}

/-- What is true of all that a step touches is true of what its operands need. -/
theorem forall_touched (hr : core.resolves pc = true) (hX : ∀ x ∈ core.touched pc, X x) :
    X (core.index pc) ∧ (∀ x ∈ core.pointers pc [.indirect, .autodecrement], X x) ∧
      (∀ s, (core.operands pc).1.address? = some s → X (core.index s)) ∧
      (∀ s, (core.operands pc).2.1.address? = some s → X (core.index s)) := by
  rw [touched, if_pos hr] at hX
  have haddressed {s : Address} (hs : core.index s ∈ core.addressed pc) : X (core.index s) :=
    hX _ (List.mem_cons_of_mem _ (List.mem_append_right _ hs))
  refine ⟨hX _ List.mem_cons_self, fun x hx => ?_, fun s hs => ?_, fun s hs => ?_⟩
  · exact hX x (List.mem_cons_of_mem _ (List.mem_append_left _ hx))
  · exact haddressed (by simp [addressed, hs])
  · exact haddressed (by simp [addressed, hs])

/-- A write goes to the fetched cell or to one that B leads to. -/
theorem index_target {b : Operand} (hpc : X (core.index pc))
    (hb : ∀ s, b.address? = some s → X (core.index s)) :
    X (core.index (Instruction.target pc b)) := by
  cases b with
  | immediate v => exact hpc
  | address s => exact hb s rfl

theorem written_subset_touched : ∀ x ∈ core.written pc, x ∈ core.touched pc := by
  intro x hx
  unfold written at hx
  split at hx
  · rename_i hr
    obtain ⟨hpc, hpointer, -, hb⟩ := forall_touched hr fun _ h => h
    rcases List.mem_append.mp hx with hx | hx
    · obtain ⟨mode, field, hmem, hmode, rfl⟩ := mem_pointers.mp hx
      exact hpointer _ (mem_pointers.mpr ⟨mode, field, hmem, List.mem_cons_of_mem _ hmode, rfl⟩)
    · split at hx
      · obtain rfl := List.mem_singleton.mp hx
        exact index_target hpc hb
      · simp at hx
  · simp at hx

end Cells

/-! ### Cores that agree on some cells -/

/-- Two cores of one size have the same content in the cells that satisfy `X`. -/
structure Agree (X : Nat → Prop) (core core' : Core) : Prop where
  size : core.size = core'.size
  cells : ∀ x, X x → core.cells[x]? = core'.cells[x]?

namespace Agree

variable {X : Nat → Prop} {core core' core'' : Core}

theorem refl (X : Nat → Prop) (core : Core) : core.Agree X core := ⟨rfl, fun _ _ => rfl⟩

theorem symm (h : core.Agree X core') : core'.Agree X core :=
  ⟨h.size.symm, fun x hx => (h.cells x hx).symm⟩

theorem trans (h : core.Agree X core') (h' : core'.Agree X core'') : core.Agree X core'' :=
  ⟨h.size.trans h'.size, fun x hx => (h.cells x hx).trans (h'.cells x hx)⟩

theorem index (h : core.Agree X core') (a : Address) : core.index a = core'.index a := by
  simp only [Core.index, h.size]

theorem offset (h : core.Agree X core') (base : Address) (delta : Field) :
    core.offset base delta = core'.offset base delta := by
  simp only [Core.offset, h.size]

theorem read (h : core.Agree X core') {a : Address} (ha : X (core.index a)) :
    core.read a = core'.read a := by
  unfold Core.read
  rw [Array.getD_eq_getD_getElem?, Array.getD_eq_getD_getElem?, ← h.index a, h.cells _ ha]

/-- The same write keeps all agreement, wherever it goes. -/
theorem write (h : core.Agree X core') (a : Address) (i : Instruction) :
    (core.write a i).Agree X (core'.write a i) := by
  refine ⟨by simp only [size_write, h.size], fun x hx => ?_⟩
  have hsize : core.cells.size = core'.cells.size := h.size
  unfold Core.write
  simp only [Array.getElem?_setIfInBounds, h.index a, hsize, h.cells x hx]

/-- A change depends on what it changes. -/
theorem modify (h : core.Agree X core') {a : Address} (ha : X (core.index a))
    (f : Instruction → Instruction) : (core.modify a f).Agree X (core'.modify a f) := by
  rw [modify_eq_write, modify_eq_write, ← h.read ha]
  exact h.write a _

end Agree

/-- A write leaves all other cells as they are. -/
theorem agree_write {X : Nat → Prop} {core : Core} {a : Address} (ha : ¬ X (core.index a))
    (i : Instruction) : (core.write a i).Agree X core := by
  refine ⟨size_write core a i, fun x hx => ?_⟩
  have hne : core.index a ≠ x := fun he => ha (he ▸ hx)
  exact Array.getElem?_setIfInBounds_ne hne

theorem index_modify (core : Core) (a b : Address) (f : Instruction → Instruction) :
    (core.modify a f).index b = core.index b := by
  simp only [index, size_modify]

theorem agree_modify {X : Nat → Prop} {core : Core} {a : Address} (ha : ¬ X (core.index a))
    (f : Instruction → Instruction) : (core.modify a f).Agree X core := by
  rw [modify_eq_write]
  exact agree_write ha _

/-! ### Operands -/

/-- One operand does not move the pointer of the other. -/
theorem index_offset_resolve (core : Core) (pc : Address) (mode : Mode) (field field' : Field) :
    (core.resolve pc mode field).2.index ((core.resolve pc mode field).2.offset pc field') =
      core.index (core.offset pc field') := by
  simp only [index, offset, size_resolve]

namespace Agree

variable {X : Nat → Prop} {core core' : Core}

/-- An operand depends on its pointer. -/
theorem resolve (h : core.Agree X core') (pc : Address) (mode : Mode) (field : Field)
    (hp : mode ∈ [Mode.indirect, .autodecrement] → X (core.index (core.offset pc field))) :
    (core.resolve pc mode field).1 = (core'.resolve pc mode field).1 ∧
      (core.resolve pc mode field).2.Agree X (core'.resolve pc mode field).2 := by
  cases mode with
  | immediate => exact ⟨rfl, h⟩
  | direct => exact ⟨congrArg Operand.address (h.offset pc field), h⟩
  | indirect =>
    have hpointer := hp (by decide)
    unfold Core.resolve
    simp only [← h.offset, ← h.read hpointer]
    exact ⟨trivial, h⟩
  | autodecrement =>
    have hpointer := hp (by decide)
    have hmodify := h.modify hpointer .decrement
    unfold Core.resolve
    simp only [← h.offset]
    refine ⟨?_, hmodify⟩
    rw [← hmodify.offset, ← hmodify.read (by rwa [index_modify])]

variable {pc : Address}

/-- Both operands depend on the fetched cell and on their pointers. -/
theorem operands (h : core.Agree X core') (hpc : X (core.index pc))
    (hp : ∀ x ∈ core.pointers pc [.indirect, .autodecrement], X x) :
    (core.operands pc).1 = (core'.operands pc).1 ∧
      (core.operands pc).2.1 = (core'.operands pc).2.1 ∧
      (core.operands pc).2.2.Agree X (core'.operands pc).2.2 := by
  have hpointer {mode : Mode} {field : Field} (hmem : (mode, field) ∈ (core.read pc).operands)
      (hmode : mode ∈ [Mode.indirect, .autodecrement]) : X (core.index (core.offset pc field)) :=
    hp _ (mem_pointers.mpr ⟨mode, field, hmem, hmode, rfl⟩)
  obtain ⟨ha, hcore⟩ := h.resolve pc _ _ (hpointer List.mem_cons_self)
  -- B is resolved in the core that A leaves behind, which has the same pointers.
  obtain ⟨hb, hcore'⟩ := hcore.resolve pc (core.read pc).bMode (core.read pc).bField
    fun hmode => by
      rw [index_offset_resolve]
      exact hpointer (List.mem_cons_of_mem _ List.mem_cons_self) hmode
  unfold Core.operands
  simp only [← h.read hpc]
  exact ⟨ha, hb, hcore'⟩

end Agree

/-- Resolving an operand changes its pointer, and only when it is an autodecrement operand. -/
theorem agree_resolve {X : Nat → Prop} {core : Core} {pc : Address} {mode : Mode} {field : Field}
    (hp : mode = .autodecrement → ¬ X (core.index (core.offset pc field))) :
    (core.resolve pc mode field).2.Agree X core := by
  cases mode with
  | immediate | direct | indirect => exact .refl X core
  | autodecrement => exact agree_modify (hp rfl) _

theorem agree_operands {X : Nat → Prop} {core : Core} {pc : Address}
    (hp : ∀ x ∈ core.pointers pc [.autodecrement], ¬ X x) :
    (core.operands pc).2.2.Agree X core := by
  have hpointer {mode : Mode} {field : Field} (hmem : (mode, field) ∈ (core.read pc).operands)
      (hmode : mode = .autodecrement) : ¬ X (core.index (core.offset pc field)) :=
    hp _ (mem_pointers.mpr ⟨mode, field, hmem, List.mem_singleton.mpr hmode, rfl⟩)
  have ha := agree_resolve (hpointer List.mem_cons_self)
  have hb : (core.operands pc).2.2.Agree X
      (core.resolve pc (core.read pc).aMode (core.read pc).aField).2 :=
    agree_resolve fun hmode => by
      rw [index_offset_resolve]
      exact hpointer (List.mem_cons_of_mem _ List.mem_cons_self) hmode
  exact hb.trans ha

/-! ### Effects -/

namespace Agree

variable {X : Nat → Prop} {core core' : Core} (h : core.Agree X core') {pc : Address}
  {a b : Operand}

include h

theorem value {o : Operand} (ho : ∀ s, o.address? = some s → X (core.index s)) :
    o.value core = o.value core' := by
  cases o with
  | immediate v => rfl
  | address s => exact congrArg Instruction.bField (h.read (ho s rfl))

variable (ha : ∀ s, a.address? = some s → X (core.index s))
  (hb : ∀ s, b.address? = some s → X (core.index s))

include ha hb

theorem equalOperands :
    Instruction.equalOperands core a b = Instruction.equalOperands core' a b := by
  cases a with
  | immediate v => exact congrArg (v == ·) (h.value hb)
  | address s =>
    cases b with
    | immediate v => simp only [Instruction.equalOperands, h.read (ha s rfl)]
    | address t => simp only [Instruction.equalOperands, h.read (ha s rfl), h.read (hb t rfl)]

theorem lessOperands :
    Instruction.lessOperands core a b = Instruction.lessOperands core' a b := by
  cases a with
  | immediate v => simp only [Instruction.lessOperands, h.value hb]
  | address s => simp only [Instruction.lessOperands, h.value hb, h.read (ha s rfl)]

variable (hpc : X (core.index pc))

include hpc

theorem move (i : Instruction) : (i.move pc a b core).Agree X (i.move pc a b core') := by
  have htarget := index_target hpc hb
  unfold Instruction.move
  split
  · rename_i src dst
    simp only [← h.read (ha src rfl)]
    exact h.write dst _
  · exact h.modify htarget _

theorem arithmetic (op : Opcode) :
    (Instruction.arithmetic op pc a b core).Agree X (Instruction.arithmetic op pc a b core') := by
  have htarget := index_target hpc hb
  unfold Instruction.arithmetic
  split
  · exact h.modify htarget _
  · rename_i src
    simp only [← h.read (ha src rfl)]
    exact h.modify htarget _

/-- An effect depends on the fetched cell and on the cells that the operands lead to. -/
theorem effect (i : Instruction) :
    (i.effect pc a b core).1 = (i.effect pc a b core').1 ∧
      (i.effect pc a b core).2.Agree X (i.effect pc a b core').2 := by
  have hoffset (d : Field) : core.offset pc d = core'.offset pc d := h.offset pc d
  unfold Instruction.effect
  cases ho : i.opcode with
  | dat => exact ⟨rfl, h⟩
  | mov => exact ⟨congrArg Successors.one (hoffset 1), h.move ha hb hpc i⟩
  | add | sub => exact ⟨congrArg Successors.one (hoffset 1), h.arithmetic ha hb hpc _⟩
  | jmp | spl =>
    simp only [hoffset]
    exact ⟨trivial, h⟩
  | jmz | jmn =>
    simp only [hoffset, h.value hb]
    exact ⟨trivial, h⟩
  | cmp =>
    simp only [hoffset, h.equalOperands ha hb]
    exact ⟨trivial, h⟩
  | slt =>
    simp only [hoffset, h.lessOperands ha hb]
    exact ⟨trivial, h⟩
  | djn =>
    have htarget := index_target hpc hb
    have hmodify := h.modify htarget .decrement
    refine ⟨?_, hmodify⟩
    simp only [hoffset]
    rw [hmodify.read (by rwa [index_modify])]

end Agree

/-- An effect changes the cell that B leads to, and only when the opcode writes. -/
theorem agree_effect {X : Nat → Prop} {core : Core} {i : Instruction} {pc : Address}
    (hd : i.opcode ≠ .dat) (a : Operand) {b : Operand}
    (hb : i.opcode ∈ Instruction.writers → ¬ X (core.index (Instruction.target pc b))) :
    (i.effect pc a b core).2.Agree X core := by
  by_cases hwriter : i.opcode ∈ Instruction.writers
  · obtain ⟨cell, hcell⟩ := i.effect_of_writer pc a b core hwriter
    rw [hcell]
    exact agree_write (hb hwriter) cell
  · rw [i.effect_of_reader pc a b core (Instruction.mem_readers hd hwriter)]
    exact .refl X core

/-! ### Steps -/

namespace Agree

variable {X : Nat → Prop} {core core' : Core} (h : core.Agree X core') {pc : Address}
  (hX : ∀ x ∈ core.touched pc, X x)

include h hX

theorem read_pc : core.read pc = core'.read pc := h.read (hX _ index_pc_mem_touched)

/-- What a step touches decides what it writes. -/
theorem written : core.written pc = core'.written pc := by
  have hread := h.read_pc hX
  have hresolves : core.resolves pc = core'.resolves pc := by simp only [resolves, hread]
  have hpointers (modes : List Mode) : core.pointers pc modes = core'.pointers pc modes := by
    simp only [pointers, hread, h.offset, h.index]
  unfold Core.written
  rw [← hresolves]
  by_cases hr : core.resolves pc = true
  · obtain ⟨hpc, hpointer, -, -⟩ := forall_touched hr hX
    obtain ⟨-, hb, -⟩ := h.operands hpc hpointer
    rw [hpointers, hread, hb, h.index]
  · rw [if_neg hr, if_neg hr]

/-- **A step depends on what it touches.** -/
theorem step : (core.step pc).1 = (core'.step pc).1 ∧
    (core.step pc).2.Agree X (core'.step pc).2 := by
  have hread := h.read_pc hX
  cases hf : (core.read pc).fault? with
  | some f =>
    rw [step_of_fault hf, step_of_fault (hread ▸ hf), hread, h.offset]
    exact ⟨rfl, h⟩
  | none =>
    by_cases hd : (core.read pc).opcode = .dat
    · rw [step_of_dat hd, step_of_dat (hread ▸ hd), hread]
      exact ⟨rfl, h⟩
    obtain ⟨hpc, hpointer, ha, hb⟩ := forall_touched (resolves_iff.mpr ⟨hf, hd⟩) hX
    obtain ⟨hopA, hopB, hcore⟩ := h.operands hpc hpointer
    have hindex (s : Address) : (core.operands pc).2.2.index s = core.index s := by
      simp only [Core.index, size_operands]
    obtain ⟨hnext, hafter⟩ := hcore.effect (fun s hs => by rw [hindex]; exact ha s hs)
      (fun s hs => by rw [hindex]; exact hb s hs) (by rw [hindex]; exact hpc) (core.read pc)
    rw [step_of_allowed hf hd, step_of_allowed (hread ▸ hf) (hread ▸ hd), ← hread, ← hopA, ← hopB,
      hnext]
    exact ⟨rfl, hafter⟩

end Agree

/-- **A step changes only what it writes.** -/
theorem agree_step {X : Nat → Prop} {core : Core} {pc : Address}
    (hX : ∀ x ∈ core.written pc, ¬ X x) : (core.step pc).2.Agree X core := by
  cases hf : (core.read pc).fault? with
  | some f =>
    rw [step_of_fault hf]
    exact .refl X core
  | none =>
    by_cases hd : (core.read pc).opcode = .dat
    · rw [step_of_dat hd]
      exact .refl X core
    rw [written, if_pos (resolves_iff.mpr ⟨hf, hd⟩)] at hX
    have hoperands : (core.operands pc).2.2.Agree X core :=
      agree_operands fun x hx => hX x (List.mem_append_left _ hx)
    rw [step_of_allowed hf hd]
    refine (agree_effect hd _ fun hwriter => ?_).trans hoperands
    have hindex := hoperands.index (Instruction.target pc (core.operands pc).2.1)
    rw [hindex]
    exact hX _ (List.mem_append_right _ (by rw [if_pos hwriter]; exact List.mem_singleton_self _))

/-! ### Two steps -/

section Two

variable {core : Core} {p q : Address}

/-- The step at `q` does not notice a step at `p` that writes nothing it touches: it has the same
record, does to every other cell what it would have done without that step, and writes nothing
that it would not have written. -/
theorem step_behind (h : ∀ x ∈ core.written p, x ∉ core.touched q) :
    ((core.step p).2.step q).1 = (core.step q).1 ∧
      ((core.step p).2.step q).2.Agree (· ∉ core.written p) (core.step q).2 ∧
      ((core.step p).2.step q).2.Agree (· ∉ core.written q) (core.step p).2 := by
  have hbefore : core.Agree (· ∉ core.written p) (core.step p).2 :=
    (agree_step fun _ hx hnot => hnot hx).symm
  have htouched : ∀ x ∈ core.touched q, x ∉ core.written p := fun x hx hw => h x hw hx
  obtain ⟨hrecord, hafter⟩ := hbefore.step htouched
  have hwritten := hbefore.written htouched
  exact ⟨hrecord.symm, hafter.symm, agree_step fun _ hx hnot => hnot (hwritten ▸ hx)⟩

/-- **Independent steps commute.** -/
theorem step_comm (h : core.Independent p q) :
    ((core.step p).2.step q).2 = ((core.step q).2.step p).2 := by
  obtain ⟨-, hq, hq'⟩ := step_behind h.1
  obtain ⟨-, hp, hp'⟩ := step_behind h.2
  refine congrArg Core.mk (Array.ext_getElem? fun x => ?_)
  by_cases hx : x ∈ core.written q
  · -- Only the step at `q` writes `x`.
    have hnot : x ∉ core.written p := fun hw => h.1 x hw (written_subset_touched x hx)
    exact (hq.cells x hnot).trans (hp'.cells x hnot).symm
  · exact (hq'.cells x hx).trans (hp.cells x hx).symm

end Two

end Core

/-! ### Two warriors -/

namespace Warrior

/-- **Independent turns commute.** When neither front process writes what the other touches, the
turns of the two warriors lead to the same core in either order, and each warrior has the same
queue and the same record behind its turn, whether it goes first or second. -/
theorem act_comm {core : Core} {v w : Warrior} {p q : Address} {ps qs : List Address}
    (hv : v.queue.toList = p :: ps) (hw : w.queue.toList = q :: qs) (h : core.Independent p q) :
    (w.act (v.act core).2.2).2.2 = (v.act (w.act core).2.2).2.2 ∧
      (v.act (w.act core).2.2).2.1 = (v.act core).2.1 ∧
      (w.act (v.act core).2.2).2.1 = (w.act core).2.1 ∧
      (v.act (w.act core).2.2).1 = (v.act core).1 ∧
      (w.act (v.act core).2.2).1 = (w.act core).1 := by
  have hq := (Core.step_behind h.1).1
  have hp := (Core.step_behind h.2).1
  simp only [act_of_cons hv, act_of_cons hw, hp, hq]
  exact ⟨Core.step_comm h, trivial, trivial, trivial, trivial⟩

/-- A copy at 0 and a sum at 3, both of the jump at 6. The copy finds it through a pointer that
it decrements, the sum finds its target through a pointer. -/
def commons : Core :=
  ⟨#[⟨.mov, .autodecrement, 1, .direct, 2⟩, ⟨.dat, .immediate, 0, .immediate, 6⟩, .neutral,
    ⟨.add, .direct, 3, .indirect, 2⟩, .neutral, ⟨.dat, .immediate, 0, .immediate, 2⟩,
    ⟨.jmp, .direct, 7, .indirect, 8⟩, .neutral]⟩

/-- Both steps touch the jump, but neither writes it. -/
theorem act_comm_commons : commons.touched 0 = [0, 1, 6, 2] ∧ commons.written 0 = [1, 2] ∧
    commons.touched 3 = [3, 5, 6, 7] ∧ commons.written 3 = [7] ∧
    let first := (start 0 0).act commons
    let second := (start 1 3).act commons
    (((start 1 3).act first.2.2).2.2 = ((start 0 0).act second.2.2).2.2 ∧
      ((start 0 0).act second.2.2).2.1 = first.2.1 ∧
      ((start 1 3).act first.2.2).2.1 = second.2.1 ∧
      ((start 0 0).act second.2.2).1 = first.1 ∧ ((start 1 3).act first.2.2).1 = second.1) ∧
    ((start 1 3).act first.2.2).2.2.read 2 = ⟨.jmp, .direct, 7, .indirect, 8⟩ ∧
    (((start 1 3).act first.2.2).2.2.read 7).bField = 8 := by
  have hindependent : commons.Independent 0 3 := by decide
  have hcomm := act_comm (v := start 0 0) (w := start 1 3) (ProcessQueue.toList_ofList [0])
    (ProcessQueue.toList_ofList [3]) hindependent
  exact ⟨by decide, by decide, by decide, by decide, hcomm, by decide, by decide⟩

end Warrior

end CoreWar
