/-
# Turning the ring

All addresses are relative, so it makes no difference where in the ring a
battle takes place: turning the core and all program counters by `k` cells
turns every later state by `k` cells and changes nothing else.

The one place where this could fail is the sum of an address and a field,
which is taken in 64-bit words before the remainder. A field is exact for a
ring when that does no harm (`Exact`): either the size divides `2 ^ 64`, so
that going round the words goes round the ring a whole number of times, or
the field is so small that the sum does not leave the words. An operand takes
at most one from a field before it uses it, so a field that stays exact when
two are taken from it is good for one instruction.

Key definitions: `rotated`, `Core.rotate`, `Battle.rotate`, `Exact`,
`Core.Exact`, `Core.FieldsWithin`.
Key theorems: `offset_rotated`, `Core.resolve_rotate`, `Core.step_rotate`,
`Battle.advance_rotate`, `Battle.rotation_symmetry`.
-/
import CoreWar.Proofs.Rounds

namespace CoreWar

/-! ### Addresses -/

/-- The cell `k` further round a ring of `size` cells. -/
def rotated (size : Nat) (k : Int) (a : Address) : Address :=
  UInt64.ofNat ((a.toNat + k) % (size : Int)).toNat

/-- The field `d`, and what is left when up to `m` are taken from it, displaces an address
in a ring of `size` cells as an integer does. -/
def Exact (size m : Nat) (d : Field) : Prop :=
  size ∣ 2 ^ 64 ∨ (-2 ^ 63 + (m : Int) ≤ d.toInt ∧ d.toInt + (size : Int) ≤ 2 ^ 63)

theorem Exact.mono {size m n : Nat} (hmn : m ≤ n) {d : Field} (h : Exact size n d) :
    Exact size m d := by
  rcases h with h | ⟨hlo, hhi⟩
  · exact .inl h
  · exact .inr ⟨by omega, hhi⟩

theorem Exact.decrement {size m : Nat} {d : Field} (hs : 0 < size) (h : Exact size (m + 1) d) :
    Exact size m (d - 1) := by
  rcases h with h | ⟨hlo, hhi⟩
  · exact .inl h
  · have hone : (1 : Field).toInt = 1 := rfl
    have hd : (d - 1).toInt = d.toInt - 1 := by
      rw [Int64.toInt_sub, hone]
      exact Int.bmod_eq_of_le_mul_two (by push_cast at hlo; omega) (by omega)
    push_cast at hlo
    exact .inr ⟨by omega, by omega⟩

section Ring

variable {size : Nat} (hs : 0 < size) (hs' : size < 2 ^ 64)

include hs hs'

theorem rotated_toNat (k : Int) (a : Address) :
    ((rotated size k a).toNat : Int) = (a.toNat + k) % size := by
  have h0 : 0 ≤ (a.toNat + k) % (size : Int) := Int.emod_nonneg _ (by omega)
  have h1 : (a.toNat + k) % (size : Int) < size := Int.emod_lt_of_pos _ (by omega)
  have h2 : (rotated size k a).toNat = ((a.toNat + k) % (size : Int)).toNat :=
    UInt64.toNat_ofNat_of_lt' (by simp only [UInt64.size]; omega)
  rw [h2]
  omega

theorem rotated_lt (k : Int) (a : Address) : (rotated size k a).toNat < size := by
  have h := rotated_toNat hs hs' k a
  have h1 := Int.emod_lt_of_pos (a.toNat + k) (show (0 : Int) < size by omega)
  omega

/-- An exact field displaces as an integer does. -/
theorem offset_toNat_of_exact {a : Address} (ha : a.toNat < size) {d : Field}
    (hd : Exact size 0 d) : ((offset size a d).toNat : Int) = (a.toNat + d.toInt) % size := by
  rcases hd with hdvd | ⟨hlo, hhi⟩
  · have hdvd' : (size : Int) ∣ ((2 ^ 64 : Nat) : Int) := Int.natCast_dvd_natCast.mpr hdvd
    rw [offset_toNat hs hs', ← Int.emod_emod_of_dvd _ hdvd', Int.bmod_emod,
      Int.emod_emod_of_dvd _ hdvd']
  · exact offset_toNat_of_fits hs hs' a d (by push_cast at hlo; omega) (by omega)

/-- Displacing and turning can be done in either order. -/
theorem offset_rotated (k : Int) {a : Address} (ha : a.toNat < size) {d : Field}
    (hd : Exact size 0 d) :
    offset size (rotated size k a) d = rotated size k (offset size a d) := by
  apply UInt64.toNat_inj.mp
  have h1 := offset_toNat_of_exact hs hs' (rotated_lt hs hs' k a) hd
  have h2 := rotated_toNat hs hs' k (offset size a d)
  rw [rotated_toNat hs hs', Int.emod_add_emod] at h1
  rw [offset_toNat_of_exact hs hs' ha hd, Int.emod_add_emod] at h2
  have h3 : (a.toNat : Int) + k + d.toInt = a.toNat + d.toInt + k := by omega
  rw [h3] at h1
  exact_mod_cast h1.trans h2.symm

end Ring

/-! ### The core -/

namespace Core

/-- The core turned by `k`: the cell at `x` moves to `x + k`, going round. -/
def rotate (k : Int) (core : Core) : Core :=
  ⟨Array.ofFn fun j : Fin core.size =>
    core.cells.getD (((j.val : Int) - k) % (core.size : Int)).toNat .neutral⟩

@[simp] theorem size_rotate (k : Int) (core : Core) : (core.rotate k).size = core.size := by
  simp [rotate, size]

/-- The cell at `a` goes to the place `j` when it is the one that comes to `j`. -/
theorem emod_add_eq_iff {n a j : Nat} (hj : j < n) (k : Int) :
    (((a : Int) + k) % n).toNat = j ↔ a % n = (((j : Int) - k) % n).toNat := by
  have hn : (n : Int) ≠ 0 := by omega
  have h1 := Int.emod_nonneg ((a : Int) + k) hn
  have h2 := Int.emod_nonneg ((j : Int) - k) hn
  constructor
  · intro h
    have hto : ((a : Int) + k) % n = j := by omega
    have hfrom : ((j : Int) - k) % n = (a : Int) % n := by
      rw [← hto, Int.emod_sub_emod, Int.add_sub_cancel]
    omega
  · intro h
    have hfrom : (a : Int) % n = ((j : Int) - k) % n := by omega
    have hto : ((a : Int) + k) % n = j := by
      rw [← Int.emod_add_emod, hfrom, Int.emod_add_emod, Int.sub_add_cancel]
      exact Int.emod_eq_of_lt (by omega) (by omega)
    omega

/-- The cell at `x` moves to `x + k`. -/
theorem getElem?_rotate (core : Core) (k : Int) {x : Nat} (hx : x < core.size) :
    (core.rotate k).cells[(((x : Int) + k) % core.size).toNat]? = core.cells[x]? := by
  have hlt : (((x : Int) + k) % core.size).toNat < core.size := by
    have := Int.emod_lt_of_pos ((x : Int) + k) (show (0 : Int) < core.size by omega)
    omega
  have hback := (emod_add_eq_iff (a := x) hlt k).mp rfl
  rw [Nat.mod_eq_of_lt hx] at hback
  have hx' : x < core.cells.size := hx
  rw [rotate, Array.getElem?_ofFn, dif_pos hlt]
  simp only [← hback, Array.getD_eq_getD_getElem?, Array.getElem?_eq_getElem hx', Option.getD_some]

section Rotate

variable {size : Nat} {core : Core} (hsize : core.size = size) (hs : 0 < size)
  (hs' : size < 2 ^ 64) (k : Int)

include hsize hs hs'

theorem index_rotated (a : Address) : (core.rotate k).index (rotated size k a) =
    (((core.index a : Nat) + k) % (core.size : Int)).toNat := by
  subst hsize
  have h := rotated_toNat hs hs' k a
  have hlt := rotated_lt hs hs' k a
  rw [index, size_rotate, Nat.mod_eq_of_lt hlt, index, Int.natCast_emod, Int.emod_add_emod, ← h]
  rfl

theorem read_rotate (a : Address) : (core.rotate k).read (rotated size k a) = core.read a := by
  rw [read, read, index_rotated hsize hs hs', Array.getD_eq_getD_getElem?,
    Array.getD_eq_getD_getElem?, getElem?_rotate core k (index_lt (hsize ▸ hs) a)]

theorem write_rotate (a : Address) (i : Instruction) :
    (core.rotate k).write (rotated size k a) i = (core.write a i).rotate k := by
  have hindex : core.index a < core.size := index_lt (hsize ▸ hs) a
  refine congrArg Core.mk (Array.ext (by simp [rotate, Core.size, write]) fun j hj hj' => ?_)
  have hjn : j < core.size := by simpa [rotate] using hj
  have hiff := emod_add_eq_iff (a := core.index a) hjn k
  rw [Nat.mod_eq_of_lt hindex] at hiff
  rw [Array.getElem_setIfInBounds (by simpa [rotate] using hjn), index_rotated hsize hs hs']
  simp only [rotate, size_write, Array.getElem_ofFn]
  simp only [write, Array.getD_eq_getD_getElem?, Array.getElem?_setIfInBounds, hiff]
  split
  · rename_i h
    rw [if_pos (h ▸ hindex)]
    rfl
  · rfl

theorem modify_rotate (a : Address) (f : Instruction → Instruction) :
    (core.rotate k).modify (rotated size k a) f = (core.modify a f).rotate k := by
  rw [modify_eq_write, modify_eq_write, read_rotate hsize hs hs', write_rotate hsize hs hs']

theorem offset_rotate {a : Address} (ha : a.toNat < size) {d : Field}
    (hd : CoreWar.Exact size 0 d) :
    (core.rotate k).offset (rotated size k a) d = rotated size k (core.offset a d) := by
  unfold offset
  rw [size_rotate, hsize]
  exact offset_rotated hs hs' k ha hd

end Rotate

/-- Every field of every cell is exact, also when `m` are taken from it. -/
def Exact (m : Nat) (core : Core) : Prop :=
  ∀ i ∈ core.cells, CoreWar.Exact core.size m i.aField ∧ CoreWar.Exact core.size m i.bField

theorem Exact.read {m : Nat} {core : Core} (hs : 0 < core.size) (h : core.Exact m) (a : Address) :
    CoreWar.Exact core.size m (core.read a).aField ∧
      CoreWar.Exact core.size m (core.read a).bField :=
  h _ (read_mem hs a)

/-- An operand takes at most one from a field. -/
theorem Exact.resolve {m : Nat} {core : Core} (hs : 0 < core.size) (h : core.Exact (m + 1))
    (pc : Address) (mode : Mode) (field : Field) : (core.resolve pc mode field).2.Exact m := by
  have hmono : core.Exact m := fun i hi =>
    ⟨(h i hi).1.mono (Nat.le_succ m), (h i hi).2.mono (Nat.le_succ m)⟩
  cases mode with
  | immediate | direct | indirect => exact hmono
  | autodecrement =>
    intro i hi
    simp only [Core.resolve, modify_eq_write] at hi ⊢
    rw [size_write]
    rcases Array.mem_or_eq_of_mem_setIfInBounds hi with hi | rfl
    · exact hmono i hi
    · obtain ⟨ha, hb⟩ := h.read hs (core.offset pc field)
      exact ⟨ha.mono (Nat.le_succ m), hb.decrement hs⟩

end Core

/-! ### Operands and effects -/

/-- An operand whose address is turned. -/
def Operand.rotate (size : Nat) (k : Int) : Operand → Operand
  | immediate v => .immediate v
  | address a => .address (rotated size k a)

@[simp] theorem Operand.rotate_immediate (size : Nat) (k : Int) (v : Field) :
    (immediate v).rotate size k = .immediate v := rfl

@[simp] theorem Operand.rotate_address (size : Nat) (k : Int) (a : Address) :
    (address a).rotate size k = .address (rotated size k a) := rfl

def Successors.rotate (size : Nat) (k : Int) : Successors → Successors
  | none => .none
  | one next => .one (rotated size k next)
  | two next child => .two (rotated size k next) (rotated size k child)

@[simp] theorem Successors.toList_rotate (size : Nat) (k : Int) (s : Successors) :
    (s.rotate size k).toList = s.toList.map (rotated size k) := by
  cases s <;> rfl

namespace Instruction

theorem target_rotate (size : Nat) (k : Int) (pc : Address) (b : Operand) :
    target (rotated size k pc) (b.rotate size k) = rotated size k (target pc b) := by
  cases b <;> rfl

theorem jump_rotate (size : Nat) (k : Int) (next : Address) (a : Operand) (taken : Bool) :
    jump (rotated size k next) (a.rotate size k) taken = (jump next a taken).rotate size k := by
  cases taken <;> cases a <;> rfl

end Instruction

section Operands

variable {size : Nat} {core : Core} (hsize : core.size = size) (hs : 0 < size)
  (hs' : size < 2 ^ 64) (k : Int)

include hsize hs hs'

/-- Resolving an operand of the turned core. -/
theorem Core.resolve_rotate {m : Nat} (hcore : core.Exact (m + 1)) {pc : Address}
    (hpc : pc.toNat < size) (mode : Mode) {field : Field} (hfield : CoreWar.Exact size 0 field) :
    (core.rotate k).resolve (rotated size k pc) mode field =
      ((core.resolve pc mode field).1.rotate size k,
        (core.resolve pc mode field).2.rotate k) := by
  have hpointer : (core.offset pc field).toNat < size := by
    rw [← hsize] at hs hs' ⊢
    exact offset_lt hs hs' pc field
  have hb := (hcore.read (hsize ▸ hs) (core.offset pc field)).2
  rw [hsize] at hb
  cases mode with
  | immediate => rfl
  | direct => simp only [resolve, offset_rotate hsize hs hs' k hpc hfield, Operand.rotate_address]
  | indirect =>
    simp only [resolve, offset_rotate hsize hs hs' k hpc hfield, read_rotate hsize hs hs',
      offset_rotate hsize hs hs' k hpointer (hb.mono (Nat.zero_le _)), Operand.rotate_address]
  | autodecrement =>
    -- the pointer is read back from the core in which it was decremented
    have hsize' : (core.modify (core.offset pc field) .decrement).size = size := by
      rw [size_modify, hsize]
    have hb' := ((hcore.resolve (hsize ▸ hs) pc .autodecrement field).read
      (by simp [hsize, hs]) (core.offset pc field)).2
    rw [size_resolve, hsize] at hb'
    simp only [resolve] at hb' ⊢
    simp only [offset_rotate hsize hs hs' k hpc hfield, modify_rotate hsize hs hs',
      read_rotate hsize' hs hs', offset_rotate hsize' hs hs' k hpointer (hb'.mono (Nat.zero_le _)),
      Operand.rotate_address]

namespace Instruction

theorem value_rotate (b : Operand) :
    (b.rotate size k).value (core.rotate k) = b.value core := by
  cases b with
  | immediate v => rfl
  | address a => simp only [Operand.rotate_address, Operand.value, core.read_rotate hsize hs hs']

theorem modify_target_rotate (pc : Address) (b : Operand) (f : Instruction → Instruction) :
    (core.rotate k).modify (target (rotated size k pc) (b.rotate size k)) f =
      (core.modify (target pc b) f).rotate k := by
  rw [target_rotate, core.modify_rotate hsize hs hs']

theorem move_rotate (i : Instruction) (pc : Address) (a b : Operand) :
    i.move (rotated size k pc) (a.rotate size k) (b.rotate size k) (core.rotate k) =
      (i.move pc a b core).rotate k := by
  cases a with
  | immediate v => exact modify_target_rotate hsize hs hs' k pc b _
  | address src =>
    cases b with
    | immediate v => exact modify_target_rotate hsize hs hs' k pc (.immediate v) _
    | address dst =>
      simp only [move, Operand.rotate_address, core.read_rotate hsize hs hs',
        core.write_rotate hsize hs hs']

theorem arithmetic_rotate (op : Opcode) (pc : Address) (a b : Operand) :
    arithmetic op (rotated size k pc) (a.rotate size k) (b.rotate size k) (core.rotate k) =
      (arithmetic op pc a b core).rotate k := by
  cases a with
  | immediate v => exact modify_target_rotate hsize hs hs' k pc b _
  | address src =>
    simp only [arithmetic, Operand.rotate_address, core.read_rotate hsize hs hs']
    exact modify_target_rotate hsize hs hs' k pc b _

theorem equalOperands_rotate (a b : Operand) :
    equalOperands (core.rotate k) (a.rotate size k) (b.rotate size k) = equalOperands core a b := by
  cases a with
  | immediate v =>
    simp only [Operand.rotate_immediate, equalOperands, value_rotate hsize hs hs']
  | address src =>
    cases b <;> simp only [Operand.rotate_immediate, Operand.rotate_address, equalOperands,
      core.read_rotate hsize hs hs']

theorem lessOperands_rotate (a b : Operand) :
    lessOperands (core.rotate k) (a.rotate size k) (b.rotate size k) = lessOperands core a b := by
  cases a <;> simp only [Operand.rotate_immediate, Operand.rotate_address, lessOperands,
    value_rotate hsize hs hs', core.read_rotate hsize hs hs']

/-- The effect of an instruction in the turned core. -/
theorem effect_rotate (hnext : ∀ d ∈ [(1 : Field), 2], CoreWar.Exact size 0 d) (i : Instruction)
    {pc : Address} (hpc : pc.toNat < size) (a b : Operand) :
    i.effect (rotated size k pc) (a.rotate size k) (b.rotate size k) (core.rotate k) =
      ((i.effect pc a b core).1.rotate size k, (i.effect pc a b core).2.rotate k) := by
  have h1 := core.offset_rotate hsize hs hs' k hpc (hnext 1 (by simp))
  have h2 := core.offset_rotate hsize hs hs' k hpc (hnext 2 (by simp))
  unfold effect
  simp only [h1, h2]
  cases i.opcode with
  | dat => rfl
  | mov =>
    simp only [move_rotate hsize hs hs']
    rfl
  | add | sub =>
    simp only [arithmetic_rotate hsize hs hs']
    rfl
  | jmp => simp only [jump_rotate]
  | jmz | jmn => simp only [jump_rotate, value_rotate hsize hs hs']
  | djn =>
    have hsize' : (core.modify (target pc b) .decrement).size = size := by
      rw [Core.size_modify, hsize]
    simp only [jump_rotate, target_rotate, core.modify_rotate hsize hs hs',
      Core.read_rotate hsize' hs hs']
  | cmp =>
    simp only [equalOperands_rotate hsize hs hs']
    split <;> rfl
  | slt =>
    simp only [lessOperands_rotate hsize hs hs']
    split <;> rfl
  | spl => cases a <;> rfl

end Instruction

end Operands

/-! ### One instruction -/

/-- The record of the same step in the turned core. -/
def Step.rotate (size : Nat) (k : Int) (s : Step) : Step :=
  { s with pc := rotated size k s.pc, successors := s.successors.rotate size k }

/-- **One instruction.** The step of the turned core is the step, turned. -/
theorem Core.step_rotate {core : Core} (hs : 0 < core.size) (hs' : core.size ≤ 2 ^ 62) (k : Int)
    (hcore : core.Exact 2) {pc : Address} (hpc : pc.toNat < core.size) :
    (core.rotate k).step (rotated core.size k pc) =
      ((core.step pc).1.rotate core.size k, (core.step pc).2.rotate k) := by
  have hs64 : core.size < 2 ^ 64 := by omega
  have hnext : ∀ d ∈ [(1 : Field), 2], CoreWar.Exact core.size 0 d := by
    have h1 : (1 : Field).toInt = 1 := rfl
    have h2 : (2 : Field).toInt = 2 := rfl
    intro d hd
    simp only [List.mem_cons, List.not_mem_nil, or_false] at hd
    rcases hd with rfl | rfl
    · exact .inr ⟨by rw [h1]; omega, by rw [h1]; omega⟩
    · exact .inr ⟨by rw [h2]; omega, by rw [h2]; omega⟩
  have hread := core.read_rotate rfl hs hs64 k pc
  cases hf : (core.read pc).fault? with
  | some f =>
    rw [step_of_fault hf, step_of_fault (hread ▸ hf), hread,
      core.offset_rotate rfl hs hs64 k hpc (hnext 1 (by simp))]
    rfl
  | none =>
    by_cases hd : (core.read pc).opcode = .dat
    · rw [step_of_dat hd, step_of_dat (hread ▸ hd), hread]
      rfl
    · -- A is resolved before B, and each takes at most one from a field
      obtain ⟨hfa, hfb⟩ := hcore.read hs pc
      have ha := core.resolve_rotate rfl hs hs64 k hcore hpc (core.read pc).aMode
        (hfa.mono (Nat.zero_le 2))
      have hsize := core.size_resolve pc (core.read pc).aMode (core.read pc).aField
      have hb := Core.resolve_rotate hsize hs hs64 k
        (hcore.resolve hs pc (core.read pc).aMode (core.read pc).aField) hpc (core.read pc).bMode
        (hfb.mono (Nat.zero_le 2))
      have hoperands : (core.rotate k).operands (rotated core.size k pc) =
          ((core.operands pc).1.rotate core.size k, (core.operands pc).2.1.rotate core.size k,
            (core.operands pc).2.2.rotate k) := by
        simp only [operands, hread, ha, hb]
      rw [step_of_allowed hf hd, step_of_allowed (hread ▸ hf) (hread ▸ hd), hread, hoperands,
        Instruction.effect_rotate (core.size_operands pc) hs hs64 k hnext _ hpc]
      rfl

/-! ### Battles -/

/-- A warrior whose program counters are turned. -/
def Warrior.rotate (size : Nat) (k : Int) (w : Warrior) : Warrior :=
  ⟨w.id, .ofList (w.queue.toList.map (rotated size k))⟩

def Incident.rotate (size : Nat) (k : Int) (i : Incident) : Incident :=
  { i with pc := rotated size k i.pc }

/-- What happens in the same turn of the turned battle. -/
def Turn.rotate (size : Nat) (k : Int) (t : Turn) : Turn :=
  { t with step := t.step.map (Step.rotate size k) }

theorem Turn.elimination?_rotate (size : Nat) (k : Int) (t : Turn) :
    (t.rotate size k).elimination? = t.elimination? := rfl

theorem Turn.incident?_rotate (size : Nat) (k : Int) (t : Turn) :
    (t.rotate size k).incident? = t.incident?.map (Incident.rotate size k) := by
  unfold rotate incident?
  cases t.step with
  | none => rfl
  | some s => cases hf : s.fault <;> simp [Step.rotate, Incident.rotate, hf]

namespace Battle

/-- The battle turned by `k`: core, program counters and the places of incidents. -/
def rotate (k : Int) (b : Battle) : Battle :=
  { b with
    core := b.core.rotate k
    warriors := b.warriors.map (Warrior.rotate b.core.size k)
    incidents := b.incidents.map (Incident.rotate b.core.size k) }

@[simp] theorem alive_rotate (size : Nat) (k : Int) (w : Warrior) :
    (w.rotate size k).alive = w.alive := by
  rw [Warrior.alive_eq, Warrior.alive_eq, Warrior.rotate, ProcessQueue.toList_ofList,
    List.isEmpty_map]

theorem alive_comp_rotate (size : Nat) (k : Int) :
    Warrior.alive ∘ Warrior.rotate size k = Warrior.alive :=
  funext (alive_rotate size k)

theorem survivors_rotate (size : Nat) (k : Int) (ws : List Warrior) :
    survivors (ws.map (Warrior.rotate size k)) = survivors ws := by
  rw [survivors, List.filter_map, alive_comp_rotate, List.map_map]
  rfl

theorem judge_rotate (contenders : Nat) (limit : Option UInt64) (cycles : UInt64) (size : Nat)
    (k : Int) (ws : List Warrior) :
    judge contenders limit cycles (ws.map (Warrior.rotate size k)) =
      judge contenders limit cycles ws := by
  unfold judge
  rw [survivors_rotate]

theorem nextAlive_rotate (size : Nat) (k : Int) (ws : List Warrior) (cursor : Nat) :
    nextAlive (ws.map (Warrior.rotate size k)) cursor = nextAlive ws cursor := by
  have halive : (fun i : Nat => (ws.map (Warrior.rotate size k))[i]?.any Warrior.alive) =
      fun i => ws[i]?.any Warrior.alive := by
    funext i
    rw [List.getElem?_map]
    cases ws[i]? <;> simp
  simp only [nextAlive, List.length_map, halive]

/-- A battle begins turned when its parts are turned. -/
theorem rotate_ofParts (core : Core) (warriors : List Warrior) (limit : Option UInt64) (k : Int) :
    (ofParts core warriors limit).rotate k =
      ofParts (core.rotate k) (warriors.map (Warrior.rotate core.size k)) limit := by
  have hcount : (warriors.map (Warrior.rotate core.size k)).countP Warrior.alive =
      warriors.countP Warrior.alive := by
    rw [List.countP_map, alive_comp_rotate]
  have hfind : (warriors.map (Warrior.rotate core.size k)).findIdx? Warrior.alive =
      warriors.findIdx? Warrior.alive := by
    rw [List.findIdx?_map, alive_comp_rotate]
  simp only [rotate, ofParts, hcount, hfind, Array.map_empty]

section Turn

variable {b : Battle} {w : Warrior} (hs : b.core.size ≤ 2 ^ 62) (hexact : b.core.Exact 2)
  (hw : b.warriors[b.cursor]? = some w) (ha : w.alive = true)
  (hring : ∀ pc ∈ w.queue.toList, pc.toNat < b.core.size) (k : Int)

include hs hexact ha hring

/-- A warrior acts in the turned core as it does in the core, turned. -/
theorem act_rotate : (w.rotate b.core.size k).act (b.core.rotate k) =
    ((w.act b.core).1.map (Step.rotate b.core.size k),
      (w.act b.core).2.1.rotate b.core.size k, (w.act b.core).2.2.rotate k) := by
  obtain ⟨pc, pcs, hq, hact⟩ := Warrior.act_of_alive ha b.core
  have hpc := hring pc (by simp [hq])
  have hq' : (w.rotate b.core.size k).queue.toList =
      rotated b.core.size k pc :: pcs.map (rotated b.core.size k) := by
    rw [Warrior.rotate, ProcessQueue.toList_ofList, hq, List.map_cons]
  rw [Warrior.act_of_cons hq', hact, Core.step_rotate (by omega) hs k hexact hpc]
  simp [Warrior.rotate, Step.rotate]

/-- **One turn.** The turn of the turned battle is the turn, turned. -/
theorem advance_rotate : ((b.rotate k).advance (w.rotate b.core.size k)).2 =
    (b.advance w).2.rotate k := by
  have hact := act_rotate hs hexact ha hring k
  have hsize : (b.advance w).2.core.size = b.core.size := Warrior.size_act w b.core
  have hwarriors : ((b.rotate k).advance (w.rotate b.core.size k)).2.warriors =
      (b.advance w).2.warriors.map (Warrior.rotate b.core.size k) := by
    rw [advance_warriors, advance_warriors, List.map_set]
    show (b.warriors.map _).set b.cursor ((w.rotate b.core.size k).act (b.core.rotate k)).2.1 = _
    rw [hact]
  have hverdict : ((b.rotate k).advance (w.rotate b.core.size k)).2.verdict =
      (b.advance w).2.verdict := by
    rw [advance_verdict, hwarriors, judge_rotate]
    rfl
  have hfst : ((b.rotate k).advance (w.rotate b.core.size k)).1 =
      (b.advance w).1.rotate b.core.size k := by
    rw [advance_fst, advance_fst, hverdict]
    show Turn.mk _ ((w.rotate b.core.size k).act (b.core.rotate k)).2.1.id
      ((w.rotate b.core.size k).act (b.core.rotate k)).1
      (!((w.rotate b.core.size k).act (b.core.rotate k)).2.1.alive) _ = _
    rw [hact, alive_rotate]
    rfl
  apply Battle.ext
  · show ((w.rotate b.core.size k).act (b.core.rotate k)).2.2 = _
    rw [hact]
    rfl
  · rw [hwarriors, ← hsize]
    rfl
  · rw [advance_cursor, hverdict, hwarriors, nextAlive_rotate]
    rfl
  · rfl
  · rfl
  · rfl
  · exact hverdict
  · apply Array.toList_inj.mp
    rw [toList_advance_eliminations, hfst, Turn.elimination?_rotate]
    show b.eliminations.toList ++ _ = (b.advance w).2.eliminations.toList
    exact toList_advance_eliminations.symm
  · apply Array.toList_inj.mp
    rw [toList_advance_incidents, hfst, Turn.incident?_rotate]
    show (b.incidents.map _).toList ++ _ = ((b.advance w).2.incidents.map _).toList
    rw [Array.toList_map, Array.toList_map, toList_advance_incidents, List.map_append, hsize,
      Option.toList_map]

end Turn

theorem tick_rotate {b : Battle} (hr : b.Ready) (hs : b.core.size ≤ 2 ^ 62)
    (hring : b.InRing b.core.size) (hexact : b.core.Exact 2) (k : Int) :
    (b.rotate k).tick = b.tick.rotate k := by
  rcases hr.tick_cases with ⟨v, hv, ht⟩ | ⟨w, hv, hw, ha, ht⟩
  · rw [ht]
    exact tick_of_over (b := b.rotate k) hv
  · have hw' : (b.rotate k).warriors[(b.rotate k).cursor]? = some (w.rotate b.core.size k) := by
      show (b.warriors.map (Warrior.rotate b.core.size k))[b.cursor]? = _
      rw [List.getElem?_map, hw]
      rfl
    rw [ht, tick_of_open (b := b.rotate k) hv hw']
    exact advance_rotate hs hexact ha (hring.queue_lt hw) k

/-- Any number of ticks of the turned battle. -/
theorem ticks_rotate {b : Battle} (hr : b.Ready) (hs : b.core.size ≤ 2 ^ 62)
    (hring : b.InRing b.core.size) (k : Int) (n : Nat)
    (hexact : ∀ j < n, (b.ticks j).core.Exact 2) :
    (b.rotate k).ticks n = (b.ticks n).rotate k := by
  induction n with
  | zero => rfl
  | succ n ih =>
    have hn := hring.ticks (by omega) hr n
    rw [ticks_succ, ticks_succ, ih fun j hj => hexact j (Nat.lt_succ_of_lt hj)]
    refine tick_rotate (ready_ticks hr n) ?_ ?_ (hexact n (Nat.lt_succ_self n)) k
    · rw [hn.cells]
      exact hs
    · rw [hn.cells]
      exact hn

end Battle

/-! ### When every field is exact -/

namespace Core

/-- Every field of every cell lies between `-bound` and `bound`. -/
def FieldsWithin (bound : Int) (core : Core) : Prop :=
  ∀ i ∈ core.cells, (-bound ≤ i.aField.toInt ∧ i.aField.toInt ≤ bound) ∧
    (-bound ≤ i.bField.toInt ∧ i.bField.toInt ≤ bound)

instance (bound : Int) (core : Core) : Decidable (core.FieldsWithin bound) :=
  inferInstanceAs (Decidable (∀ i ∈ core.cells, _))

/-- In a ring whose size is a power of two every field is exact. -/
theorem exact_of_pow {core : Core} (hs : core.size ≤ 2 ^ 62) {e : Nat} (h : core.size = 2 ^ e)
    (m : Nat) : core.Exact m := by
  have he : e ≤ 62 := (Nat.pow_le_pow_iff_right (by decide)).mp (h ▸ hs)
  have hdvd : core.size ∣ 2 ^ 64 := by
    rw [h]
    exact Nat.pow_dvd_pow 2 (by omega)
  exact fun _ _ => ⟨.inl hdvd, .inl hdvd⟩

/-- Small fields are exact. -/
theorem FieldsWithin.exact {core : Core} (hs : core.size ≤ 2 ^ 62)
    (h : core.FieldsWithin (2 ^ 62)) : core.Exact 2 := by
  intro i hi
  obtain ⟨⟨halo, hahi⟩, hblo, hbhi⟩ := h i hi
  exact ⟨.inr ⟨by push_cast; omega, by omega⟩, .inr ⟨by push_cast; omega, by omega⟩⟩

end Core

/-- **A battle does not depend on where it takes place.** When the size of the ring is a
power of two, or every field stays small before the first tick and after each of the first
`n`, the parts turned by `k` lead to the state turned by `k`. -/
theorem Battle.rotation_symmetry {core : Core} (hs : core.size ≤ 2 ^ 62) {warriors : List Warrior}
    (hpcs : ∀ w ∈ warriors, ∀ pc ∈ w.queue.toList, pc.toNat < core.size)
    (limit : Option UInt64) (k : Int) (n : Nat)
    (h : (∃ e, core.size = 2 ^ e) ∨
      ∀ j ≤ n, ((ofParts core warriors limit).ticks j).core.FieldsWithin (2 ^ 62)) :
    (ofParts (core.rotate k) (warriors.map (Warrior.rotate core.size k)) limit).ticks n =
      ((ofParts core warriors limit).ticks n).rotate k := by
  have hr := ready_ofParts core warriors limit
  have hring : (ofParts core warriors limit).InRing core.size := ⟨rfl, hpcs⟩
  rw [← rotate_ofParts]
  refine ticks_rotate hr hs hring k n fun j hj => ?_
  have hcells := (hring.ticks (by omega) hr j).cells
  rcases h with ⟨e, he⟩ | hfields
  · exact Core.exact_of_pow (by rw [hcells]; exact hs) (hcells.trans he) 2
  · exact (hfields j (Nat.le_of_lt hj)).exact (by rw [hcells]; exact hs)

/-- A bomber, its bomb and its target in a ring of five cells. -/
def skirmish : Core :=
  ⟨#[⟨.mov, .direct, 2, .autodecrement, 2⟩, ⟨.jmp, .direct, -1, .direct, 0⟩,
    ⟨.dat, .immediate, 0, .immediate, 2⟩, ⟨.jmp, .direct, 0, .direct, 0⟩, .neutral]⟩

/-- The bomber wins in the third cycle, also when the battle lies across the end of the
core. -/
theorem Battle.rotation_symmetry_skirmish :
    (∀ j ≤ 3, ((ofParts skirmish [.start 0 0, .start 1 3] none).ticks j).core.FieldsWithin
        (2 ^ 62)) ∧
      ((ofParts skirmish [.start 0 0, .start 1 3] none).ticks 3).verdict = some (.winner 0) ∧
      (ofParts (skirmish.rotate 4) ([.start 0 0, .start 1 3].map (Warrior.rotate 5 4)) none).ticks 3 =
        ((ofParts skirmish [.start 0 0, .start 1 3] none).ticks 3).rotate 4 := by
  have hfields : ∀ j ≤ 3, ((ofParts skirmish [.start 0 0, .start 1 3] none).ticks
      j).core.FieldsWithin (2 ^ 62) := by decide +kernel
  have hpcs : ∀ w ∈ [Warrior.start 0 0, .start 1 3], ∀ pc ∈ w.queue.toList, pc.toNat < 5 := by
    simp [Warrior.start]
  refine ⟨hfields, by decide +kernel, ?_⟩
  exact rotation_symmetry (show skirmish.size ≤ 2 ^ 62 by decide) hpcs none 4 3 (.inr hfields)

end CoreWar
