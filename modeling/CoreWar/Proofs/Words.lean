/-
# The ideal machine in words

An integer has a word, a number modulo `N` has an address, and so a cell, a
memory and an operand of the ideal machine have a counterpart in words.
Taking integers to words commutes with sums and differences, so what is
written needs no bound at all. A bound is needed where a field is used: as a
displacement, or in a test. There it must be a signed word, and leave room
for an address to be added. An operand takes at most one from a field before
it uses it, so room for three is enough for one instruction (`Room`).

Key definitions: `Ideal.Cell.word`, `Ideal.address`, `Ideal.coreOf`,
`Ideal.Room`.
Key theorems: `Ideal.offset_address`, `Ideal.resolve_coreOf`,
`Ideal.effect_coreOf`, `Ideal.step_coreOf`.
-/
import CoreWar.Proofs.Ideal
import CoreWar.Proofs.Stepping

namespace CoreWar
namespace Ideal

/-! ### Words of integers -/

theorem ofInt_inj {x y : Int} (hx : -2 ^ 63 ≤ x) (hx' : x < 2 ^ 63) (hy : -2 ^ 63 ≤ y)
    (hy' : y < 2 ^ 63) : Int64.ofInt x = Int64.ofInt y ↔ x = y := by
  constructor
  · intro h
    have := congrArg Int64.toInt h
    rwa [Int64.toInt_ofInt_of_le hx hx', Int64.toInt_ofInt_of_le hy hy'] at this
  · exact congrArg Int64.ofInt

theorem ofInt_lt {x y : Int} (hx : -2 ^ 63 ≤ x) (hx' : x < 2 ^ 63) (hy : -2 ^ 63 ≤ y)
    (hy' : y < 2 ^ 63) : Int64.ofInt x < Int64.ofInt y ↔ x < y := by
  rw [Int64.lt_iff_toInt_lt, Int64.toInt_ofInt_of_le hx hx', Int64.toInt_ofInt_of_le hy hy']

/-- A cell with its fields as words. -/
def Cell.word (c : Cell) : Instruction :=
  ⟨c.opcode, c.aMode, Int64.ofInt c.aField, c.bMode, Int64.ofInt c.bField⟩

/-! ### Addresses -/

variable {N : Nat}

/-- The address of a number modulo `N`. -/
def address (x : ZMod N) : Address := UInt64.ofNat x.val

/-- An operand in words. -/
def Operand.word : Operand N → CoreWar.Operand
  | .value v => .immediate (Int64.ofInt v)
  | .place x => .address (address x)

/-- The memory as a core. -/
def coreOf (m : Memory N) : Core := ⟨Array.ofFn fun k : Fin N => (m (k.val : ZMod N)).word⟩

@[simp] theorem size_coreOf (m : Memory N) : (coreOf m).size = N := by
  simp [coreOf, Core.size]

section Cells

variable [NeZero N] (hN : N < 2 ^ 64)

include hN

theorem toNat_address (x : ZMod N) : (address x).toNat = x.val :=
  UInt64.toNat_ofNat_of_lt' (Nat.lt_trans x.val_lt hN)

theorem index_address (m : Memory N) (x : ZMod N) : (coreOf m).index (address x) = x.val := by
  rw [Core.index, size_coreOf, toNat_address hN, Nat.mod_eq_of_lt x.val_lt]

theorem read_coreOf (m : Memory N) (x : ZMod N) : (coreOf m).read (address x) = (m x).word := by
  rw [Core.read, index_address hN]
  simp [coreOf, Array.getD_eq_getD_getElem?, x.val_lt]

theorem write_coreOf (m : Memory N) (x : ZMod N) (c : Cell) :
    (coreOf m).write (address x) c.word = coreOf (Function.update m x c) := by
  unfold Core.write
  rw [index_address hN]
  refine congrArg Core.mk (Array.ext (by simp [coreOf]) fun k hk hk' => ?_)
  have hkN : k < N := by simpa [coreOf] using hk
  rw [Array.getElem_setIfInBounds (by simpa [coreOf] using hk)]
  simp only [coreOf, Array.getElem_ofFn]
  by_cases hkx : x.val = k
  · subst hkx
    rw [if_pos rfl, ZMod.natCast_zmod_val, Function.update_self]
  · rw [if_neg hkx, Function.update_of_ne]
    intro he
    exact hkx (by rw [← he, ZMod.val_cast_of_lt hkN])

theorem modify_coreOf {m : Memory N} {x : ZMod N} {f : Instruction → Instruction} {c : Cell}
    (h : f (m x).word = c.word) :
    (coreOf m).modify (address x) f = coreOf (Function.update m x c) := by
  rw [Core.modify_eq_write, read_coreOf hN, h, write_coreOf hN]

/-- Storing a B-field. -/
theorem modify_setB {m : Memory N} {x : ZMod N} {f : Instruction → Instruction} {v : Int}
    (h : f (m x).word = { (m x).word with bField := Int64.ofInt v }) :
    (coreOf m).modify (address x) f = coreOf (setB m x v) :=
  modify_coreOf hN h

/-- Displacements agree while the sum is a signed word. -/
theorem offset_address (m : Memory N) (x : ZMod N) {d : Int} (hlo : -2 ^ 63 ≤ d)
    (hhi : d + N ≤ 2 ^ 63) :
    (coreOf m).offset (address x) (Int64.ofInt d) = address (x + (d : ZMod N)) := by
  have hx := x.val_lt
  have hpos : 0 < N := Nat.pos_of_ne_zero (NeZero.ne N)
  have hd : (Int64.ofInt d).toInt = d := Int64.toInt_ofInt_of_le hlo (by omega)
  apply UInt64.toNat_inj.mp
  rw [toNat_address hN]
  have h1 := offset_toNat_of_fits hpos hN (address x) (Int64.ofInt d)
    (by rw [hd]; omega) (by rw [hd, toNat_address hN]; omega)
  have h2 : ((x + (d : ZMod N)).val : Int) = ((x.val : Int) + d) % N := by
    rw [← ZMod.val_intCast]
    push_cast
    rw [ZMod.natCast_zmod_val]
  rw [hd, toNat_address hN, ← h2] at h1
  unfold Core.offset
  rw [size_coreOf]
  exact_mod_cast h1

end Cells

/-! ### Room for an instruction -/

/-- A signed word that stays one when `k` is taken from it or an address is added. -/
def Fits (N k : Nat) (v : Int) : Prop := -2 ^ 63 + k ≤ v ∧ v + N ≤ 2 ^ 63

theorem Fits.mono {k l : Nat} (hkl : k ≤ l) {v : Int} (h : Fits N l v) : Fits N k v :=
  ⟨by have := h.1; omega, h.2⟩

/-- Every field is such a word. -/
def Room (k : Nat) (m : Memory N) : Prop := ∀ x, Fits N k (m x).aField ∧ Fits N k (m x).bField

theorem setB_apply (m : Memory N) (x y : ZMod N) (v : Int) :
    setB m x v y = if y = x then { m x with bField := v } else m y := by
  rw [setB, Function.update_apply]

/-- An operand takes at most one from a field. -/
theorem Room.resolve {k : Nat} {m : Memory N} (h : Room (k + 1) m) (pc : ZMod N) (field : Int)
    (mode : Mode) : Room k (resolve m pc field mode).2 := by
  have hk : Room k m := fun x => ⟨(h x).1.mono (Nat.le_succ k), (h x).2.mono (Nat.le_succ k)⟩
  cases mode with
  | immediate => exact hk
  | direct => exact hk
  | indirect => exact hk
  | autodecrement =>
    intro x
    show Fits N k (setB m (pc + field) _ x).aField ∧ Fits N k (setB m (pc + field) _ x).bField
    rw [setB_apply]
    split
    · obtain ⟨hlo, hhi⟩ := (h (pc + field)).2
      refine ⟨(hk _).1, ?_⟩
      show Fits N k ((m (pc + field)).bField - 1)
      push_cast at hlo
      exact ⟨by omega, by omega⟩
    · exact hk x

/-- A raw operand value is a signed word. -/
def Operand.Fits (a : Operand N) : Prop := ∀ v, a = .value v → Ideal.Fits N 0 v

theorem resolve_fits (m : Memory N) (pc : ZMod N) {field : Int} (hf : Fits N 0 field)
    (mode : Mode) : (resolve m pc field mode).1.Fits := by
  intro v hv
  cases mode <;> cases hv
  exact hf

theorem Operand.Fits.tested {k : Nat} {m : Memory N} (hm : Room k m) {b : Operand N}
    (hb : b.Fits) : Ideal.Fits N 0 (b.tested m) := by
  cases b with
  | value v => exact hb v rfl
  | place y => exact (hm y).2.mono (Nat.zero_le k)

section Step

variable [NeZero N]

theorem Fits.lt {k : Nat} {v : Int} (h : Fits N k v) : v < 2 ^ 63 := by
  have hpos : 0 < N := Nat.pos_of_ne_zero (NeZero.ne N)
  have := h.2
  omega

/-- Words are equal when their integers are. -/
theorem beq_word {v w : Int} (hv : Fits N 0 v) (hw : Fits N 0 w) :
    (Int64.ofInt v == Int64.ofInt w) = decide (v = w) := by
  rw [Bool.eq_iff_iff, beq_iff_eq, decide_eq_true_iff]
  exact ofInt_inj (by have := hv.1; omega) hv.lt (by have := hw.1; omega) hw.lt

theorem lt_word {v w : Int} (hv : Fits N 0 v) (hw : Fits N 0 w) :
    decide (Int64.ofInt v < Int64.ofInt w) = decide (v < w) := by
  rw [Bool.eq_iff_iff, decide_eq_true_iff, decide_eq_true_iff]
  exact ofInt_lt (by have := hv.1; omega) hv.lt (by have := hw.1; omega) hw.lt

variable (hN : N ≤ 2 ^ 62)

include hN

/-- Operands resolve as their words do. -/
theorem resolve_coreOf {k : Nat} {m : Memory N} (hm : Room (k + 1) m) (pc : ZMod N) {field : Int}
    (hf : Fits N 0 field) (mode : Mode) :
    (coreOf m).resolve (address pc) mode (Int64.ofInt field) =
      ((resolve m pc field mode).1.word, coreOf (resolve m pc field mode).2) := by
  have hN' : N < 2 ^ 64 := by omega
  have hd : ∀ m : Memory N, (coreOf m).offset (address pc) (Int64.ofInt field) =
      address (pc + (field : ZMod N)) := fun m => by
    obtain ⟨hlo, hhi⟩ := hf
    exact offset_address hN' m pc (by omega) hhi
  obtain ⟨hlo, hhi⟩ := (hm (pc + field)).2
  cases mode with
  | immediate => rfl
  | direct =>
    simp only [Core.resolve, resolve, Operand.word, hd]
  | indirect =>
    simp only [Core.resolve, resolve, Operand.word, hd, read_coreOf hN', Cell.word]
    rw [offset_address hN' m _ (by omega) hhi]
  | autodecrement =>
    have hdec : (m (pc + field)).word.decrement =
        { (m (pc + field)).word with bField := Int64.ofInt ((m (pc + field)).bField - 1) } := by
      rw [Instruction.decrement, Int64.ofInt_sub]
      rfl
    simp only [Core.resolve, resolve, Operand.word, hd, modify_setB hN' hdec, read_coreOf hN',
      setB_apply, if_true, Cell.word]
    rw [offset_address hN' _ _ (by omega) (by omega)]

theorem offset_one (m : Memory N) (pc : ZMod N) :
    (coreOf m).offset (address pc) 1 = address (pc + 1) := by
  have h := offset_address (by omega) m pc (d := 1) (by decide) (by omega)
  rwa [Int.cast_one] at h

theorem offset_two (m : Memory N) (pc : ZMod N) :
    (coreOf m).offset (address pc) 2 = address (pc + 2) := by
  have h := offset_address (by omega) m pc (d := 2) (by decide) (by omega)
  rwa [Int.cast_ofNat] at h

theorem value_word (m : Memory N) (b : Operand N) :
    b.word.value (coreOf m) = Int64.ofInt (b.tested m) := by
  cases b with
  | value v => rfl
  | place y =>
    simp only [Operand.word, CoreWar.Operand.value, Operand.tested]
    rw [read_coreOf (by omega)]
    rfl

theorem move_coreOf (m : Memory N) {c : Cell} (hop : c.opcode = .mov) (pc : ZMod N)
    (a b : Operand N) :
    c.word.move (address pc) a.word b.word (coreOf m) = coreOf (perform c pc m a b).2 := by
  have hN' : N < 2 ^ 64 := by omega
  cases a with
  | value v =>
    cases b with
    | value w =>
      simp only [perform, hop]
      exact modify_setB hN' rfl
    | place y =>
      simp only [perform, hop]
      exact modify_setB hN' rfl
  | place x =>
    cases b with
    | value w =>
      simp only [perform, hop]
      exact modify_setB hN' rfl
    | place y =>
      simp only [perform, hop, Operand.word, Instruction.move, read_coreOf hN', write_coreOf hN']

theorem arithmetic_coreOf (m : Memory N) {c : Cell} (hop : c.opcode = .add ∨ c.opcode = .sub)
    (pc : ZMod N) (a : Operand N) (y : ZMod N) :
    Instruction.arithmetic c.opcode (address pc) a.word (Operand.place y).word (coreOf m) =
      coreOf (perform c pc m a (.place y)).2 := by
  have hN' : N < 2 ^ 64 := by omega
  cases a with
  | value v =>
    rcases hop with hop | hop
    · simp only [perform, hop]
      refine modify_setB hN' ?_
      rw [Int64.ofInt_add]
      rfl
    · simp only [perform, hop]
      refine modify_setB hN' ?_
      rw [Int64.ofInt_sub]
      rfl
  | place x =>
    rcases hop with hop | hop
    · simp only [perform, hop, Instruction.arithmetic, Operand.word, read_coreOf hN']
      refine modify_coreOf hN' ?_
      simp only [Cell.word, Int64.ofInt_add]
      rfl
    · simp only [perform, hop, Instruction.arithmetic, Operand.word, read_coreOf hN']
      refine modify_coreOf hN' ?_
      simp only [Cell.word, Int64.ofInt_sub]
      rfl

/-- The test of `CMP`, as the table states it. -/
theorem equal_word {m : Memory N} (hm : Room 1 m) {a b : Operand N} (ha : a.Fits) (hb : b.Fits) :
    Instruction.equalOperands (coreOf m) a.word b.word = match a, b with
      | .value v, b => decide (v = b.tested m)
      | .place x, .value v => decide ((m x).bField = v)
      | .place x, .place y =>
        decide ((m x).aField = (m y).aField ∧ (m x).bField = (m y).bField) := by
  have hN' : N < 2 ^ 64 := by omega
  have hfit : ∀ x, Fits N 0 (m x).aField ∧ Fits N 0 (m x).bField := fun x =>
    ⟨(hm x).1.mono (Nat.zero_le 1), (hm x).2.mono (Nat.zero_le 1)⟩
  cases a with
  | value v =>
    show (Int64.ofInt v == b.word.value (coreOf m)) = _
    rw [value_word hN, beq_word (ha v rfl) (hb.tested hm)]
  | place x =>
    cases b with
    | value v =>
      simp only [Operand.word, Instruction.equalOperands, read_coreOf hN', Cell.word]
      exact beq_word (hfit x).2 (hb v rfl)
    | place y =>
      simp only [Operand.word, Instruction.equalOperands, read_coreOf hN', Cell.word]
      rw [beq_word (hfit x).1 (hfit y).1, beq_word (hfit x).2 (hfit y).2, ← Bool.decide_and]

omit [NeZero N] hN in
/-- A jump that is taken when `p` holds. -/
theorem toList_jump (next x : ZMod N) (p : Prop) [Decidable p] :
    (Instruction.jump (address next) (Operand.place x).word (decide p)).toList =
      [if p then x else next].map address := by
  by_cases hp : p <;>
    simp [hp, Instruction.jump, Operand.word, CoreWar.Operand.address?, Successors.toList]

omit [NeZero N] hN in
/-- A cell that is skipped when `p` holds. -/
theorem toList_skip (far near : ZMod N) (p : Prop) [Decidable p] :
    (Successors.one (if decide p = true then address far else address near)).toList =
      [if p then far else near].map address := by
  by_cases hp : p <;> simp [hp, Successors.toList]

/-- A test for zero, as a word has it. -/
theorem beq_zero_word {v : Int} (hv : Fits N 0 v) :
    (Int64.ofInt v == 0) = decide (v = 0) := by
  have hzero : Fits N 0 0 := ⟨by decide, by omega⟩
  exact beq_word hv hzero

/-- The counter of `DJN` after it was stored. -/
theorem count_coreOf {m : Memory N} (hm : Room 1 m) (y : ZMod N) :
    (coreOf m).modify (address y) .decrement = coreOf (setB m y ((m y).bField - 1)) ∧
      (((coreOf (setB m y ((m y).bField - 1))).read (address y)).bField == 0) =
        decide ((m y).bField - 1 = 0) := by
  have hN' : N < 2 ^ 64 := by omega
  constructor
  · refine modify_setB hN' ?_
    rw [Instruction.decrement, Int64.ofInt_sub]
    rfl
  · have hcount : Fits N 0 ((m y).bField - 1) := by
      obtain ⟨hlo, hhi⟩ := (hm y).2
      push_cast at hlo
      exact ⟨by push_cast; omega, by omega⟩
    rw [read_coreOf hN', setB_apply, if_pos rfl]
    exact beq_zero_word hN hcount

/-- The test of `SLT`, as the table states it. -/
theorem less_word {m : Memory N} (hm : Room 1 m) {a : Operand N} (ha : a.Fits) (y : ZMod N) :
    Instruction.lessOperands (coreOf m) a.word (Operand.place y).word = match a with
      | .value v => decide (v < (m y).bField)
      | .place x => decide ((m x).aField < (m y).bField) := by
  have hy : Fits N 0 (m y).bField := (hm y).2.mono (Nat.zero_le 1)
  unfold Instruction.lessOperands
  rw [value_word hN]
  cases a with
  | value v => exact lt_word (ha v rfl) hy
  | place x =>
    simp only [Operand.word, read_coreOf (show N < 2 ^ 64 by omega), Cell.word]
    exact lt_word ((hm x).1.mono (Nat.zero_le 1)) hy

/-- The effect of an allowed instruction is the one that the table gives. -/
theorem effect_coreOf {m : Memory N} (hm : Room 1 m) {c : Cell} (hd : c.opcode ≠ .dat)
    (pc : ZMod N) {a b : Operand N} (ha : a.Fits) (hb : b.Fits)
    (hplaceA : c.opcode ∈ [.jmp, .jmz, .jmn, .spl] → ∃ x, a = .place x)
    (hplaceB : c.opcode ∈ [.add, .sub, .djn, .slt] → ∃ y, b = .place y) :
    (c.word.effect (address pc) a.word b.word (coreOf m)).1.toList =
        (perform c pc m a b).1.map address ∧
      (c.word.effect (address pc) a.word b.word (coreOf m)).2 = coreOf (perform c pc m a b).2 := by
  have hzero : (b.word.value (coreOf m) == 0) = decide (b.tested m = 0) := by
    rw [value_word hN]
    exact beq_zero_word hN (hb.tested hm)
  have hw : c.word.opcode = c.opcode := rfl
  unfold Instruction.effect
  simp only [hw, offset_one hN, offset_two hN]
  cases hop : c.opcode with
  | dat => exact absurd hop hd
  | mov =>
    refine ⟨?_, move_coreOf hN m hop pc a b⟩
    cases a <;> cases b <;> simp [perform, hop, Successors.toList]
  | add =>
    obtain ⟨y, rfl⟩ := hplaceB (by simp [hop])
    have harith := arithmetic_coreOf hN m (.inl hop) pc a y
    rw [hop] at harith
    refine ⟨?_, harith⟩
    cases a <;> simp [perform, hop, Successors.toList]
  | sub =>
    obtain ⟨y, rfl⟩ := hplaceB (by simp [hop])
    have harith := arithmetic_coreOf hN m (.inr hop) pc a y
    rw [hop] at harith
    refine ⟨?_, harith⟩
    cases a <;> simp [perform, hop, Successors.toList]
  | jmp =>
    obtain ⟨x, rfl⟩ := hplaceA (by simp [hop])
    simp only [perform, hop]
    exact ⟨toList_jump (pc + 1) x True, trivial⟩
  | jmz =>
    obtain ⟨x, rfl⟩ := hplaceA (by simp [hop])
    simp only [perform, hop, hzero]
    exact ⟨toList_jump (pc + 1) x _, trivial⟩
  | jmn =>
    obtain ⟨x, rfl⟩ := hplaceA (by simp [hop])
    simp only [perform, hop, bne, hzero, ← decide_not]
    exact ⟨toList_jump (pc + 1) x _, trivial⟩
  | djn =>
    obtain ⟨y, rfl⟩ := hplaceB (by simp [hop])
    obtain ⟨hstore, htest⟩ := count_coreOf hN hm y
    simp only [Operand.word, Instruction.target, CoreWar.Operand.address?, Option.getD_some,
      hstore, htest]
    cases a with
    | value v =>
      -- an immediate A leads nowhere: the process goes on at the next cell either way
      simp only [perform, hop]
      simp [Instruction.jump, CoreWar.Operand.address?, Successors.toList]
    | place x =>
      simp only [perform, hop]
      exact ⟨toList_jump (pc + 1) x _, trivial⟩
  | cmp =>
    rw [equal_word hN hm ha hb]
    cases a with
    | value v =>
      simp only [perform, hop]
      exact ⟨toList_skip _ _ _, trivial⟩
    | place x =>
      cases b with
      | value v =>
        simp only [perform, hop]
        exact ⟨toList_skip _ _ _, trivial⟩
      | place y =>
        simp only [perform, hop]
        exact ⟨toList_skip _ _ _, trivial⟩
  | slt =>
    obtain ⟨y, rfl⟩ := hplaceB (by simp [hop])
    rw [less_word hN hm ha y]
    cases a with
    | value v =>
      simp only [perform, hop]
      exact ⟨toList_skip _ _ _, trivial⟩
    | place x =>
      simp only [perform, hop]
      exact ⟨toList_skip _ _ _, trivial⟩
  | spl =>
    obtain ⟨x, rfl⟩ := hplaceA (by simp [hop])
    simp [perform, hop, Operand.word, CoreWar.Operand.address?, Successors.toList]

/-! ### One instruction -/

omit [NeZero N] hN in
/-- Words are disallowed as their cells are. -/
theorem fault_word (c : Cell) :
    c.word.fault? = c.disallowed?.map fun slot => ⟨c.opcode, slot⟩ := by
  obtain ⟨opcode, aMode, aField, bMode, bField⟩ := c
  cases opcode <;> cases aMode <;> cases bMode <;> rfl

omit [NeZero N] hN in
theorem Cell.not_immediate {c : Cell} (h : c.disallowed? = none) :
    (c.opcode ∈ [.jmp, .jmz, .jmn, .spl] → c.aMode ≠ .immediate) ∧
      (c.opcode ∈ [.add, .sub, .djn, .slt] → c.bMode ≠ .immediate) := by
  unfold disallowed? at h
  split at h
  · cases h
  split at h
  · cases h
  rename_i hb ha
  exact ⟨fun hop hi => ha ⟨hi, hop⟩, fun hop hi => hb ⟨hi, hop⟩⟩

omit [NeZero N] hN in
/-- Only an immediate operand is a raw value. -/
theorem exists_place (m : Memory N) (pc : ZMod N) (field : Int) {mode : Mode}
    (h : mode ≠ .immediate) : ∃ x, (resolve m pc field mode).1 = .place x := by
  cases mode with
  | immediate => exact absurd rfl h
  | direct => exact ⟨_, rfl⟩
  | indirect => exact ⟨_, rfl⟩
  | autodecrement => exact ⟨_, rfl⟩

/-- **One instruction.** The step in words is the step of the ideal machine. -/
theorem step_coreOf {m : Memory N} (hm : Room 3 m) (pc : ZMod N) :
    ((coreOf m).step (address pc)).1.pc = address pc ∧
      ((coreOf m).step (address pc)).1.successors.toList = (execute m pc).next.map address ∧
      ((coreOf m).step (address pc)).1.fault =
        (execute m pc).fault.map (fun slot => ⟨(m pc).opcode, slot⟩) ∧
      ((coreOf m).step (address pc)).2 = coreOf (execute m pc).memory := by
  have hN' : N < 2 ^ 64 := by omega
  have hread := read_coreOf hN' m pc
  have hop : ((coreOf m).read (address pc)).opcode = (m pc).opcode := by rw [hread]; rfl
  have hfault := fault_word (m pc)
  rw [← hread] at hfault
  by_cases hdat : (m pc).opcode = .dat
  · rw [Core.step_of_dat (hop.trans hdat)]
    simp [execute, hdat, Successors.toList]
  cases hdis : (m pc).disallowed? with
  | some slot =>
    rw [hdis] at hfault
    rw [Core.step_of_fault hfault, offset_one hN]
    simp [execute, hdat, hdis, Successors.toList]
  | none =>
    rw [hdis] at hfault
    rw [Core.step_of_allowed hfault (hop ▸ hdat)]
    have hfit : Fits N 0 (m pc).aField ∧ Fits N 0 (m pc).bField :=
      ⟨(hm pc).1.mono (Nat.zero_le 3), (hm pc).2.mono (Nat.zero_le 3)⟩
    -- A is resolved before B, and each takes at most one from the room
    have ha := resolve_coreOf hN hm pc hfit.1 (m pc).aMode
    have hmA : Room 2 (resolve m pc (m pc).aField (m pc).aMode).2 := hm.resolve _ _ _
    have hb := resolve_coreOf hN hmA pc hfit.2 (m pc).bMode
    have hmB := hmA.resolve pc (m pc).bField (m pc).bMode
    obtain ⟨hplaceA, hplaceB⟩ := Cell.not_immediate hdis
    obtain ⟨hnext, hmem⟩ := effect_coreOf hN hmB hdat pc
      (resolve_fits m pc hfit.1 (m pc).aMode)
      (resolve_fits (resolve m pc (m pc).aField (m pc).aMode).2 pc hfit.2 (m pc).bMode)
      (fun hin => exists_place _ _ _ (hplaceA hin))
      (fun hin => exists_place _ _ _ (hplaceB hin))
    simp only [Core.operands, hread, Cell.word] at ha hb hnext hmem ⊢
    rw [ha]
    simp only [hb]
    simp [execute, hdat, hdis, hnext, hmem]

end Step

end Ideal
end CoreWar
