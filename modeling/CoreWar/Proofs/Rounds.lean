/-
# A battle turn by turn

In every state that turns lead to, an open battle has its cursor at a warrior
that is alive (`Battle.Ready`), so the next turn runs one process of that
warrior. A property of the start that such turns keep holds after any number
of ticks (`Battle.ticks_induction`); the results about whole battles are
instances of it.

Ticks count from the first on. A tick is executed when an instruction runs in
it (`Battle.executes`); these are the ticks before the verdict, and the cycle
counter counts them (`Battle.ticks_cycles`).

Key definitions: `Battle.aliveAt`, `Battle.Ready`, `Battle.InRing`,
`Battle.executes`, `Battle.executed`.
Key theorems: `Battle.nextAlive_spec`, `Battle.ready_ticks`,
`Battle.ticks_induction`, `Battle.InRing.ticks`, `Battle.ticks_cycles`.
-/
import CoreWar.Battle
import CoreWar.Proofs.Stepping

namespace CoreWar

attribute [ext] Battle

namespace Battle

/-! ### The next warrior -/

/-- Is there a warrior at position `i`, and is it alive? -/
def aliveAt (warriors : List Warrior) (i : Nat) : Bool := warriors[i]?.any Warrior.alive

theorem aliveAt_iff {warriors : List Warrior} {i : Nat} :
    aliveAt warriors i = true ↔ ∃ w, warriors[i]? = some w ∧ w.alive = true := by
  simp [aliveAt, Option.any_eq_true]

theorem lt_of_aliveAt {warriors : List Warrior} {i : Nat} (h : aliveAt warriors i = true) :
    i < warriors.length := by
  obtain ⟨w, hw, -⟩ := aliveAt_iff.mp h
  exact (List.getElem?_eq_some_iff.mp hw).1

/-- Going round from any place, every position is met. -/
theorem exists_steps_to {n i : Nat} (c : Nat) (hi : i < n) : ∃ k < n, (c + k) % n = i := by
  have hn : 0 < n := by omega
  have hr : c % n < n := Nat.mod_lt _ hn
  by_cases h : c % n ≤ i
  · refine ⟨i - c % n, by omega, ?_⟩
    calc (c + (i - c % n)) % n = (c % n + (i - c % n)) % n := (Nat.mod_add_mod ..).symm
      _ = i % n := by rw [Nat.add_sub_cancel' h]
      _ = i := Nat.mod_eq_of_lt hi
  · refine ⟨i + n - c % n, by omega, ?_⟩
    calc (c + (i + n - c % n)) % n = (c % n + (i + n - c % n)) % n := (Nat.mod_add_mod ..).symm
      _ = (i + n) % n := by rw [Nat.add_sub_cancel' (by omega)]
      _ = i % n := Nat.add_mod_right ..
      _ = i := Nat.mod_eq_of_lt hi

/-- The cursor moves to the first living warrior behind it. -/
theorem nextAlive_spec {warriors : List Warrior} {i : Nat} (hi : aliveAt warriors i = true)
    (cursor : Nat) :
    ∃ k < warriors.length, nextAlive warriors cursor = (cursor + 1 + k) % warriors.length ∧
      aliveAt warriors ((cursor + 1 + k) % warriors.length) = true ∧
      ∀ j < k, aliveAt warriors ((cursor + 1 + j) % warriors.length) = false := by
  obtain ⟨m, hm, hmi⟩ := exists_steps_to (cursor + 1) (lt_of_aliveAt hi)
  unfold nextAlive
  simp only [List.find?_map]
  cases hf : (List.range warriors.length).find?
      ((fun i => warriors[i]?.any Warrior.alive) ∘ fun k => (cursor + 1 + k) % warriors.length) with
  | none =>
    have := List.find?_eq_none.mp hf m (List.mem_range.mpr hm)
    simp only [Function.comp_apply, hmi] at this
    exact absurd hi this
  | some k =>
    obtain ⟨h1, h2, h3⟩ := List.find?_range_eq_some.mp hf
    refine ⟨k, List.mem_range.mp h2, rfl, h1, fun j hj => ?_⟩
    simpa [aliveAt] using h3 j hj

theorem nextAlive_alive {warriors : List Warrior} {i : Nat} (hi : aliveAt warriors i = true)
    (cursor : Nat) : aliveAt warriors (nextAlive warriors cursor) = true := by
  obtain ⟨k, -, he, ha, -⟩ := nextAlive_spec hi cursor
  rw [he]
  exact ha

theorem exists_aliveAt_of_mem {warriors : List Warrior} {w : Warrior} (hw : w ∈ warriors)
    (ha : w.alive = true) : ∃ i, aliveAt warriors i = true := by
  obtain ⟨i, hi, rfl⟩ := List.mem_iff_getElem.mp hw
  exact ⟨i, aliveAt_iff.mpr ⟨_, List.getElem?_eq_getElem hi, ha⟩⟩

/-! ### The verdict of a turn -/

@[simp] theorem length_survivors (warriors : List Warrior) :
    (survivors warriors).length = warriors.countP Warrior.alive := by
  rw [survivors, List.length_map, List.countP_eq_length_filter]

theorem survivors_eq_nil_iff {warriors : List Warrior} :
    survivors warriors = [] ↔ warriors.countP Warrior.alive = 0 := by
  rw [← length_survivors, List.length_eq_zero_iff]

/-- A battle goes on while enough warriors are alive and the limit is not reached. -/
theorem judge_eq_none_iff {contenders : Nat} {limit : Option UInt64} {cycles : UInt64}
    {warriors : List Warrior} : judge contenders limit cycles warriors = none ↔
      0 < warriors.countP Warrior.alive ∧
      (1 < contenders → 1 < warriors.countP Warrior.alive) ∧
      limit.any (· ≤ cycles) = false := by
  rw [← length_survivors]
  unfold judge
  cases hs : survivors warriors with
  | nil => simp
  | cons id ids =>
    cases ids with
    | nil => by_cases hc : 1 < contenders <;> simp [hc]
    | cons id' ids => simp

/-! ### One turn -/

section Turn

variable {b : Battle} {w : Warrior}

theorem turn_of_over {v : Verdict} (h : b.verdict = some v) : b.turn = (none, b) := by
  simp [turn, h]

theorem tick_of_over {v : Verdict} (h : b.verdict = some v) : b.tick = b := by
  simp [tick, turn_of_over h]

theorem turn_of_open (hv : b.verdict = none) (hw : b.warriors[b.cursor]? = some w) :
    b.turn = (some (b.advance w).1, (b.advance w).2) := by
  simp [turn, hv, hw]

theorem tick_of_open (hv : b.verdict = none) (hw : b.warriors[b.cursor]? = some w) :
    b.tick = (b.advance w).2 := by
  simp [tick, turn_of_open hv hw]

@[simp] theorem advance_core : (b.advance w).2.core = (w.act b.core).2.2 := rfl

@[simp] theorem advance_warriors :
    (b.advance w).2.warriors = b.warriors.set b.cursor (w.act b.core).2.1 := rfl

@[simp] theorem advance_cycles : (b.advance w).2.cycles = b.cycles + 1 := rfl

@[simp] theorem advance_limit : (b.advance w).2.limit = b.limit := rfl

@[simp] theorem advance_contenders : (b.advance w).2.contenders = b.contenders := rfl

theorem advance_verdict : (b.advance w).2.verdict =
    judge b.contenders b.limit (b.cycles + 1) (b.advance w).2.warriors := rfl

theorem advance_cursor : (b.advance w).2.cursor = if (b.advance w).2.verdict.isSome then b.cursor
    else nextAlive (b.advance w).2.warriors b.cursor := rfl

theorem advance_cursor_of_open (h : (b.advance w).2.verdict = none) :
    (b.advance w).2.cursor = nextAlive (b.advance w).2.warriors b.cursor := by
  rw [advance_cursor, h]
  rfl

/-- What is reported of a turn. -/
theorem advance_fst : (b.advance w).1 = ⟨b.cycles + 1, (w.act b.core).2.1.id, (w.act b.core).1,
    !(w.act b.core).2.1.alive, (b.advance w).2.verdict⟩ := rfl

/-- A turn adds its elimination, if there is one, to the record. -/
theorem toList_advance_eliminations : (b.advance w).2.eliminations.toList =
    b.eliminations.toList ++ (b.advance w).1.elimination?.toList := by
  show ((b.advance w).1.elimination?.elim b.eliminations b.eliminations.push).toList = _
  cases (b.advance w).1.elimination? <;> simp

theorem toList_advance_incidents : (b.advance w).2.incidents.toList =
    b.incidents.toList ++ (b.advance w).1.incident?.toList := by
  show ((b.advance w).1.incident?.elim b.incidents b.incidents.push).toList = _
  cases (b.advance w).1.incident? <;> simp

@[simp] theorem advance_step : (b.advance w).1.step = (w.act b.core).1 := rfl

end Turn

/-! ### Ready for a turn -/

/-- An open battle has its cursor at a warrior that is alive. -/
def Ready (b : Battle) : Prop := b.verdict = none → aliveAt b.warriors b.cursor = true

theorem ready_ofParts (core : Core) (warriors : List Warrior) (limit : Option UInt64) :
    (ofParts core warriors limit).Ready := by
  intro hv
  have hc : warriors.countP Warrior.alive ≠ 0 := by
    intro h0
    simp [ofParts, h0] at hv
  obtain ⟨w, hw, ha⟩ := List.countP_pos_iff.mp (Nat.pos_of_ne_zero hc)
  show aliveAt warriors ((warriors.findIdx? Warrior.alive).getD 0) = true
  cases hf : warriors.findIdx? Warrior.alive with
  | none => simp [List.findIdx?_eq_none_iff.mp hf w hw] at ha
  | some i =>
    obtain ⟨hi, hai, -⟩ := List.findIdx?_eq_some_iff_getElem.mp hf
    exact aliveAt_iff.mpr ⟨_, List.getElem?_eq_getElem hi, hai⟩

theorem ready_advance (b : Battle) (w : Warrior) : (b.advance w).2.Ready := by
  intro hv
  rw [advance_cursor_of_open hv]
  obtain ⟨hpos, -, -⟩ := judge_eq_none_iff.mp (advance_verdict.symm.trans hv)
  obtain ⟨x, hx, ha⟩ := List.countP_pos_iff.mp hpos
  obtain ⟨i, hi⟩ := exists_aliveAt_of_mem hx ha
  exact nextAlive_alive hi _

/-- What the next tick does, when the battle is ready. -/
theorem Ready.tick_cases {b : Battle} (h : b.Ready) :
    (∃ v, b.verdict = some v ∧ b.tick = b) ∨
    (∃ w, b.verdict = none ∧ b.warriors[b.cursor]? = some w ∧ w.alive = true ∧
      b.tick = (b.advance w).2) := by
  cases hv : b.verdict with
  | some v => exact .inl ⟨v, rfl, tick_of_over hv⟩
  | none =>
    obtain ⟨w, hw, ha⟩ := aliveAt_iff.mp (h hv)
    exact .inr ⟨w, rfl, hw, ha, tick_of_open hv hw⟩

/-! ### Any number of ticks -/

theorem ticks_succ : ∀ (n : Nat) (b : Battle), b.ticks (n + 1) = (b.ticks n).tick
  | 0, _ => rfl
  | n + 1, b => by
    show b.tick.ticks (n + 1) = (b.tick.ticks n).tick
    exact ticks_succ n b.tick

theorem ticks_add (m : Nat) : ∀ (n : Nat) (b : Battle), b.ticks (m + n) = (b.ticks m).ticks n
  | 0, _ => rfl
  | n + 1, b => by rw [← Nat.add_assoc, ticks_succ, ticks_succ, ticks_add m n]

theorem ticks_of_over {b : Battle} {v : Verdict} (h : b.verdict = some v) :
    ∀ n : Nat, b.ticks n = b
  | 0 => rfl
  | n + 1 => by rw [ticks_succ, ticks_of_over h n, tick_of_over h]

/-- **What a turn keeps, a run keeps.** Only turns of living warriors count. -/
theorem ticks_induction {P : Battle → Prop} {b : Battle} (hr : b.Ready) (h0 : P b)
    (hstep : ∀ (c : Battle) (w : Warrior), c.verdict = none → c.warriors[c.cursor]? = some w →
      w.alive = true → P c → P (c.advance w).2) (n : Nat) :
    (b.ticks n).Ready ∧ P (b.ticks n) := by
  induction n with
  | zero => exact ⟨hr, h0⟩
  | succ n ih =>
    obtain ⟨hrn, hn⟩ := ih
    rw [ticks_succ]
    rcases hrn.tick_cases with ⟨v, -, ht⟩ | ⟨w, hv, hw, ha, ht⟩
    · rw [ht]
      exact ⟨hrn, hn⟩
    · rw [ht]
      exact ⟨ready_advance _ _, hstep _ w hv hw ha hn⟩

theorem ready_ticks {b : Battle} (hr : b.Ready) (n : Nat) : (b.ticks n).Ready :=
  (ticks_induction (P := fun _ => True) hr trivial (fun _ _ _ _ _ _ => trivial) n).1

/-- A battle that is open was open before. -/
theorem open_of_le {b : Battle} {m n : Nat} (hmn : m ≤ n) (h : (b.ticks n).verdict = none) :
    (b.ticks m).verdict = none := by
  cases hm : (b.ticks m).verdict with
  | none => rfl
  | some v =>
    obtain ⟨d, rfl⟩ := Nat.exists_eq_add_of_le hmn
    rw [ticks_add, ticks_of_over hm, hm] at h
    exact h

/-! ### Processes in the ring -/

/-- The core has `size` cells, and every process is at one of them. -/
structure InRing (size : Nat) (b : Battle) : Prop where
  cells : b.core.size = size
  processes : ∀ w ∈ b.warriors, ∀ pc ∈ w.queue.toList, pc.toNat < size

theorem InRing.queue_lt {size : Nat} {b : Battle} (h : b.InRing size) {i : Nat} {w : Warrior}
    (hw : b.warriors[i]? = some w) : ∀ pc ∈ w.queue.toList, pc.toNat < size :=
  h.processes w (List.mem_of_getElem? hw)

/-- The turn of a living warrior keeps every process in the ring. -/
theorem InRing.advance {size : Nat} (hs : size < 2 ^ 64) {b : Battle} {w : Warrior}
    (hw : b.warriors[b.cursor]? = some w) (ha : w.alive = true) (h : b.InRing size) :
    (b.advance w).2.InRing size := by
  have hqueue := h.queue_lt hw
  obtain ⟨pc, hpc⟩ := List.exists_mem_of_ne_nil _ ((Warrior.alive_iff w).mp ha)
  have hpos : 0 < size := Nat.lt_of_le_of_lt (Nat.zero_le _) (hqueue pc hpc)
  obtain ⟨hcells, hprocesses⟩ := h
  subst hcells
  refine ⟨Warrior.size_act w b.core, fun x hx => ?_⟩
  rcases List.mem_or_eq_of_mem_set hx with hx | rfl
  · exact hprocesses x hx
  · exact Warrior.act_queue_lt hpos hs hqueue

theorem InRing.ticks {size : Nat} (hs : size < 2 ^ 64) {b : Battle} (hr : b.Ready)
    (h : b.InRing size) (n : Nat) : (b.ticks n).InRing size :=
  (ticks_induction hr h (fun _ _ _ hw ha hc => hc.advance hs hw ha) n).2

/-! ### Executed ticks -/

/-- Does an instruction run in the next tick? -/
def executes (b : Battle) : Bool := (b.turn.1.bind Turn.step).isSome

/-- How many of the first `n` ticks are executed. -/
def executed (b : Battle) (n : Nat) : Nat := (List.range n).countP fun k => (b.ticks k).executes

/-- A warrior that is alive runs an instruction. -/
theorem exists_step_of_alive {w : Warrior} (ha : w.alive = true) (core : Core) :
    ∃ step, (w.act core).1 = some step := by
  obtain ⟨pc, pcs, hq⟩ := List.exists_cons_of_ne_nil ((Warrior.alive_iff w).mp ha)
  exact ⟨_, by rw [Warrior.act_of_cons hq]⟩

/-- The executed ticks are those before the verdict. -/
theorem Ready.executes_iff {b : Battle} (h : b.Ready) : b.executes = true ↔ b.verdict = none := by
  constructor
  · intro he
    cases hv : b.verdict with
    | none => rfl
    | some v => simp [executes, turn_of_over hv] at he
  · intro hv
    obtain ⟨w, hw, ha⟩ := aliveAt_iff.mp (h hv)
    obtain ⟨step, hs⟩ := exists_step_of_alive ha b.core
    simp [executes, turn_of_open hv hw, hs]

theorem executed_succ (b : Battle) (n : Nat) :
    b.executed (n + 1) = b.executed n + if (b.ticks n).executes then 1 else 0 := by
  simp [executed, List.range_succ, List.countP_append, List.countP_singleton]

/-- In an open battle every tick was executed. -/
theorem executed_eq {b : Battle} (hr : b.Ready) : ∀ n : Nat, (b.ticks n).verdict = none →
    b.executed n = n
  | 0, _ => rfl
  | n + 1, h => by
    have hn := open_of_le (Nat.le_succ n) h
    rw [executed_succ, executed_eq hr n hn, if_pos ((ready_ticks hr n).executes_iff.mpr hn)]

/-- The cycle counter counts the executed ticks. -/
theorem ticks_cycles {b : Battle} (hr : b.Ready) (n : Nat) :
    (b.ticks n).cycles = b.cycles + UInt64.ofNat (b.executed n) := by
  induction n with
  | zero => simp [executed, ticks]
  | succ n ih =>
    have hrn := ready_ticks hr n
    rw [executed_succ, ticks_succ]
    rcases hrn.tick_cases with ⟨v, hv, ht⟩ | ⟨w, hv, hw, -, ht⟩
    · have he : ¬ (b.ticks n).executes = true := by simp [hrn.executes_iff, hv]
      rw [ht, if_neg he, ih, Nat.add_zero]
    · rw [ht, if_pos (hrn.executes_iff.mpr hv), advance_cycles, ih, UInt64.ofNat_add,
        UInt64.add_assoc]
      rfl

/-- Without an overflow the cycle counter is the number of executed ticks. -/
theorem toNat_ticks_cycles {core : Core} {warriors : List Warrior} {limit : Option UInt64} {n : Nat}
    (h : (ofParts core warriors limit).executed n < 2 ^ 64) :
    ((ofParts core warriors limit).ticks n).cycles.toNat =
      (ofParts core warriors limit).executed n := by
  rw [ticks_cycles (ready_ofParts core warriors limit)]
  simp only [ofParts, UInt64.zero_add] at h ⊢
  exact UInt64.toNat_ofNat_of_lt' h

/-- An executed tick carries its number, counted from one. -/
theorem toNat_succ_cycles {core : Core} {warriors : List Warrior} {limit : Option UInt64} {k : Nat}
    (hk : k + 1 < 2 ^ 64) (hv : ((ofParts core warriors limit).ticks k).verdict = none) :
    (((ofParts core warriors limit).ticks k).cycles + 1).toNat = k + 1 := by
  have hexec := executed_eq (ready_ofParts core warriors limit) k hv
  rw [UInt64.toNat_add, toNat_ticks_cycles (by omega), hexec]
  exact Nat.mod_eq_of_lt hk

end Battle
end CoreWar
