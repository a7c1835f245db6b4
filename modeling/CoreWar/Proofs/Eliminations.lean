/-
# The record of eliminations

A warrior falls in a tick when it runs a `DAT` there and has no other process
(`Battle.Falls`). These are exactly the ticks in which a warrior that was
alive stops being so (`Battle.falls_iff`), and exactly the ticks that add to
the record (`Battle.elimination?_eq_some`). The record of a run is what its
ticks add, one after the other (`Battle.eliminations_ticks`), so the cycle
numbers in it increase, and with every entry there is one living warrior less.

A warrior without processes stays as it is and never has the turn again, so no
position falls twice. In a battle of loaded programs a warrior can be told by
its id: it is in the record when it has no process left, once, with the tick
in which it fell.

Key definitions: `Battle.Falls`, `Battle.elimination?`, `Battle.Recorded`,
`Battle.Accounted`.
Key theorems: `Battle.falls_iff`, `Battle.elimination?_eq_some`,
`Battle.eliminations_ticks`, `Battle.Falls.unique`,
`Battle.eliminations_exact`.
-/
import CoreWar.Proofs.Fifo
import CoreWar.Proofs.Soundness

namespace CoreWar
namespace Battle

/-- In the next tick the warrior at position `i` runs a `DAT`, and it has no other process. -/
def Falls (b : Battle) (i : Nat) : Prop :=
  ∃ w s, b.warriors[i]? = some w ∧ b.stepOf? i = some s ∧ w.queue.toList = [s.pc] ∧
    s.instruction.opcode = .dat

/-- What the next tick adds to the record. -/
def elimination? (b : Battle) : Option Elimination := b.turn.1.bind Turn.elimination?

/-! ### One tick -/

theorem aliveAt_eq {warriors : List Warrior} {i : Nat} {w : Warrior} (h : warriors[i]? = some w) :
    aliveAt warriors i = w.alive := by
  rw [aliveAt, h, Option.any_some]

theorem successors_eq_nil {core : Core} {pc : Address} :
    (core.step pc).1.successors.toList = [] ↔ (core.read pc).opcode = .dat := by
  rw [← List.length_eq_zero_iff, core.length_successors]
  unfold Instruction.offspring
  by_cases hd : (core.read pc).opcode = .dat
  · simp [hd]
  · rw [if_neg hd]
    split <;> simp [hd]

section Tick

variable {b : Battle} (hr : b.Ready) {i : Nat} {w : Warrior}

include hr

/-- **A warrior falls when it is alive before the tick and not behind it.** -/
theorem falls_iff : b.Falls i ↔
    aliveAt b.warriors i = true ∧ aliveAt b.tick.warriors i = false := by
  by_cases hlt : i < b.warriors.length
  · have hw := List.getElem?_eq_getElem hlt
    rw [aliveAt_eq hw]
    rcases tick_warrior hr hw with ⟨-, hstep, ht⟩ | ⟨pc, rest, -, hq, hstep, ht⟩
    · -- not its turn: nothing changes
      rw [aliveAt_eq ht]
      constructor
      · rintro ⟨x, s, -, hs, -⟩
        rw [hstep] at hs
        cases hs
      · rintro ⟨ha, hd⟩
        rw [ha] at hd
        cases hd
    · -- its turn: what is left is the rest of the queue and the successors
      have halive : b.warriors[i].alive = true := (Warrior.alive_iff _).mpr (by simp [hq])
      have hdead : aliveAt b.tick.warriors i = false ↔
          rest = [] ∧ (b.core.read pc).opcode = .dat := by
        rw [aliveAt_eq ht, Warrior.alive_eq, ProcessQueue.toList_ofList, Bool.not_eq_false',
          List.isEmpty_iff, List.append_eq_nil_iff, successors_eq_nil]
      rw [hdead]
      constructor
      · rintro ⟨x, s, hx, hs, hlast, hd⟩
        obtain rfl := Option.some.inj (hx.symm.trans hw)
        obtain rfl := Option.some.inj (hs.symm.trans hstep)
        rw [b.core.step_instruction] at hd
        rw [hq, b.core.step_pc, List.cons.injEq] at hlast
        exact ⟨halive, hlast.2, hd⟩
      · rintro ⟨-, rfl, hd⟩
        refine ⟨_, _, hw, hstep, ?_, ?_⟩
        · rw [hq, b.core.step_pc]
        · rw [b.core.step_instruction]
          exact hd
  · have hnone : b.warriors[i]? = none := List.getElem?_eq_none (by omega)
    constructor
    · rintro ⟨x, s, hx, -⟩
      rw [hnone] at hx
      cases hx
    · rintro ⟨ha, -⟩
      exact absurd (lt_of_aliveAt ha) hlt

theorem Falls.actor (h : b.Falls i) : b.verdict = none ∧ b.cursor = i := by
  obtain ⟨w, s, -, hs, -⟩ := h
  unfold stepOf? at hs
  split at hs
  · rename_i hactor
    exact (actor?_eq_some_iff hr).mp hactor
  · cases hs

theorem elimination?_eq_some {e : Elimination} : b.elimination? = some e ↔
    ∃ i w, b.Falls i ∧ b.warriors[i]? = some w ∧ e = ⟨w.id, b.cycles + 1⟩ := by
  rcases hr.tick_cases with ⟨v, hv, -⟩ | ⟨x, hv, hx, ha, ht⟩
  · constructor
    · intro h
      simp [elimination?, turn_of_over hv] at h
    · rintro ⟨i, w, hf, -⟩
      rw [(hf.actor hr).1] at hv
      cases hv
  · have hlt : b.cursor < b.warriors.length := (List.getElem?_eq_some_iff.mp hx).1
    have hset : b.tick.warriors[b.cursor]? = some (x.act b.core).2.1 := by
      rw [ht, advance_warriors, List.getElem?_set_self hlt]
    have hfalls : b.Falls b.cursor ↔ (x.act b.core).2.1.alive = false := by
      rw [falls_iff hr, aliveAt_eq hx, aliveAt_eq hset]
      simp [ha]
    have hadds : b.elimination? =
        if (x.act b.core).2.1.alive = false then some ⟨x.id, b.cycles + 1⟩ else none := by
      rw [elimination?, turn_of_open hv hx, Option.bind_some, Turn.elimination?, advance_fst,
        Warrior.act_id]
      simp
    rw [hadds]
    constructor
    · intro h
      split at h
      · rename_i hdead
        exact ⟨b.cursor, x, hfalls.mpr hdead, hx, (Option.some.inj h).symm⟩
      · cases h
    · rintro ⟨i, w, hf, hw, rfl⟩
      obtain ⟨-, rfl⟩ := hf.actor hr
      obtain rfl := Option.some.inj (hw.symm.trans hx)
      rw [if_pos (hfalls.mp hf)]

omit hr in
theorem tick_eliminations (b : Battle) :
    b.tick.eliminations.toList = b.eliminations.toList ++ b.elimination?.toList := by
  unfold elimination? tick turn
  split
  · exact toList_advance_eliminations
  · simp

omit hr in
theorem size_add_alive_advance (hw : b.warriors[b.cursor]? = some w) (ha : w.alive = true) :
    (b.advance w).2.eliminations.size + (b.advance w).2.warriors.countP Warrior.alive =
      b.eliminations.size + b.warriors.countP Warrior.alive := by
  obtain ⟨hlt, rfl⟩ := List.getElem?_eq_some_iff.mp hw
  have hpos : 0 < b.warriors.countP Warrior.alive :=
    List.countP_pos_iff.mpr ⟨_, List.getElem_mem hlt, ha⟩
  rw [← Array.length_toList, toList_advance_eliminations, List.length_append, Array.length_toList,
    advance_warriors, List.countP_set hlt, if_pos ha, advance_fst]
  cases hleft : (Warrior.act b.warriors[b.cursor] b.core).2.1.alive with
  | true =>
    simp only [Turn.elimination?, Bool.not_true, Bool.false_eq_true, if_false, if_true,
      Option.toList_none, List.length_nil]
    omega
  | false =>
    simp only [Turn.elimination?, Bool.not_false, Bool.false_eq_true, if_false, if_true,
      Option.toList_some, List.length_singleton]
    omega

end Tick

/-! ### Any number of ticks -/

section Run

variable {b : Battle} (hr : b.Ready) {i : Nat}

/-- **The record is what the ticks add,** in order. -/
theorem eliminations_ticks (b : Battle) (n : Nat) : (b.ticks n).eliminations.toList =
    b.eliminations.toList ++ (List.range n).filterMap fun k => (b.ticks k).elimination? := by
  induction n with
  | zero => simp [ticks]
  | succ n ih =>
    rw [ticks_succ, tick_eliminations, ih, List.range_succ, List.filterMap_append,
      List.append_assoc]
    cases h : (b.ticks n).elimination? <;> simp [h]

include hr

theorem size_add_alive_ticks (n : Nat) :
    (b.ticks n).eliminations.size + (b.ticks n).warriors.countP Warrior.alive =
      b.eliminations.size + b.warriors.countP Warrior.alive :=
  (ticks_induction (P := fun c => c.eliminations.size + c.warriors.countP Warrior.alive =
      b.eliminations.size + b.warriors.countP Warrior.alive) hr rfl
    (fun _ _ _ hw ha hc => (size_add_alive_advance hw ha).trans hc) n).2

/-- A warrior without processes has no turn and stays as it is. -/
theorem idle_of_le {m n : Nat} (hmn : m ≤ n) {w : Warrior} (hw : (b.ticks m).warriors[i]? = some w)
    (hq : w.queue.toList = []) :
    (b.ticks n).warriors[i]? = some w ∧ (b.ticks n).actor? ≠ some i := by
  have hidle (n : Nat) (hn : (b.ticks n).warriors[i]? = some w) :
      (b.ticks n).actor? ≠ some i ∧ (b.ticks n).tick.warriors[i]? = some w := by
    rcases tick_warrior (ready_ticks hr n) hn with ⟨hactor, -, ht⟩ | ⟨pc, rest, -, hcons, -⟩
    · exact ⟨hactor, ht⟩
    · rw [hq] at hcons
      cases hcons
  have hsame : (b.ticks n).warriors[i]? = some w := by
    obtain ⟨d, rfl⟩ := Nat.exists_eq_add_of_le hmn
    induction d with
    | zero => exact hw
    | succ d ih =>
      rw [← Nat.add_assoc, ticks_succ]
      exact (hidle (m + d) (ih (Nat.le_add_right m d))).2
  exact ⟨hsame, (hidle n hsame).1⟩

theorem Falls.dead {k n : Nat} (h : (b.ticks k).Falls i) (hkn : k < n) :
    aliveAt (b.ticks n).warriors i = false := by
  have hnext := ((falls_iff (ready_ticks hr k)).mp h).2
  rw [← ticks_succ] at hnext
  refine Bool.eq_false_iff.mpr fun halive => ?_
  rw [aliveAt_of_le hr hkn halive] at hnext
  cases hnext

theorem Falls.unique {k m : Nat} (hk : (b.ticks k).Falls i) (hm : (b.ticks m).Falls i) : k = m := by
  have hlast {k m : Nat} (hk : (b.ticks k).Falls i) (hm : (b.ticks m).Falls i) : ¬ k < m := by
    intro hkm
    have halive := ((falls_iff (ready_ticks hr m)).mp hm).1
    rw [hk.dead hr hkm] at halive
    cases halive
  exact Nat.le_antisymm (Nat.le_of_not_lt (hlast hm hk)) (Nat.le_of_not_lt (hlast hk hm))

theorem exists_falls (halive : aliveAt b.warriors i = true) : ∀ n : Nat,
    aliveAt (b.ticks n).warriors i = false → ∃ k < n, (b.ticks k).Falls i
  | 0, hdead => by
    rw [show b.ticks 0 = b from rfl, halive] at hdead
    cases hdead
  | n + 1, hdead => by
    cases hn : aliveAt (b.ticks n).warriors i with
    | true =>
      refine ⟨n, Nat.lt_succ_self n, (falls_iff (ready_ticks hr n)).mpr ⟨hn, ?_⟩⟩
      rw [← ticks_succ]
      exact hdead
    | false =>
      obtain ⟨k, hk, hfalls⟩ := exists_falls halive n hn
      exact ⟨k, Nat.lt_succ_of_lt hk, hfalls⟩

end Run

/-! ### The numbers of the ticks -/

section Cycles

variable {core : Core} {warriors : List Warrior} {limit : Option UInt64} {n : Nat}
  (hn : (ofParts core warriors limit).executed n < 2 ^ 64)

include hn

/-- A tick in front of the verdict is one of the executed ones. -/
theorem toNat_cycle {k : Nat} (hk : k < n)
    (hv : ((ofParts core warriors limit).ticks k).verdict = none) :
    k < (ofParts core warriors limit).executed n ∧
      (((ofParts core warriors limit).ticks k).cycles + 1).toNat = k + 1 := by
  have hr := ready_ofParts core warriors limit
  have hnext : (ofParts core warriors limit).executed (k + 1) = k + 1 := by
    rw [executed_succ, executed_eq hr k hv, if_pos ((ready_ticks hr k).executes_iff.mpr hv)]
  have hle : (ofParts core warriors limit).executed (k + 1) ≤
      (ofParts core warriors limit).executed n :=
    (List.range_sublist.mpr hk).countP_le
  exact ⟨by omega, toNat_succ_cycles (by omega) hv⟩

theorem elimination?_cycle {k : Nat} (hk : k < n) {e : Elimination}
    (he : ((ofParts core warriors limit).ticks k).elimination? = some e) :
    k < (ofParts core warriors limit).executed n ∧ e.cycle.toNat = k + 1 := by
  have hr := ready_ticks (ready_ofParts core warriors limit) k
  obtain ⟨i, w, hf, -, rfl⟩ := (elimination?_eq_some hr).mp he
  exact toNat_cycle hn hk (hf.actor hr).1

omit hn in
theorem mem_eliminations {e : Elimination} :
    e ∈ ((ofParts core warriors limit).ticks n).eliminations ↔
      ∃ k < n, ((ofParts core warriors limit).ticks k).elimination? = some e := by
  rw [← Array.mem_toList_iff, eliminations_ticks]
  simp [ofParts]

end Cycles

/-- What the record of a battle says after its first `n` ticks. -/
structure Recorded (b : Battle) (n : Nat) : Prop where
  /-- Entries come in the order of their cycles, one a cycle. -/
  increasing : (b.ticks n).eliminations.toList.Pairwise fun e f => e.cycle < f.cycle
  /-- Their cycles are among those that passed. -/
  passed : ∀ e ∈ (b.ticks n).eliminations, 1 ≤ e.cycle ∧ e.cycle ≤ (b.ticks n).cycles
  /-- There is one for each warrior that was alive and is not. -/
  count : (b.ticks n).eliminations.size =
    b.warriors.countP Warrior.alive - (b.ticks n).warriors.countP Warrior.alive
  /-- Nobody comes to life. -/
  alive_le : (b.ticks n).warriors.countP Warrior.alive ≤ b.warriors.countP Warrior.alive
  /-- A warrior without processes stays so, and none of the ticks that follow is its turn. -/
  permanent : ∀ i w, (b.ticks n).warriors[i]? = some w → w.queue.toList = [] → ∀ m, n ≤ m →
    (b.ticks m).warriors[i]? = some w ∧ (b.ticks m).actor? ≠ some i

theorem recorded_ofParts {core : Core} {warriors : List Warrior} {limit : Option UInt64} {n : Nat}
    (hn : (ofParts core warriors limit).executed n < 2 ^ 64) :
    (ofParts core warriors limit).Recorded n := by
  have hr := ready_ofParts core warriors limit
  have hcount := size_add_alive_ticks hr n
  rw [show (ofParts core warriors limit).eliminations.size = 0 from rfl] at hcount
  refine ⟨?_, fun e he => ?_, by omega, by omega, fun i w hw hq m hm => idle_of_le hr hm hw hq⟩
  · rw [eliminations_ticks]
    show ([] ++ _).Pairwise _
    rw [List.nil_append, List.pairwise_filterMap]
    refine List.pairwise_lt_range.imp_of_mem fun {k m} hk hm hkm e he f hf => ?_
    have hek := (elimination?_cycle hn (List.mem_range.mp hk) he).2
    have hfm := (elimination?_cycle hn (List.mem_range.mp hm) hf).2
    rw [UInt64.lt_iff_toNat_lt]
    omega
  · obtain ⟨k, hk, hadds⟩ := mem_eliminations.mp he
    have hcycle := elimination?_cycle hn hk hadds
    rw [UInt64.le_iff_toNat_le, UInt64.le_iff_toNat_le, toNat_ticks_cycles hn, hcycle.2]
    exact ⟨Nat.le_add_left 1 k, hcycle.1⟩

/-! ### Battles of loaded programs -/

/-- What the record says of the warriors `0` to `count - 1` after the first `n` ticks, when
their ids are their positions. -/
structure Accounted (b : Battle) (n count : Nat) : Prop where
  /-- Every entry is about one of them, -/
  named : ∀ e ∈ (b.ticks n).eliminations, e.warrior.toNat < count
  /-- and no two entries are about the same one. -/
  once : ((b.ticks n).eliminations.toList.map Elimination.warrior).Nodup
  /-- A warrior is in the record when it has no process, -/
  present : ∀ i < count, (∃ c, ⟨UInt64.ofNat i, c⟩ ∈ (b.ticks n).eliminations) ↔
    ∃ w, (b.ticks n).warriors[i]? = some w ∧ w.queue.toList = []
  /-- with the number of the tick in which it ran a `DAT` as its last process. -/
  tick : ∀ i < count, ∀ c, ⟨UInt64.ofNat i, c⟩ ∈ (b.ticks n).eliminations ↔
    ∃ k < n, c.toNat = k + 1 ∧ (b.ticks k).Falls i

section Loaded

variable {programs : List Program} {s : Settings} {b : Battle} {n : Nat}
  (hlen : programs.length ≤ 2 ^ 64) (h : Battle.load programs s = .ok b)
  (hn : b.executed n < 2 ^ 64)

include h in
theorem aliveAt_of_load {i : Nat} (hi : i < programs.length) : aliveAt b.warriors i = true := by
  obtain ⟨arena, ha, rfl⟩ := load_eq_ok h
  obtain ⟨hsound, hcontenders⟩ := sound_ofArena ha s.cycleLimit
  have hi' : i < arena.warriors.length := lt_of_lt_of_eq hi hsound.length.symm
  have hall : ∀ w ∈ arena.warriors, w.alive = true :=
    List.countP_eq_length.mp (hcontenders.trans hsound.length.symm)
  exact aliveAt_iff.mpr ⟨_, List.getElem?_eq_getElem hi', hall _ (List.getElem_mem hi')⟩

include h hn in
theorem exists_falls_of_mem {e : Elimination} (he : e ∈ (b.ticks n).eliminations) :
    ∃ i < programs.length, ∃ k < n, e.warrior = UInt64.ofNat i ∧ e.cycle.toNat = k + 1 ∧
      (b.ticks k).Falls i := by
  obtain ⟨arena, -, rfl⟩ := load_eq_ok h
  obtain ⟨k, hk, hadds⟩ := mem_eliminations.mp he
  have hcycle := (elimination?_cycle hn hk hadds).2
  have hr := ready_ticks (load_ready h) k
  obtain ⟨i, w, hf, hw, rfl⟩ := (elimination?_eq_some hr).mp hadds
  have hsound := sound_ticks h k
  have hi := lt_of_lt_of_eq (List.getElem?_eq_some_iff.mp hw).1 hsound.length
  exact ⟨i, hi, k, hk, hsound.ids i w hw, hcycle, hf⟩

include h hn in
theorem mem_of_falls {i k : Nat} (hk : k < n) (hf : (b.ticks k).Falls i) {c : UInt64}
    (hc : c.toNat = k + 1) : ⟨UInt64.ofNat i, c⟩ ∈ (b.ticks n).eliminations := by
  have hr := ready_ticks (load_ready h) k
  obtain ⟨w, -, hw, -⟩ := id hf
  have hid := (sound_ticks h k).ids i w hw
  obtain ⟨arena, -, rfl⟩ := load_eq_ok h
  refine mem_eliminations.mpr ⟨k, hk, (elimination?_eq_some hr).mpr ⟨i, w, hf, hw, ?_⟩⟩
  have hcycle := (toNat_cycle hn hk (hf.actor hr).1).2
  rw [hid, ← UInt64.toNat_inj.mp (hc.trans hcycle.symm)]

include hlen h hn in
theorem accounted_load : b.Accounted n programs.length := by
  have hr := load_ready h
  have hinj {i j : Nat} (hi : i < programs.length) (hj : j < programs.length)
      (he : UInt64.ofNat i = UInt64.ofNat j) : i = j := by
    have hword {i : Nat} (hi : i < programs.length) : (UInt64.ofNat i).toNat = i :=
      UInt64.toNat_ofNat_of_lt' (Nat.lt_of_lt_of_le hi hlen)
    rw [← hword hi, he, hword hj]
  have htick : ∀ i < programs.length, ∀ c, ⟨UInt64.ofNat i, c⟩ ∈ (b.ticks n).eliminations ↔
      ∃ k < n, c.toNat = k + 1 ∧ (b.ticks k).Falls i := by
    intro i hi c
    constructor
    · intro he
      obtain ⟨j, hj, k, hk, hid, hc, hf⟩ := exists_falls_of_mem h hn he
      obtain rfl := hinj hi hj hid
      exact ⟨k, hk, hc, hf⟩
    · rintro ⟨k, hk, hc, hf⟩
      exact mem_of_falls h hn hk hf hc
  refine ⟨fun e he => ?_, ?_, fun i hi => ?_, htick⟩
  · obtain ⟨i, hi, k, -, hid, -⟩ := exists_falls_of_mem h hn he
    rw [hid, UInt64.toNat_ofNat_of_lt' (Nat.lt_of_lt_of_le hi hlen)]
    exact hi
  · -- entries of one warrior would be of one tick, and ticks differ
    obtain ⟨arena, -, rfl⟩ := load_eq_ok h
    refine List.pairwise_map.mpr ((recorded_ofParts hn).increasing.imp_of_mem ?_)
    intro e f he hf hlt heq
    obtain ⟨i, hi, k, -, hid, hc, hfalls⟩ := exists_falls_of_mem h hn (Array.mem_toList_iff.mp he)
    obtain ⟨j, hj, m, -, hid', hc', hfalls'⟩ := exists_falls_of_mem h hn (Array.mem_toList_iff.mp hf)
    obtain rfl := hinj hi hj (hid.symm.trans (heq.trans hid'))
    obtain rfl := hfalls.unique hr hfalls'
    rw [UInt64.lt_iff_toNat_lt] at hlt
    omega
  · have hsound := sound_ticks h n
    have hw := List.getElem?_eq_getElem (lt_of_lt_of_eq hi hsound.length.symm)
    have hdead : (∃ w, (b.ticks n).warriors[i]? = some w ∧ w.queue.toList = []) ↔
        aliveAt (b.ticks n).warriors i = false := by
      rw [aliveAt_eq hw, Warrior.alive_eq, hw]
      simp
    rw [hdead]
    constructor
    · rintro ⟨c, he⟩
      obtain ⟨k, hk, -, hf⟩ := (htick i hi c).mp he
      exact hf.dead hr hk
    · intro hd
      obtain ⟨k, hk, hf⟩ := exists_falls hr (aliveAt_of_load h hi) n hd
      have hv := (hf.actor (ready_ticks hr k)).1
      refine ⟨(b.ticks k).cycles + 1, mem_of_falls h hn hk hf ?_⟩
      obtain ⟨arena, -, rfl⟩ := load_eq_ok h
      exact (toNat_cycle hn hk hv).2

end Loaded

/-- **The record of eliminations is exact, and an elimination is final.** The ids of loaded
programs tell them apart while there are no more of them than words. -/
theorem eliminations_exact :
    (∀ (core : Core) (warriors : List Warrior) (limit : Option UInt64) (n : Nat),
      (ofParts core warriors limit).executed n < 2 ^ 64 →
      (ofParts core warriors limit).Recorded n) ∧
    (∀ (programs : List Program) (s : Settings) (b : Battle) (n : Nat),
      programs.length ≤ 2 ^ 64 → Battle.load programs s = .ok b → b.executed n < 2 ^ 64 →
      b.Accounted n programs.length) := by
  constructor
  · intro core warriors limit n hn
    exact recorded_ofParts hn
  · intro programs s b n hlen h hn
    exact accounted_load hlen h hn

/-- A program whose only process ends at once. -/
def quitter : Program := [{ mnemonic := .op .dat }]

/-- The second of three warriors falls in the second tick; the battle goes on. -/
theorem eliminations_exact_quitter : ∃ b,
    Battle.load [imp, quitter, imp] { coreSize := 12 } = .ok b ∧ (b.ticks 5).verdict = none ∧
      (b.ticks 5).eliminations = #[⟨1, 2⟩] ∧ b.Recorded 5 ∧ b.Accounted 5 3 ∧
      (b.ticks 1).Falls 1 := by
  obtain ⟨b, hload, hopen, hrecord⟩ : ∃ b,
      Battle.load [imp, quitter, imp] { coreSize := 12 } = .ok b ∧ (b.ticks 5).verdict = none ∧
        (b.ticks 5).eliminations = #[⟨1, 2⟩] := ⟨_, rfl, by decide +kernel, by decide +kernel⟩
  have hfive : b.executed 5 < 2 ^ 64 := by
    rw [executed_eq (load_ready hload) 5 hopen]
    decide
  obtain ⟨hparts, hloaded⟩ := eliminations_exact
  have haccount : b.Accounted 5 3 := hloaded _ _ b 5 (by decide) hload hfive
  have hentry : ⟨UInt64.ofNat 1, 2⟩ ∈ (b.ticks 5).eliminations := by
    rw [hrecord]
    simp
  obtain ⟨k, -, hk, hfalls⟩ := (haccount.tick 1 (by decide) 2).mp hentry
  obtain rfl : k = 1 := by simpa using hk.symm
  refine ⟨b, hload, hopen, hrecord, ?_, haccount, hfalls⟩
  obtain ⟨arena, -, rfl⟩ := load_eq_ok hload
  exact hparts _ _ _ 5 hfive

end Battle
end CoreWar
