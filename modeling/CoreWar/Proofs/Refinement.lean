/-
# Battles follow the ideal machine

A match of the ideal machine, put into words, is a battle, and the words of
its next state are that battle's next state as long as every field has room
(`Ideal.tick_word`). So a battle goes through the states of the ideal machine,
and while the fields are small enough to be read back it is in exactly that
state (`Ideal.Refines`): the wrapping of words is never seen.

Counting is the other place where words could be seen. With a limit the match
is over before the counter goes round (`Ideal.Machine.Clocked`); without one
nothing depends on the counter, which then shows the number of turns modulo
`2 ^ 64`.

Key definitions: `Ideal.Machine.word`, `Ideal.Machine.ofParts`,
`Ideal.Machine.Clocked`, `Ideal.Refines`.
Key theorems: `Ideal.tick_word`, `Ideal.ticks_word`, `Ideal.word_ofParts`,
`Ideal.ofParts_refines`.
-/
import CoreWar.Proofs.Rounds
import CoreWar.Proofs.Words

namespace CoreWar
namespace Ideal

variable {N : Nat}

/-! ### Matches in words -/

/-- A warrior with its program counters as addresses. -/
def Contender.word (w : Contender N) : Warrior := ⟨w.id, .ofList (w.queue.map address)⟩

def Incident.word (i : Incident N) : CoreWar.Incident :=
  ⟨UInt64.ofNat i.cycle, i.warrior, address i.pc, i.fault⟩

/-- An elimination, with its cycle as a word. -/
def eliminationWord (e : UInt64 × Nat) : Elimination := ⟨e.1, UInt64.ofNat e.2⟩

/-- A match as a battle. -/
def Machine.word (m : Machine N) : Battle where
  core := coreOf m.memory
  warriors := m.warriors.map Contender.word
  cursor := m.cursor
  cycles := UInt64.ofNat m.cycles
  limit := m.limit.map UInt64.ofNat
  contenders := m.contenders
  verdict := m.outcome
  eliminations := (m.eliminations.map eliminationWord).toArray
  incidents := (m.incidents.map Incident.word).toArray

@[simp] theorem alive_word (w : Contender N) : w.word.alive = w.alive := by
  rw [Warrior.alive_eq, Contender.word, ProcessQueue.toList_ofList, Contender.alive]
  cases w.queue <;> rfl

theorem alive_comp_word : Warrior.alive ∘ Contender.word (N := N) = Contender.alive :=
  funext alive_word

@[simp] theorem survivors_word (ws : List (Contender N)) :
    Battle.survivors (ws.map Contender.word) = living ws := by
  rw [Battle.survivors, List.filter_map, alive_comp_word, List.map_map]
  rfl

theorem countP_word (ws : List (Contender N)) :
    (ws.map Contender.word).countP Warrior.alive = (living ws).length := by
  rw [← Battle.length_survivors, survivors_word]

/-- Going round a list of positions is rotating it. -/
theorem map_add_mod_range (n c : Nat) :
    (List.range n).map (fun k => (c + k) % n) = (List.range n).rotate c := by
  refine List.ext_getElem (by simp) fun k hk hk' => ?_
  simp [List.getElem_rotate, Nat.add_comm]

theorem nextAlive_word (ws : List (Contender N)) (cursor : Nat) :
    Battle.nextAlive (ws.map Contender.word) cursor = following ws cursor := by
  have halive : (fun i : Nat => (ws.map Contender.word)[i]?.any Warrior.alive) =
      fun i => ws[i]?.any Contender.alive := by
    funext i
    rw [List.getElem?_map]
    cases ws[i]? <;> simp
  simp only [Battle.nextAlive, following, List.length_map, map_add_mod_range, halive]

/-! ### The clock -/

/-- A limit is a word, and an open match has not reached it unless it has just begun. -/
def Machine.Clocked (m : Machine N) : Prop :=
  ∀ l ∈ m.limit, l < 2 ^ 64 ∧ (m.outcome = none → m.cycles = 0 ∨ m.cycles < l)

/-- The outcome is the verdict, when a limit and the count can be told apart. -/
theorem judge_word (contenders : Nat) {limit : Option Nat} {cycles : Nat}
    (hl : ∀ l ∈ limit, l < 2 ^ 64 ∧ cycles < 2 ^ 64) (ws : List (Contender N)) :
    Battle.judge contenders (limit.map UInt64.ofNat) (UInt64.ofNat cycles)
        (ws.map Contender.word) =
      decided contenders limit cycles (living ws) := by
  have hlimit : (limit.map UInt64.ofNat).any (· ≤ UInt64.ofNat cycles) =
      decide (∃ l ∈ limit, l ≤ cycles) := by
    cases limit with
    | none => simp
    | some l =>
      obtain ⟨h1, h2⟩ := hl l rfl
      simp [UInt64.le_iff_toNat_le, UInt64.toNat_ofNat_of_lt' h1, UInt64.toNat_ofNat_of_lt' h2]
  unfold Battle.judge decided
  rw [survivors_word]
  cases living ws with
  | nil => rfl
  | cons id others =>
    cases others with
    | nil => by_cases hc : 1 < contenders <;> simp [hlimit, hc, Nat.succ_le_iff]
    | cons id' others => simp [hlimit]

theorem decided_eq_none {contenders cycles : Nat} {limit : Option Nat} {ids : List UInt64}
    (h : decided contenders limit cycles ids = none) : ∀ l ∈ limit, cycles < l := by
  intro l hl
  unfold decided at h
  split at h
  · cases h
  split at h
  · cases h
  split at h
  · cases h
  rename_i hne
  exact Nat.lt_of_not_le fun hle => hne ⟨l, hl, hle⟩

theorem Machine.Clocked.play {m : Machine N} (h : m.Clocked) (id : UInt64) (pc : ZMod N)
    (rest : List (ZMod N)) : (m.play id pc rest).Clocked :=
  fun l hl => ⟨(h l hl).1, fun hv => .inr (decided_eq_none hv l hl)⟩

/-! ### One turn -/

section Turn

variable {m : Machine N}

theorem succ_cycles_word : m.word.cycles + 1 = UInt64.ofNat (m.cycles + 1) :=
  (UInt64.ofNat_add ..).symm

theorem Machine.tick_of_over {v : Verdict} (h : m.outcome = some v) : m.tick = m := by
  simp [tick, h]

theorem Machine.ticks_of_over {v : Verdict} (h : m.outcome = some v) : ∀ n : Nat, m.ticks n = m
  | 0 => rfl
  | n + 1 => by rw [ticks, ticks_of_over h n, tick_of_over h]

/-- An open match that is ready has a process to run. -/
theorem Machine.exists_process (hready : m.word.Ready) (hv : m.outcome = none) :
    ∃ id pc rest, m.warriors[m.cursor]? = some ⟨id, pc :: rest⟩ := by
  obtain ⟨w, hw, halive⟩ := Battle.aliveAt_iff.mp (hready hv)
  obtain ⟨⟨id, queue⟩, hc, rfl⟩ := Option.map_eq_some_iff.mp ((List.getElem?_map ..).symm.trans hw)
  cases queue with
  | nil => simp [Contender.alive] at halive
  | cons pc rest => exact ⟨id, pc, rest, hc⟩

variable [NeZero N] (hN : N ≤ 2 ^ 62)

section Process

variable (hroom : Room 3 m.memory) (id : UInt64) (pc : ZMod N) (rest : List (ZMod N))

include hN hroom

/-- A warrior with a process runs it. -/
theorem act_word : (Contender.word ⟨id, pc :: rest⟩).act m.word.core =
    (some ((coreOf m.memory).step (address pc)).1,
      Contender.word ⟨id, rest ++ (execute m.memory pc).next⟩,
      coreOf (execute m.memory pc).memory) := by
  obtain ⟨-, hnext, -, hmem⟩ := step_coreOf hN hroom pc
  rw [Contender.word, Contender.word, List.map_append, ← hnext, ← hmem]
  exact Warrior.act_of_cons (by simp) (coreOf m.memory)

theorem elimination_word :
    (m.word.advance (Contender.word ⟨id, pc :: rest⟩)).1.elimination? =
      if rest ++ (execute m.memory pc).next = [] then
        some (eliminationWord (id, m.cycles + 1)) else none := by
  rw [Battle.advance_fst, act_word hN hroom, succ_cycles_word]
  simp only [Turn.elimination?, alive_word, Contender.alive, Bool.not_not, List.isEmpty_iff]
  rfl

theorem incident_word :
    (m.word.advance (Contender.word ⟨id, pc :: rest⟩)).1.incident? =
      (execute m.memory pc).fault.map fun slot =>
        (⟨m.cycles + 1, id, pc, (m.memory pc).opcode, slot⟩ : Incident N).word := by
  obtain ⟨hpc, -, hfault, -⟩ := step_coreOf hN hroom pc
  rw [Battle.advance_fst, act_word hN hroom, succ_cycles_word]
  simp only [Turn.incident?, Option.bind_some, hfault, hpc, Option.map_map]
  rfl

/-- The turn of a warrior with a process. -/
theorem advance_word (hclock : m.Clocked) (hv : m.outcome = none) :
    (m.word.advance (Contender.word ⟨id, pc :: rest⟩)).2 = (m.play id pc rest).word := by
  have hact := act_word hN hroom id pc rest
  have hwarriors : (m.word.advance (Contender.word ⟨id, pc :: rest⟩)).2.warriors =
      (m.play id pc rest).word.warriors := by
    rw [Battle.advance_warriors, hact]
    exact (List.map_set ..).symm
  have hverdict : (m.word.advance (Contender.word ⟨id, pc :: rest⟩)).2.verdict =
      (m.play id pc rest).outcome := by
    rw [Battle.advance_verdict, hwarriors, succ_cycles_word]
    refine judge_word m.contenders (fun l hl => ?_) (m.play id pc rest).warriors
    obtain ⟨h64, hopen⟩ := hclock l hl
    exact ⟨h64, by have := hopen hv; omega⟩
  apply Battle.ext
  · rw [Battle.advance_core, hact]
    rfl
  · exact hwarriors
  · rw [Battle.advance_cursor, hverdict, hwarriors]
    show (if _ then m.cursor else Battle.nextAlive _ m.cursor) =
      if (m.play id pc rest).outcome = none then _ else _
    cases (m.play id pc rest).outcome with
    | none => exact nextAlive_word _ _
    | some v => rfl
  · exact succ_cycles_word
  · rfl
  · rfl
  · exact hverdict
  · apply Array.toList_inj.mp
    rw [Battle.toList_advance_eliminations, elimination_word hN hroom]
    simp only [Machine.word, Machine.play, List.map_append]
    split <;> rfl
  · apply Array.toList_inj.mp
    rw [Battle.toList_advance_incidents, incident_word hN hroom]
    simp only [Machine.word, Machine.play, List.map_append]
    cases (execute m.memory pc).fault <;> rfl

end Process

include hN in
/-- **One turn.** The words of the next state are the battle's next state. -/
theorem tick_word (hroom : Room 3 m.memory) (hclock : m.Clocked) (hready : m.word.Ready) :
    m.word.tick = m.tick.word ∧ m.tick.Clocked := by
  cases hv : m.outcome with
  | some v =>
    rw [Battle.tick_of_over hv, Machine.tick_of_over hv]
    exact ⟨rfl, hclock⟩
  | none =>
    obtain ⟨id, pc, rest, hw⟩ := Machine.exists_process hready hv
    have htick : m.tick = m.play id pc rest := by simp [Machine.tick, hv, hw]
    have hword : m.word.warriors[m.word.cursor]? = some (Contender.word ⟨id, pc :: rest⟩) := by
      show (m.warriors.map Contender.word)[m.cursor]? = _
      rw [List.getElem?_map, hw]
      rfl
    rw [Battle.tick_of_open hv hword, advance_word hN hroom id pc rest hclock hv, htick]
    exact ⟨rfl, hclock.play id pc rest⟩

end Turn

/-! ### Any number of turns -/

theorem ticks_word [NeZero N] (hN : N ≤ 2 ^ 62) {m : Machine N} (hclock : m.Clocked)
    (hready : m.word.Ready) (n : Nat) (hroom : ∀ k < n, Room 3 (m.ticks k).memory) :
    m.word.ticks n = (m.ticks n).word ∧ (m.ticks n).Clocked := by
  induction n with
  | zero => exact ⟨rfl, hclock⟩
  | succ n ih =>
    obtain ⟨hn, hcn⟩ := ih fun k hk => hroom k (Nat.lt_succ_of_lt hk)
    have hrn : (m.ticks n).word.Ready := hn ▸ Battle.ready_ticks hready n
    rw [Battle.ticks_succ, hn]
    exact tick_word hN (hroom n (Nat.lt_succ_self n)) hcn hrn

/-! ### The match that begins with given parts -/

/-- A cell with its fields as integers. -/
def cellOf (i : Instruction) : Cell :=
  ⟨i.opcode, i.aMode, i.aField.toInt, i.bMode, i.bField.toInt⟩

/-- The memory in a core. -/
def memoryOf (N : Nat) (core : Core) : Memory N := fun x => cellOf (core.cells.getD x.val .neutral)

/-- A warrior with its program counters modulo `N`. -/
def contenderOf (N : Nat) (w : Warrior) : Contender N :=
  ⟨w.id, w.queue.toList.map fun pc => (pc.toNat : ZMod N)⟩

/-- The match that begins with these parts. -/
def Machine.ofParts (N : Nat) (core : Core) (warriors : List Warrior) (limit : Option UInt64) :
    Machine N :=
  start (memoryOf N core) (warriors.map (contenderOf N)) (limit.map UInt64.toNat)

theorem map_map_eq_self {α β : Type} {f : α → β} {g : β → α} {l : List α}
    (h : ∀ x ∈ l, g (f x) = x) : (l.map f).map g = l := by
  calc (l.map f).map g = l.map (g ∘ f) := List.map_map
    _ = l.map id := List.map_congr_left h
    _ = l := List.map_id l

@[simp] theorem word_cellOf (i : Instruction) : (cellOf i).word = i := by
  simp [cellOf, Cell.word]

theorem cellOf_word {c : Cell} (ha : -2 ^ 63 ≤ c.aField ∧ c.aField < 2 ^ 63)
    (hb : -2 ^ 63 ≤ c.bField ∧ c.bField < 2 ^ 63) : cellOf c.word = c := by
  simp only [cellOf, Cell.word, Int64.toInt_ofInt_of_le ha.1 ha.2, Int64.toInt_ofInt_of_le hb.1 hb.2]

theorem address_natCast {pc : Address} (h : pc.toNat < N) : address (pc.toNat : ZMod N) = pc := by
  rw [address, ZMod.val_cast_of_lt h, UInt64.ofNat_toNat]

theorem coreOf_memoryOf {core : Core} (h : core.size = N) : coreOf (memoryOf N core) = core := by
  refine congrArg Core.mk (Array.ext (by simp [← h, Core.size]) fun k hk hk' => ?_)
  have hkN : k < N := by simpa using hk
  simp [memoryOf, Nat.mod_eq_of_lt hkN, Array.getD_eq_getD_getElem?, hk']

theorem word_contenderOf {w : Warrior} (h : ∀ pc ∈ w.queue.toList, pc.toNat < N) :
    (contenderOf N w).word = w := by
  have hq : (w.queue.toList.map fun pc => (pc.toNat : ZMod N)).map address = w.queue.toList :=
    map_map_eq_self fun pc hpc => address_natCast (h pc hpc)
  rw [contenderOf, Contender.word, hq, ProcessQueue.ofList_toList]

/-- A match begins as the battle does. -/
theorem word_ofParts {core : Core} (hsize : core.size = N) {warriors : List Warrior}
    (hpcs : ∀ w ∈ warriors, ∀ pc ∈ w.queue.toList, pc.toNat < N) (limit : Option UInt64) :
    (Machine.ofParts N core warriors limit).word = Battle.ofParts core warriors limit := by
  have hwarriors : (warriors.map (contenderOf N)).map Contender.word = warriors :=
    map_map_eq_self fun w hw => word_contenderOf (hpcs w hw)
  have hliving := countP_word (warriors.map (contenderOf N))
  rw [hwarriors] at hliving
  apply Battle.ext
  · exact coreOf_memoryOf hsize
  · exact hwarriors
  · show ((warriors.map (contenderOf N)).findIdx? Contender.alive).getD 0 =
      (warriors.findIdx? Warrior.alive).getD 0
    conv_rhs => rw [← hwarriors, List.findIdx?_map, alive_comp_word]
  · rfl
  · show (limit.map UInt64.toNat).map UInt64.ofNat = limit
    cases limit <;> simp
  · exact hliving.symm
  · show (if living (warriors.map (contenderOf N)) = [] then some Verdict.extinct else none) =
      if warriors.countP Warrior.alive = 0 then some .extinct else none
    simp only [hliving, List.length_eq_zero_iff]
  · rfl
  · rfl

theorem clocked_ofParts (core : Core) (warriors : List Warrior) (limit : Option UInt64) :
    (Machine.ofParts N core warriors limit).Clocked := by
  intro l hl
  obtain ⟨l, -, rfl⟩ := Option.mem_map.mp hl
  exact ⟨l.toNat_lt, fun _ => .inl rfl⟩

/-! ### Battles in the state of a match -/

/-- The battle `b` is in the state `m`. -/
structure Refines (b : Battle) (m : Machine N) : Prop where
  size : b.core.size = N
  /-- Opcodes, modes and fields agree in every cell. -/
  memory : memoryOf N b.core = m.memory
  /-- So do the ids and the queues, in order. -/
  warriors : b.warriors.map (contenderOf N) = m.warriors
  pcs_lt : ∀ w ∈ b.warriors, ∀ pc ∈ w.queue.toList, pc.toNat < N
  cursor : b.cursor = m.cursor
  /-- Without a limit the counter may go round. -/
  cycles : b.cycles = UInt64.ofNat m.cycles
  limit : b.limit.map UInt64.toNat = m.limit
  contenders : b.contenders = m.contenders
  outcome : b.verdict = m.outcome
  eliminations : b.eliminations.toList = m.eliminations.map eliminationWord
  incidents : b.incidents.toList = m.incidents.map Incident.word

theorem contenderOf_word [NeZero N] (hN : N < 2 ^ 64) (w : Contender N) :
    contenderOf N w.word = w := by
  have hq : (w.queue.map address).map (fun pc => (pc.toNat : ZMod N)) = w.queue :=
    map_map_eq_self fun x _ => by rw [toNat_address hN, ZMod.natCast_zmod_val]
  rw [Contender.word, contenderOf, ProcessQueue.toList_ofList, hq]

/-- Small fields can be read back from their words. -/
theorem word_refines [NeZero N] (hN : N ≤ 2 ^ 62) {m : Machine N} (hfields : m.FieldsWithin (2 ^ 62))
    (hclock : m.Clocked) : Refines m.word m where
  size := size_coreOf m.memory
  memory := by
    funext x
    have hread : (coreOf m.memory).cells.getD x.val .neutral = (m.memory x).word := by
      rw [← read_coreOf (by omega), Core.read, index_address (by omega)]
    obtain ⟨ha, hb⟩ := hfields x
    rw [abs_le] at ha hb
    show cellOf ((coreOf m.memory).cells.getD x.val .neutral) = m.memory x
    rw [hread, cellOf_word (by omega) (by omega)]
  warriors := map_map_eq_self fun w _ => contenderOf_word (by omega) w
  pcs_lt := by
    intro w hw pc hpc
    obtain ⟨c, -, rfl⟩ := List.mem_map.mp hw
    rw [Contender.word, ProcessQueue.toList_ofList] at hpc
    obtain ⟨x, -, rfl⟩ := List.mem_map.mp hpc
    rw [toNat_address (by omega)]
    exact x.val_lt
  cursor := rfl
  cycles := rfl
  limit := by
    show (m.limit.map UInt64.ofNat).map UInt64.toNat = m.limit
    cases hl : m.limit with
    | none => rfl
    | some l => exact congrArg some (UInt64.toNat_ofNat_of_lt' (hclock l hl).1)
  contenders := rfl
  outcome := rfl
  eliminations := rfl
  incidents := rfl

/-- Small fields leave room for an instruction. -/
theorem Machine.FieldsWithin.room (hN : N ≤ 2 ^ 62) {m : Machine N}
    (h : m.FieldsWithin (2 ^ 62)) : Room 3 m.memory := by
  intro x
  obtain ⟨ha, hb⟩ := h x
  rw [abs_le] at ha hb
  exact ⟨⟨by push_cast; omega, by omega⟩, ⟨by push_cast; omega, by omega⟩⟩

section Parts

variable {core : Core} (hsize : core.size = N) {warriors : List Warrior}
  (hpcs : ∀ w ∈ warriors, ∀ pc ∈ w.queue.toList, pc.toNat < N) (limit : Option UInt64)

include hsize hpcs

theorem refines_start : Refines (Battle.ofParts core warriors limit)
    (Machine.ofParts N core warriors limit) := by
  have hword := word_ofParts hsize hpcs limit
  exact
    { size := hsize
      memory := rfl
      warriors := rfl
      pcs_lt := hpcs
      cursor := (congrArg Battle.cursor hword).symm
      cycles := rfl
      limit := rfl
      contenders := (congrArg Battle.contenders hword).symm
      outcome := (congrArg Battle.verdict hword).symm
      eliminations := rfl
      incidents := rfl }

/-- **Battles refine the ideal machine.** While every field stays small, before the first
turn and after each of the first `n`, the battle is in the state of the ideal machine. -/
theorem ofParts_refines (hN : N ≤ 2 ^ 62) (n : Nat)
    (hfields : ∀ k ≤ n, ((Machine.ofParts N core warriors limit).ticks k).FieldsWithin (2 ^ 62)) :
    Refines ((Battle.ofParts core warriors limit).ticks n)
      ((Machine.ofParts N core warriors limit).ticks n) := by
  rcases Nat.eq_zero_or_pos N with rfl | hpos
  · -- without cells there is no process, and the match is over before it begins
    have hdead : warriors.countP Warrior.alive = 0 := by
      refine List.countP_eq_zero.mpr fun w hw halive => ?_
      obtain ⟨pc, hpc⟩ := List.exists_mem_of_ne_nil _ ((Warrior.alive_iff w).mp halive)
      exact Nat.not_lt_zero _ (hpcs w hw pc hpc)
    have hover : (Battle.ofParts core warriors limit).verdict = some .extinct := if_pos hdead
    have hstart := refines_start hsize hpcs limit
    rw [Battle.ticks_of_over hover, Machine.ticks_of_over (hstart.outcome.symm.trans hover)]
    exact hstart
  · have : NeZero N := ⟨Nat.ne_of_gt hpos⟩
    have hword := word_ofParts hsize hpcs limit
    obtain ⟨hn, hclock⟩ := ticks_word hN (clocked_ofParts core warriors limit)
      (hword ▸ Battle.ready_ofParts core warriors limit) n
      fun k hk => (hfields k (Nat.le_of_lt hk)).room hN
    rw [← hword, hn]
    exact word_refines hN (hfields n (Nat.le_refl n)) hclock

end Parts

/-- A bomber in the first two cells, its bomb, and its target. -/
def bombing : Core :=
  ⟨#[⟨.mov, .direct, 2, .autodecrement, 2⟩, ⟨.jmp, .direct, -1, .direct, 0⟩,
    ⟨.dat, .immediate, 0, .immediate, 2⟩, ⟨.jmp, .direct, 0, .direct, 0⟩]⟩

theorem ofParts_refines_bombing :
    (∀ k ≤ 3, ((Machine.ofParts 4 bombing [.start 0 0, .start 1 3] none).ticks k).FieldsWithin
        (2 ^ 62)) ∧
      ((Machine.ofParts 4 bombing [.start 0 0, .start 1 3] none).ticks 3).outcome =
        some (.winner 0) ∧
      Refines ((Battle.ofParts bombing [.start 0 0, .start 1 3] none).ticks 3)
        ((Machine.ofParts 4 bombing [.start 0 0, .start 1 3] none).ticks 3) := by
  have hfields : ∀ k ≤ 3, ((Machine.ofParts 4 bombing [.start 0 0, .start 1 3] none).ticks
      k).FieldsWithin (2 ^ 62) := by decide +kernel
  have hpcs : ∀ w ∈ [Warrior.start 0 0, .start 1 3], ∀ pc ∈ w.queue.toList, pc.toNat < 4 := by
    simp [Warrior.start]
  exact ⟨hfields, by decide +kernel, ofParts_refines rfl hpcs none (by decide) 3 hfields⟩

end Ideal
end CoreWar
