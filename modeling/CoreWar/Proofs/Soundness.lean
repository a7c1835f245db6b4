/-
# What holds throughout a battle

A battle of loaded programs keeps the shape it starts with: the core has its
size, the warriors are the programs in order, every process is in the ring,
and as long as there is no verdict a warrior that is alive has the turn and
enough warriors are alive (`Battle.Sound`). A turn keeps this because the
successors of a process are in the ring, only the warrior at the cursor
changes, and a turn without verdict leaves the cursor at a living warrior.

So every tick of an open battle runs exactly one instruction, the one at the
front of the queue of the warrior at the cursor, and uses no index that is
out of bounds (`Battle.InBounds`).

Key definitions: `Battle.Sound`, `Battle.InBounds`.
Key theorems: `Battle.sound_advance`, `Battle.sound_ofArena`,
`Battle.load_ticks_sound`.
-/
import CoreWar.Proofs.Arena
import CoreWar.Proofs.Rounds

namespace CoreWar

namespace Battle

/-- What every state of a battle of `count` programs in a ring of `size` cells has. -/
structure Sound (size count : Nat) (b : Battle) : Prop where
  /-- The core has all its cells. -/
  cells : b.core.size = size
  /-- There is a warrior for each program. -/
  length : b.warriors.length = count
  /-- The id of a warrior is its position. -/
  ids : ∀ i w, b.warriors[i]? = some w → w.id = UInt64.ofNat i
  /-- Every process is in the ring. -/
  inRing : ∀ w ∈ b.warriors, ∀ pc ∈ w.queue.toList, pc.toNat < size
  /-- An open battle is the turn of a warrior that has a process. -/
  cursor : b.verdict = none → ∃ w, b.warriors[b.cursor]? = some w ∧ w.queue.toList ≠ []
  /-- An open battle has a living warrior, and two of them if it was one of two or more. -/
  alive : b.verdict = none → 0 < b.warriors.countP Warrior.alive ∧
    (2 ≤ count → 2 ≤ b.warriors.countP Warrior.alive)

/-- No index that a turn uses is out of bounds: the cursor, the positions at which the
next warrior is looked for, and the index of any address in a core of this size. -/
structure InBounds (b : Battle) : Prop where
  cursor : b.cursor < b.warriors.length
  search : ∀ k, (b.cursor + k) % b.warriors.length < b.warriors.length
  cells : ∀ core : Core, core.size = b.core.size → ∀ a, core.index a < core.cells.size

theorem Ready.exists_process {b : Battle} (h : b.Ready) (hv : b.verdict = none) :
    ∃ w, b.warriors[b.cursor]? = some w ∧ w.queue.toList ≠ [] := by
  obtain ⟨w, hw, ha⟩ := aliveAt_iff.mp (h hv)
  exact ⟨w, hw, (Warrior.alive_iff w).mp ha⟩

theorem sound_advance {size count : Nat} (hs : 0 < size) (hs' : size < 2 ^ 64) {b : Battle}
    {w : Warrior} (hw : b.warriors[b.cursor]? = some w) (hc : b.contenders = count)
    (h : b.Sound size count) : (b.advance w).2.Sound size count where
  cells := by rw [advance_core, Warrior.size_act, h.cells]
  length := by rw [advance_warriors, List.length_set, h.length]
  ids := by
    intro i x hx
    rw [advance_warriors, List.getElem?_set] at hx
    split at hx
    · rename_i hi
      split at hx
      · cases hx
        rw [Warrior.act_id]
        exact h.ids i w (hi ▸ hw)
      · cases hx
    · exact h.ids i x hx
  inRing := by
    have hwr : ∀ pc ∈ w.queue.toList, pc.toNat < b.core.size := by
      rw [h.cells]
      exact h.inRing w (List.mem_of_getElem? hw)
    intro x hx
    rw [advance_warriors] at hx
    rcases List.mem_or_eq_of_mem_set hx with hx | rfl
    · exact h.inRing x hx
    · have := Warrior.act_queue_lt (by rw [h.cells]; exact hs) (by rw [h.cells]; exact hs') hwr
      rwa [h.cells] at this
  cursor := (ready_advance b w).exists_process
  alive := by
    intro hv
    obtain ⟨h1, h2, -⟩ := judge_eq_none_iff.mp (advance_verdict.symm.trans hv)
    rw [hc] at h2
    exact ⟨h1, h2⟩

theorem alive_start (id : UInt64) (pc : Address) : (Warrior.start id pc).alive = true := by
  rw [Warrior.alive_iff]
  simp [Warrior.start]

/-- A battle of loaded programs starts sound, with every warrior alive. -/
theorem sound_ofArena {programs : List Program} {s : Settings} {arena : Arena}
    (h : CoreWar.load programs s = .ok arena) (limit : Option UInt64) :
    (ofParts arena.core arena.warriors limit).Sound s.coreSize.toNat programs.length ∧
      (ofParts arena.core arena.warriors limit).contenders = programs.length := by
  obtain ⟨hp, -, hcells, starts, hl, hlt, hw⟩ := load_ok h
  have hlen : arena.warriors.length = programs.length := by simp [hw, hl]
  have hall : ∀ w ∈ arena.warriors, w.alive = true := by
    intro w hm
    rw [hw] at hm
    obtain ⟨⟨a, i⟩, -, rfl⟩ := List.mem_map.mp hm
    exact alive_start _ _
  have hcount : arena.warriors.countP Warrior.alive = programs.length := by
    rw [List.countP_eq_length.mpr hall, hlen]
  have hpos : 0 < programs.length := List.length_pos_of_ne_nil hp
  refine ⟨⟨hcells, hlen, ?_, ?_, (ready_ofParts _ _ _).exists_process, fun _ => ?_⟩, hcount⟩
  · intro i w hi
    replace hi : arena.warriors[i]? = some w := hi
    rw [hw, List.getElem?_map, Option.map_eq_some_iff] at hi
    obtain ⟨⟨a, k⟩, hk, rfl⟩ := hi
    rw [List.getElem?_zipIdx, Option.map_eq_some_iff] at hk
    obtain ⟨a', -, he⟩ := hk
    cases he
    simp [Warrior.start]
  · intro w hm pc hpc
    replace hm : w ∈ arena.warriors := hm
    rw [hw] at hm
    obtain ⟨⟨a, i⟩, hz, rfl⟩ := List.mem_map.mp hm
    simp only [Warrior.start, ProcessQueue.toList_ofList, List.mem_singleton] at hpc
    exact hpc ▸ hlt a (List.fst_mem_of_mem_zipIdx hz)
  · show 0 < arena.warriors.countP Warrior.alive ∧
      (2 ≤ programs.length → 2 ≤ arena.warriors.countP Warrior.alive)
    rw [hcount]
    exact ⟨hpos, id⟩

theorem load_eq_ok {programs : List Program} {s : Settings} {b : Battle}
    (h : Battle.load programs s = .ok b) : ∃ arena, CoreWar.load programs s = .ok arena ∧
      b = ofParts arena.core arena.warriors s.cycleLimit := by
  obtain ⟨arena, ha, rfl⟩ := map_eq_ok.mp h
  exact ⟨arena, ha, rfl⟩

theorem load_ready {programs : List Program} {s : Settings} {b : Battle}
    (h : Battle.load programs s = .ok b) : b.Ready := by
  obtain ⟨arena, -, rfl⟩ := load_eq_ok h
  exact ready_ofParts _ _ _

theorem sound_ticks {programs : List Program} {s : Settings} {b : Battle}
    (h : Battle.load programs s = .ok b) (n : Nat) :
    (b.ticks n).Sound s.coreSize.toNat programs.length := by
  obtain ⟨arena, ha, rfl⟩ := load_eq_ok h
  obtain ⟨-, hpos, -⟩ := load_ok ha
  have hrun := ticks_induction
    (P := fun c => c.Sound s.coreSize.toNat programs.length ∧ c.contenders = programs.length)
    (ready_ofParts _ _ _) (sound_ofArena ha s.cycleLimit)
    (fun c w _ hw _ hc => ⟨sound_advance hpos s.coreSize.toNat_lt hw hc.2 hc.1, hc.2⟩) n
  exact hrun.2.1

/-- An open sound battle uses no index out of bounds. -/
theorem Sound.inBounds {size count : Nat} (hs : 0 < size) {b : Battle} (h : b.Sound size count)
    (hv : b.verdict = none) : b.InBounds := by
  obtain ⟨w, hw, -⟩ := h.cursor hv
  have hlt : b.cursor < b.warriors.length := (List.getElem?_eq_some_iff.mp hw).1
  refine ⟨hlt, fun k => Nat.mod_lt _ (by omega), fun core hc a => ?_⟩
  exact Core.index_lt (by rw [hc, h.cells]; exact hs) a

/-- **A battle stays sound, and each tick before the verdict runs one instruction.** The
instruction is the one at the front of the queue of the warrior at the cursor; the tick
raises the cycle counter by one. -/
theorem load_ticks_sound {programs : List Program} {s : Settings} {b : Battle}
    (h : Battle.load programs s = .ok b) (n : Nat) :
    (b.ticks n).Sound s.coreSize.toNat programs.length ∧
    ((b.ticks n).verdict = none →
      (b.ticks n).InBounds ∧
      (∃ w pc pcs t, (b.ticks n).warriors[(b.ticks n).cursor]? = some w ∧
        w.queue.toList = pc :: pcs ∧
        (b.ticks n).turn = (some t, b.ticks (n + 1)) ∧
        t.step = some ((b.ticks n).core.step pc).1 ∧
        (b.ticks (n + 1)).core = ((b.ticks n).core.step pc).2) ∧
      (b.ticks (n + 1)).cycles = (b.ticks n).cycles + 1 ∧
      (b.executed (n + 1) < 2 ^ 64 →
        (b.ticks (n + 1)).cycles.toNat = (b.ticks n).cycles.toNat + 1)) := by
  have hsound := sound_ticks h n
  refine ⟨hsound, fun hv => ?_⟩
  obtain ⟨arena, ha, hb⟩ := load_eq_ok h
  obtain ⟨-, hpos, -⟩ := load_ok ha
  obtain ⟨w, hw, hq⟩ := hsound.cursor hv
  obtain ⟨pc, pcs, hq⟩ := List.exists_cons_of_ne_nil hq
  have hact := Warrior.act_of_cons hq (b.ticks n).core
  have hnext : b.ticks (n + 1) = ((b.ticks n).advance w).2 := by
    rw [ticks_succ, tick_of_open hv hw]
  have hexec : b.executed (n + 1) = b.executed n + 1 := by
    rw [executed_succ, if_pos ((ready_ticks (load_ready h) n).executes_iff.mpr hv)]
  refine ⟨hsound.inBounds hpos hv, ⟨w, pc, pcs, ((b.ticks n).advance w).1, hw, hq, ?_, ?_, ?_⟩,
    ?_, fun hlt => ?_⟩
  · rw [turn_of_open hv hw, hnext]
  · rw [advance_step, hact]
  · rw [hnext, advance_core, hact]
  · rw [hnext, advance_cycles]
  · subst hb
    rw [toNat_ticks_cycles hlt, toNat_ticks_cycles (by omega), hexec]

/-- `MOV 0, 1` copies itself ahead of itself. -/
def imp : Program := [{ mnemonic := .op .mov, bField := .literal 1 }]

theorem load_ticks_sound_imps : ∃ b, Battle.load [imp, imp] { coreSize := 8 } = .ok b ∧
    (b.ticks 3).verdict = none ∧ (b.ticks 3).Sound 8 2 ∧ (b.ticks 3).InBounds ∧
    (b.ticks 4).cycles = (b.ticks 3).cycles + 1 := by
  obtain ⟨b, hload, hv⟩ : ∃ b, Battle.load [imp, imp] { coreSize := 8 } = .ok b ∧
    (b.ticks 3).verdict = none := ⟨_, rfl, by decide +kernel⟩
  obtain ⟨hsound, hopen⟩ := load_ticks_sound hload 3
  obtain ⟨hin, -, hcycles, -⟩ := hopen hv
  exact ⟨b, hload, hv, hsound, hin, hcycles⟩

end Battle
end CoreWar
