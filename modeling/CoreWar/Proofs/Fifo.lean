/-
# Queues are first in, first out

A warrior's queue changes in its own turns only. Such a turn takes the entry
at the front and puts the successors of that process at the back
(`Battle.tick_warrior`), so over any stretch of a battle the entries at the
start, followed by all successors that joined, are the entries that were
taken, followed by those that are left (`Battle.queue_account`). Hence the
first entries that are taken are the ones that were there at the start, in
order, and the number of processes follows from the splits and the `DAT`s
that the warrior executed.

Key definitions: `Battle.stepOf?`, `Battle.steps`, `Battle.Fifo`.
Key theorems: `Battle.tick_warrior`, `Battle.queue_account`,
`Battle.length_account`, `Battle.queues_fifo`.
-/
import CoreWar.Proofs.RoundRobin
import CoreWar.Proofs.Succession

namespace CoreWar
namespace Battle

/-- The step that the warrior at position `i` executes in the next tick, if it is its turn. -/
def stepOf? (b : Battle) (i : Nat) : Option Step :=
  if b.actor? = some i then b.turn.1.bind Turn.step else none

/-- The steps that the warrior at position `i` executes in the next `n` ticks, in order. -/
def steps (b : Battle) (n i : Nat) : List Step :=
  (List.range n).filterMap fun k => (b.ticks k).stepOf? i

theorem steps_succ (b : Battle) (n i : Nat) :
    b.steps (n + 1) i = b.steps n i ++ ((b.ticks n).stepOf? i).toList := by
  unfold steps
  rw [List.range_succ, List.filterMap_append]
  cases h : (b.ticks n).stepOf? i <;> simp [h]

/-! ### One tick -/

section Tick

variable {b : Battle} (hr : b.Ready) {i : Nat} {w : Warrior}

include hr

theorem actor?_eq_some_iff : b.actor? = some i ↔ b.verdict = none ∧ b.cursor = i := by
  unfold actor?
  by_cases he : b.executes = true
  · simp [if_pos he, hr.executes_iff.mp he]
  · have hv : b.verdict ≠ none := fun hv => he (hr.executes_iff.mpr hv)
    simp [if_neg he, hv]

/-- **What a tick does to one warrior.** In the turn of another, or after the verdict,
nothing. In its own turn it runs the process at the front of its queue. -/
theorem tick_warrior (hw : b.warriors[i]? = some w) :
    (b.actor? ≠ some i ∧ b.stepOf? i = none ∧ b.tick.warriors[i]? = some w) ∨
    (∃ pc rest, b.actor? = some i ∧ w.queue.toList = pc :: rest ∧
      b.stepOf? i = some (b.core.step pc).1 ∧
      b.tick.warriors[i]? =
        some ⟨w.id, .ofList (rest ++ (b.core.step pc).1.successors.toList)⟩) := by
  by_cases hi : b.actor? = some i
  · refine .inr ?_
    obtain ⟨hv, rfl⟩ := (actor?_eq_some_iff hr).mp hi
    obtain ⟨x, hx, ha⟩ := aliveAt_iff.mp (hr hv)
    obtain rfl : x = w := Option.some.inj (hx.symm.trans hw)
    obtain ⟨pc, rest, hq, hact⟩ := Warrior.act_of_alive ha b.core
    have hlt : b.cursor < b.warriors.length := (List.getElem?_eq_some_iff.mp hw).1
    refine ⟨pc, rest, hi, hq, ?_, ?_⟩
    · rw [stepOf?, if_pos hi, turn_of_open hv hw]
      show (x.act b.core).1 = _
      rw [hact]
    · rw [tick_of_open hv hw, advance_warriors, List.getElem?_set_self hlt, hact]
  · refine .inl ⟨hi, if_neg hi, ?_⟩
    rcases hr.tick_cases with ⟨v, -, ht⟩ | ⟨x, hv, hx, -, ht⟩
    · rw [ht, hw]
    · have hne : b.cursor ≠ i := fun h => hi ((actor?_eq_some_iff hr).mpr ⟨hv, h⟩)
      rw [ht, advance_warriors, List.getElem?_set_ne hne, hw]

theorem stepOf?_offspring (hw : b.warriors[i]? = some w) {s : Step} (h : b.stepOf? i = some s) :
    s.successors.toList.length = s.instruction.offspring := by
  rcases tick_warrior hr hw with ⟨-, hnone, -⟩ | ⟨pc, rest, -, -, hstep, -⟩
  · rw [hnone] at h
    cases h
  · obtain rfl := Option.some.inj (hstep.symm.trans h)
    rw [b.core.length_successors, b.core.step_instruction]

end Tick

/-! ### Any number of ticks -/

section Run

variable {b : Battle} (hr : b.Ready) {i : Nat} {w : Warrior} (hw : b.warriors[i]? = some w)

include hr hw

/-- **What came in is what went out and what is left, in this order.** -/
theorem queue_account (n : Nat) : ∃ w', (b.ticks n).warriors[i]? = some w' ∧
    w.queue.toList ++ (b.steps n i).flatMap (fun s => s.successors.toList) =
      (b.steps n i).map Step.pc ++ w'.queue.toList := by
  induction n with
  | zero => exact ⟨w, hw, by simp [steps]⟩
  | succ n ih =>
    obtain ⟨x, hx, hn⟩ := ih
    rw [steps_succ, ticks_succ]
    rcases tick_warrior (ready_ticks hr n) hx with ⟨-, hstep, ht⟩ | ⟨pc, rest, -, hq, hstep, ht⟩
    · refine ⟨x, ht, ?_⟩
      rw [hstep, Option.toList_none, List.append_nil]
      exact hn
    · refine ⟨_, ht, ?_⟩
      rw [hstep, Option.toList_some, List.flatMap_append, ← List.append_assoc, hn, hq]
      simp

theorem length_account (n : Nat) : ∃ w', (b.ticks n).warriors[i]? = some w' ∧
    w'.queue.length + (b.steps n i).countP (fun s => s.instruction.opcode = .dat) =
      w.queue.length + (b.steps n i).countP fun s => s.instruction.splits := by
  obtain ⟨w', hw', haccount⟩ := queue_account hr hw n
  refine ⟨w', hw', ?_⟩
  have hoffspring : (b.steps n i).map (fun s => s.successors.toList.length) =
      (b.steps n i).map fun s => s.instruction.offspring := by
    refine List.map_congr_left fun s hs => ?_
    obtain ⟨k, -, hk⟩ := List.mem_filterMap.mp hs
    obtain ⟨x, hx, -⟩ := queue_account hr hw k
    exact stepOf?_offspring (ready_ticks hr k) hx hk
  have hlen := congrArg List.length haccount
  rw [List.length_append, List.length_append, List.length_flatMap, hoffspring,
    List.length_map] at hlen
  have hsum := Step.sum_offspring (b.steps n i)
  unfold ProcessQueue.length
  omega

theorem steps_pcs (n : Nat) : ((b.steps n i).map Step.pc).take w.queue.length =
    w.queue.toList.take (b.steps n i).length := by
  obtain ⟨w', -, haccount⟩ := queue_account hr hw n
  rcases List.append_eq_append_iff.mp haccount with ⟨more, hpcs, -⟩ | ⟨left, hqueue, -⟩
  · -- all entries were taken
    have hlen := congrArg List.length hpcs
    rw [List.length_map, List.length_append] at hlen
    rw [hpcs, ProcessQueue.length, List.take_left, List.take_of_length_le (by omega)]
  · -- some entries are left
    rw [ProcessQueue.length, hqueue, List.take_of_length_le (by simp),
      List.take_left' (by simp)]

end Run

/-- What the warrior `w` at position `i` does with its queue from the state `b` on. -/
structure Fifo (b : Battle) (i : Nat) (w : Warrior) : Prop where
  /-- Its next turns, as many as it has entries now and as there are before the verdict,
  take these entries in order. -/
  order : ∀ n, ((b.steps n i).map Step.pc).take w.queue.length =
    w.queue.toList.take (b.steps n i).length
  /-- The turn of another warrior leaves it as it is. -/
  others : b.actor? ≠ some i → b.tick.warriors[i]? = some w
  /-- Its own turn takes the front entry, and the successors join at the back. -/
  own : b.actor? = some i → ∃ pc rest joined, w.queue.toList = pc :: rest ∧
    b.tick.warriors[i]? = some ⟨w.id, .ofList (rest ++ joined)⟩ ∧ Succession b.core pc joined

/-- **Queues are first in, first out,** and the number of processes of a warrior is what it
was at the start, plus its executed splits, less its executed `DAT`s. -/
theorem queues_fifo {core : Core} (hsize : core.size < 2 ^ 63) {warriors : List Warrior}
    (hpcs : ∀ w ∈ warriors, ∀ pc ∈ w.queue.toList, pc.toNat < core.size)
    (limit : Option UInt64) :
    (∀ n i w, ((ofParts core warriors limit).ticks n).verdict = none →
      ((ofParts core warriors limit).ticks n).warriors[i]? = some w →
      ((ofParts core warriors limit).ticks n).Fifo i w) ∧
    (∀ n i w, warriors[i]? = some w →
      ∃ w', ((ofParts core warriors limit).ticks n).warriors[i]? = some w' ∧
        w'.queue.length + ((ofParts core warriors limit).steps n i).countP
            (fun s => s.instruction.opcode = .dat) =
          w.queue.length + ((ofParts core warriors limit).steps n i).countP
            fun s => s.instruction.opcode = .spl ∧ s.instruction.aMode ≠ .immediate) := by
  have hr := ready_ofParts core warriors limit
  have hring : (ofParts core warriors limit).InRing core.size := ⟨rfl, hpcs⟩
  refine ⟨fun n i w _ hw => ?_, fun n i w hw => ?_⟩
  · have hrn := ready_ticks hr n
    have hn := hring.ticks (by omega) hr n
    refine ⟨steps_pcs hrn hw, fun hi => ?_, fun hi => ?_⟩
    · rcases tick_warrior hrn hw with ⟨-, -, ht⟩ | ⟨-, -, hown, -⟩
      · exact ht
      · exact absurd hown hi
    · rcases tick_warrior hrn hw with ⟨hother, -⟩ | ⟨pc, rest, -, hq, -, ht⟩
      · exact absurd hi hother
      · have hpc := hn.queue_lt hw pc (by simp [hq])
        rw [← hn.cells] at hpc hsize
        exact ⟨pc, rest, _, hq, ht, Core.step_succession (by omega) hsize hpc⟩
  · obtain ⟨w', hw', hlen⟩ := length_account hr hw n
    refine ⟨w', hw', hlen.trans (congrArg _ (List.countP_congr fun s _ => ?_))⟩
    rw [Instruction.splits_iff, decide_eq_true_iff]

/-- A warrior that splits into a process that waits and one that ends, and a warrior that
waits. -/
def forking : Battle :=
  ofParts ⟨#[⟨.spl, .direct, 2, .direct, 0⟩, ⟨.jmp, .direct, 0, .direct, 0⟩, .neutral]⟩
    [.start 0 0, .start 1 1] none

/-- After its first turn the first warrior has two processes, which it runs in order; two
turns later the second of them has ended. -/
theorem queues_fifo_forking : (forking.ticks 1).verdict = none ∧
    (∃ w, (forking.ticks 1).warriors[0]? = some w ∧ w.queue.toList = [1, 2] ∧
      (forking.ticks 1).Fifo 0 w) ∧
    ∃ w, (forking.ticks 5).warriors[0]? = some w ∧ w.queue.length + 1 = 1 + 1 := by
  have hpcs : ∀ w ∈ [Warrior.start 0 0, .start 1 1], ∀ pc ∈ w.queue.toList, pc.toNat < 3 := by
    simp [Warrior.start]
  obtain ⟨hfifo, hcount⟩ := @queues_fifo forking.core (by decide) _ hpcs none
  have hv : (forking.ticks 1).verdict = none := by decide +kernel
  have hqueue : (forking.ticks 1).warriors[0]?.map (fun w => w.queue.toList) = some [1, 2] := by
    decide +kernel
  obtain ⟨w, hw, hq⟩ := Option.map_eq_some_iff.mp hqueue
  obtain ⟨w', hw', hlen⟩ := hcount 5 0 (.start 0 0) rfl
  have hdat : (forking.steps 5 0).countP (fun s => s.instruction.opcode = .dat) = 1 := by
    decide +kernel
  have hspl : (forking.steps 5 0).countP
      (fun s => s.instruction.opcode = .spl ∧ s.instruction.aMode ≠ .immediate) = 1 := by
    decide +kernel
  refine ⟨hv, ⟨w, hw, hq, hfifo 1 0 w hv hw⟩, w', hw', ?_⟩
  exact (congrArg (w'.queue.length + ·) hdat).symm.trans (hlen.trans (congrArg (1 + ·) hspl))

end Battle
end CoreWar
