/-
# A battle with a limit comes to an end

Two loops play a battle out, and neither has a bound of its own. A run takes
turns as long as there is no verdict (`Battle.RunsTo`); one who takes the
turns himself stops at the first that leaves the battle decided
(`Battle.TicksTo`). With a limit the distance of the cycle counter to the
limit bounds both: an open battle has not reached it, and every turn of an
open battle counts (`Battle.Paced`). The limit is looked at behind a turn, so
the bound is the limit or one, whichever is larger, and the counter never
overflows, not even under the largest limit.

`Battle.run` bounds its loop by the range of the counter. By then the loop has
ended, so the bound is never felt: `run` gives the state in which the loop
ends, with its verdict, and further turns and runs leave it as it is
(`Battle.run_ends`).

Key definitions: `Battle.RunsTo`, `Battle.TicksTo`, `Battle.Paced`,
`Battle.Ends`.
Key theorems: `Battle.run_eq_ticks`, `Battle.Paced.advance`,
`Battle.Paced.exists_runsTo`, `Battle.run_ends`.
-/
import CoreWar.Proofs.Rounds

namespace CoreWar
namespace Battle

/-! ### The two loops -/

/-- The loop of a run: without a verdict a turn is taken, and with one the loop ends. It takes
`n` turns and ends in `c` with the verdict `v`. -/
inductive RunsTo : Battle → (n : Nat) → (v : Verdict) → (c : Battle) → Prop
  | decided {b : Battle} {v : Verdict} : b.verdict = some v → RunsTo b 0 v b
  | turn {b c : Battle} {n : Nat} {v : Verdict} : b.verdict = none → RunsTo b.tick n v c →
    RunsTo b (n + 1) v c

/-- Turns are taken up to the first that leaves the battle decided, which ends in `c`. -/
inductive TicksTo : Battle → (c : Battle) → Prop
  | last {b : Battle} : b.tick.isOpen = false → TicksTo b b.tick
  | next {b c : Battle} : b.tick.isOpen = true → TicksTo b.tick c → TicksTo b c

section Loops

variable {b c : Battle} {m n : Nat} {v : Verdict}

theorem isOpen_eq_false_iff : b.isOpen = false ↔ ∃ v, b.verdict = some v := by
  cases h : b.verdict <;> simp [isOpen, h]

theorem isOpen_iff : b.isOpen = true ↔ b.verdict = none := by
  cases h : b.verdict <;> simp [isOpen, h]

/-- Once the battle is over, it does not matter how many ticks follow. -/
theorem ticks_eq_of_le (hmn : m ≤ n) (h : (b.ticks m).verdict = some v) :
    b.ticks n = b.ticks m := by
  obtain ⟨d, rfl⟩ := Nat.exists_eq_add_of_le hmn
  rw [ticks_add, ticks_of_over h]

theorem RunsTo.ticks (h : RunsTo b n v c) : c = b.ticks n ∧ c.verdict = some v := by
  induction h with
  | decided hv => exact ⟨rfl, hv⟩
  | turn _ _ ih => exact ih

/-- The loop takes a turn only without a verdict. -/
theorem RunsTo.open_of_lt (h : RunsTo b n v c) : ∀ k < n, (b.ticks k).verdict = none := by
  induction h with
  | decided => exact fun k hk => absurd hk (Nat.not_lt_zero k)
  | turn hopen _ ih =>
    intro k hk
    cases k with
    | zero => exact hopen
    | succ k => exact ih k (Nat.lt_of_succ_lt_succ hk)

/-- The first tick that leads to a verdict is the last turn of the loop. -/
theorem RunsTo.of_ticks : ∀ {n : Nat} {b : Battle}, (∀ k < n, (b.ticks k).verdict = none) →
    (b.ticks n).verdict = some v → RunsTo b n v (b.ticks n)
  | 0, _, _, hv => .decided hv
  | n + 1, _, hopen, hv =>
    .turn (hopen 0 (Nat.succ_pos n)) (of_ticks (fun k hk => hopen (k + 1) (Nat.succ_lt_succ hk)) hv)

/-- The executed ticks are the turns of the loop. -/
theorem RunsTo.executed_eq (hr : b.Ready) (h : RunsTo b n v c) (k : Nat) :
    b.executed k = min k n := by
  induction k with
  | zero => simp [executed]
  | succ k ih =>
    rw [executed_succ, ih]
    by_cases hk : k < n
    · rw [if_pos ((ready_ticks hr k).executes_iff.mpr (h.open_of_lt k hk))]
      omega
    · obtain ⟨rfl, hv⟩ := h.ticks
      have hover : (b.ticks k).verdict = some v := by
        rw [ticks_eq_of_le (Nat.le_of_not_lt hk) hv, hv]
      rw [if_neg (by simp [(ready_ticks hr k).executes_iff, hover])]
      omega

theorem TicksTo.ticks (h : TicksTo b c) : ∃ n, c = b.ticks n ∧ ∃ v, c.verdict = some v := by
  induction h with
  | @last b hlast => exact ⟨1, rfl, isOpen_eq_false_iff.mp hlast⟩
  | next _ _ ih =>
    obtain ⟨n, hn, hover⟩ := ih
    exact ⟨n + 1, hn, hover⟩

/-- Both loops end in the same state. -/
theorem RunsTo.ticksTo_iff (h : RunsTo b n v c) (d : Battle) : TicksTo b d ↔ d = c := by
  constructor
  · intro hd
    obtain ⟨k, rfl, u, hu⟩ := hd.ticks
    obtain ⟨rfl, hv⟩ := h.ticks
    rcases Nat.le_total n k with hnk | hkn
    · exact ticks_eq_of_le hnk hv
    · exact (ticks_eq_of_le hkn hu).symm
  · rintro rfl
    induction h with
    | @decided b v hv =>
      have htick : b.tick = b := tick_of_over hv
      have hlast : TicksTo b b.tick := .last (by rw [htick, isOpen_eq_false_iff]; exact ⟨v, hv⟩)
      rwa [htick] at hlast
    | @turn b c n v hopen hrest ih =>
      cases hrest with
      | decided hv => exact .last (isOpen_eq_false_iff.mpr ⟨v, hv⟩)
      | turn hopen' _ => exact .next (isOpen_iff.mpr hopen') ih

/-! ### The bounded loop -/

theorem tick_of_turn_eq_none (h : b.turn.1 = none) : b.tick = b := by
  unfold turn at h
  unfold tick turn
  split <;> simp_all

theorem ticks_of_tick_eq (h : b.tick = b) : ∀ n : Nat, b.ticks n = b
  | 0 => rfl
  | n + 1 => by rw [ticks_succ, ticks_of_tick_eq h n, h]

/-- Following a battle for a number of turns leads where as many ticks lead. -/
theorem follow_snd {α : Type} (f : α → Turn → α) : ∀ (fuel : Nat) (x : α) (b : Battle),
    (b.follow f fuel x).2 = b.ticks fuel
  | 0, _, _ => rfl
  | fuel + 1, x, b => by
    unfold follow
    split
    · rename_i t b' hturn
      have htick : b.tick = b' := congrArg Prod.snd hturn
      rw [follow_snd f fuel, ← htick]
      rfl
    · rename_i b' hturn
      -- A turn that was not taken leaves the battle as it is.
      have htick : b.tick = b := tick_of_turn_eq_none (congrArg Prod.fst hturn)
      calc b' = b.tick := (congrArg Prod.snd hturn).symm
        _ = b := htick
        _ = b.ticks (fuel + 1) := (ticks_of_tick_eq htick _).symm

theorem run_eq_ticks (b : Battle) : b.run = b.ticks b.horizon := follow_snd _ _ _ _

/-- A run that the bound leaves time for is the run of the loop. -/
theorem RunsTo.run_eq (h : RunsTo b n v c) (hn : n ≤ b.horizon) : b.run = c := by
  obtain ⟨rfl, hv⟩ := h.ticks
  rw [run_eq_ticks]
  exact ticks_eq_of_le hn hv

end Loops

/-! ### The distance to the limit -/

/-- The battle has the limit `l` and keeps to it: an open battle has not reached it. The limit
zero is reached with the first turn, as the limit one is. -/
structure Paced (l : UInt64) (b : Battle) : Prop where
  limit : b.limit = some l
  cycles_le : b.cycles.toNat ≤ max l.toNat 1
  cycles_lt : b.verdict = none → b.cycles.toNat < max l.toNat 1

section Pace

variable {l : UInt64} {b : Battle}

theorem paced_ofParts (core : Core) (warriors : List Warrior) (l : UInt64) :
    (ofParts core warriors (some l)).Paced l where
  limit := rfl
  cycles_le := Nat.zero_le _
  cycles_lt _ := by
    show 0 < max l.toNat 1
    omega

/-- The counter of an open battle has room for one more turn. -/
theorem Paced.succ_lt (h : b.Paced l) (hv : b.verdict = none) : b.cycles.toNat + 1 < 2 ^ 64 := by
  have hlt := h.cycles_lt hv
  have hl := l.toNat_lt
  omega

theorem Paced.toNat_succ (h : b.Paced l) (hv : b.verdict = none) :
    (b.cycles + 1).toNat = b.cycles.toNat + 1 := by
  rw [UInt64.toNat_add]
  exact Nat.mod_eq_of_lt (h.succ_lt hv)

/-- A turn that leaves the battle open has not reached the limit. -/
theorem Paced.advance (h : b.Paced l) (hv : b.verdict = none) (w : Warrior) :
    (b.advance w).2.Paced l := by
  have hcycles : (b.advance w).2.cycles.toNat = b.cycles.toNat + 1 := h.toNat_succ hv
  refine ⟨h.limit, ?_, fun hopen => ?_⟩
  · rw [hcycles]
    exact h.cycles_lt hv
  · obtain ⟨-, -, hlimit⟩ := judge_eq_none_iff.mp (advance_verdict.symm.trans hopen)
    have hnot : b.cycles + 1 < l := by simpa [h.limit] using hlimit
    rw [UInt64.lt_iff_toNat_lt, h.toNat_succ hv] at hnot
    omega

theorem Paced.ticks (h : b.Paced l) (hr : b.Ready) (n : Nat) : (b.ticks n).Paced l :=
  (ticks_induction hr h (fun _ w hv _ _ hc => hc.advance hv w) n).2

/-- **The loop ends.** The induction is on the distance of the counter to the limit, which each
turn of the loop makes smaller by one. -/
theorem Paced.exists_runsTo (h : b.Paced l) (hr : b.Ready) : ∃ n v c, RunsTo b n v c ∧
    c.cycles.toNat = b.cycles.toNat + n ∧ c.cycles.toNat ≤ max l.toNat 1 := by
  induction hd : max l.toNat 1 - b.cycles.toNat generalizing b with
  | zero =>
    cases hv : b.verdict with
    | none =>
      have hlt := h.cycles_lt hv
      omega
    | some v => exact ⟨0, v, b, .decided hv, rfl, h.cycles_le⟩
  | succ d ih =>
    rcases hr.tick_cases with ⟨v, hv, -⟩ | ⟨w, hv, -, -, htick⟩
    · exact ⟨0, v, b, .decided hv, rfl, h.cycles_le⟩
    · have hcycles : b.tick.cycles.toNat = b.cycles.toNat + 1 := by
        rw [htick, advance_cycles, h.toNat_succ hv]
      obtain ⟨n, v, c, hrun, hc, hle⟩ := ih (htick ▸ h.advance hv w) (htick ▸ ready_advance b w)
        (by omega)
      exact ⟨n + 1, v, c, .turn hv hrun, by omega, hle⟩

end Pace

/-! ### The end of a battle -/

/-- What the limit `l` makes of playing the battle out. -/
structure Ends (l : UInt64) (b : Battle) : Prop where
  /-- The loop ends after finitely many turns, each of which counts, and `run` is where. -/
  runs : ∃ n v, RunsTo b n v b.run ∧ b.run.verdict = some v ∧
    b.run.cycles.toNat = b.cycles.toNat + n
  cycles_le : b.run.cycles.toNat ≤ max l.toNat 1
  /-- No turn on the way overflows the counter. -/
  counts : ∀ n, (b.ticks n).verdict = none → (b.ticks n).cycles.toNat + 1 < 2 ^ 64
  /-- Taking turns up to the first that leaves the battle decided ends too, and there. -/
  ticks_iff : ∀ c, TicksTo b c ↔ c = b.run
  /-- Further turns and runs change nothing. -/
  tick_run : ∀ n, b.run.ticks n = b.run
  run_run : b.run.run = b.run

theorem Paced.ends {l : UInt64} {b : Battle} (h : b.Paced l) (hr : b.Ready) : b.Ends l := by
  obtain ⟨n, v, c, hrun, hc, hle⟩ := h.exists_runsTo hr
  have hfuel : n ≤ b.horizon := by
    have hlt := c.cycles.toNat_lt
    simp only [horizon, UInt64.size]
    omega
  obtain rfl : b.run = c := hrun.run_eq hfuel
  have hv : b.run.verdict = some v := hrun.ticks.2
  exact {
    runs := ⟨n, v, hrun, hv, hc⟩
    cycles_le := hle
    counts := fun k hk => (h.ticks hr k).succ_lt hk
    ticks_iff := hrun.ticksTo_iff
    tick_run := ticks_of_over hv
    run_run := by rw [run_eq_ticks b.run, ticks_of_over hv] }

/-- **A battle with a limit ends.** Whatever state its turns have led to, the run takes finitely
many more turns, stays within the limit, gives the state and the verdict that taking the turns
one by one gives, and leaves nothing for further turns and runs to do. -/
theorem run_ends (core : Core) (warriors : List Warrior) (l : UInt64) (n : Nat) :
    ((ofParts core warriors (some l)).ticks n).Ends l := by
  have hr := ready_ofParts core warriors (some l)
  exact ((paced_ofParts core warriors l).ticks hr n).ends (ready_ticks hr n)

end Battle
end CoreWar
