/-
# A cycle limit only cuts a battle short

The limit enters a battle in one place: behind each turn it is asked whether
the limit is reached. Two limits that give the same answers give the same
battle (`Battle.ticks_withLimit`). So a battle with a limit goes as the one
without, until the turn in which the limit is reached. That turn changes the
core, the warriors and the records in the same way; only its verdict is
different: where the battle would go on it is a draw (`Battle.judge_of_reached`).

As the question is first asked behind a turn, the limits zero and one cannot be
told apart.

Key definitions: `Battle.withLimit`, `Battle.Agrees`.
Key theorems: `Battle.judge_of_reached`, `Battle.ticks_withLimit`,
`Battle.limit_truncates`.
-/
import CoreWar.Proofs.Verdicts

namespace CoreWar
namespace Battle

def withLimit (b : Battle) (limit : Option UInt64) : Battle := { b with limit }

/-- The two battles agree in all that turns have done so far; what may differ is the limit,
the verdict, and therefore where the cursor stands. -/
structure Agrees (b c : Battle) : Prop where
  core : b.core = c.core
  warriors : b.warriors = c.warriors
  cycles : b.cycles = c.cycles
  eliminations : b.eliminations = c.eliminations
  incidents : b.incidents = c.incidents

/-! ### The question behind a turn -/

section Judge

variable {contenders : Nat} {limit limit' : Option UInt64} {cycles : UInt64}
  {warriors : List Warrior}

theorem judge_congr (h : limit.any (· ≤ cycles) = limit'.any (· ≤ cycles)) :
    judge contenders limit cycles warriors = judge contenders limit' cycles warriors := by
  unfold judge
  rw [h]

/-- A limit that is reached makes a draw of a battle that would go on, and changes nothing
else. -/
theorem judge_of_reached (h : limit.any (· ≤ cycles) = true) :
    judge contenders limit cycles warriors =
      some ((judge contenders none cycles warriors).getD (.draw (survivors warriors))) := by
  unfold judge
  rw [h]
  cases survivors warriors with
  | nil => rfl
  | cons id ids =>
    cases ids with
    | nil => by_cases hc : 1 < contenders <;> simp [hc]
    | cons id' ids => rfl

end Judge

/-! ### One tick under another limit -/

theorem agrees_withLimit (b : Battle) (limit : Option UInt64) : (b.withLimit limit).Agrees b :=
  ⟨rfl, rfl, rfl, rfl, rfl⟩

section Tick

variable {b : Battle} (hr : b.Ready) {limit : Option UInt64}

include hr

theorem agrees_tick_withLimit : (b.withLimit limit).tick.Agrees b.tick := by
  rcases hr.tick_cases with ⟨v, hv, ht⟩ | ⟨w, hv, hw, -, ht⟩
  · rw [ht, tick_of_over (b := b.withLimit limit) hv]
    exact b.agrees_withLimit limit
  · rw [ht, tick_of_open (b := b.withLimit limit) hv hw]
    exact ⟨rfl, rfl, rfl, rfl, rfl⟩

theorem tick_withLimit
    (h : b.verdict = none → limit.any (· ≤ b.cycles + 1) = b.limit.any (· ≤ b.cycles + 1)) :
    (b.withLimit limit).tick = b.tick.withLimit limit := by
  rcases hr.tick_cases with ⟨v, hv, ht⟩ | ⟨w, hv, hw, -, ht⟩
  · rw [ht, tick_of_over (b := b.withLimit limit) hv]
  · rw [ht, tick_of_open (b := b.withLimit limit) hv hw]
    have hverdict : ((b.withLimit limit).advance w).2.verdict = (b.advance w).2.verdict :=
      judge_congr (h hv)
    have hcursor : ((b.withLimit limit).advance w).2.cursor = (b.advance w).2.cursor := by
      rw [advance_cursor, advance_cursor, hverdict]
      rfl
    exact Battle.ext rfl rfl hcursor rfl rfl rfl hverdict rfl rfl

theorem tick_withLimit_verdict (hb : b.limit = none)
    (h : b.verdict = none → limit.any (· ≤ b.cycles + 1) = true) :
    (b.withLimit limit).tick.verdict =
      some (b.tick.verdict.getD (.draw (survivors b.tick.warriors))) := by
  rcases hr.tick_cases with ⟨v, hv, ht⟩ | ⟨w, hv, hw, -, ht⟩
  · rw [ht, tick_of_over (b := b.withLimit limit) hv, hv]
    exact hv
  · rw [ht, tick_of_open (b := b.withLimit limit) hv hw, advance_verdict (b := b), hb]
    exact judge_of_reached (h hv)

end Tick

/-! ### Any number of ticks -/

/-- **Limits that give the same answers give the same battle.** -/
theorem ticks_withLimit {b : Battle} (hr : b.Ready) {limit : Option UInt64} : ∀ n : Nat,
    (∀ k < n, (b.ticks k).verdict = none → limit.any (· ≤ (b.ticks k).cycles + 1) =
      (b.ticks k).limit.any (· ≤ (b.ticks k).cycles + 1)) →
    (b.withLimit limit).ticks n = (b.ticks n).withLimit limit
  | 0, _ => rfl
  | n + 1, h => by
    have ih := ticks_withLimit hr n fun k hk => h k (Nat.lt_succ_of_lt hk)
    rw [ticks_succ, ticks_succ, ih]
    exact tick_withLimit (ready_ticks hr n) (h n (Nat.lt_succ_self n))

section Run

variable (core : Core) (warriors : List Warrior)

theorem ticks_below_limit {l : UInt64} {n : Nat} (hn : n < l.toNat) :
    (ofParts core warriors (some l)).ticks n =
      ((ofParts core warriors none).ticks n).withLimit (some l) := by
  refine ticks_withLimit (ready_ofParts core warriors none) n fun k hk hv => ?_
  have hl := l.toNat_lt
  have hcycle := toNat_succ_cycles (by omega) hv
  rw [(ticks_fixed core warriors none k).1]
  simp only [Option.any_some, Option.any_none, decide_eq_false_iff_not, UInt64.not_le,
    UInt64.lt_iff_toNat_lt, hcycle]
  omega

theorem eq_zero_of_open {n : Nat} (hv : ((ofParts core warriors (some 1)).ticks n).verdict = none) :
    n = 0 := by
  refine Nat.eq_zero_of_not_pos fun hn => ?_
  have h0 : (ofParts core warriors (some 1)).verdict = none := open_of_le (Nat.zero_le n) hv
  have h1 : (ofParts core warriors (some 1)).tick.verdict = none := open_of_le hn hv
  obtain ⟨w, hw, -⟩ := aliveAt_iff.mp (ready_ofParts core warriors (some 1) h0)
  rw [tick_of_open h0 hw, advance_verdict] at h1
  obtain ⟨-, -, hlimit⟩ := judge_eq_none_iff.mp h1
  exact absurd hlimit (show ¬ (some (1 : UInt64)).any (· ≤ 0 + 1) = false by decide)

end Run

/-- **A limit only cuts a battle short.** Up to the limit the battle does what it does
without one, and at the limit it is decided: as without one if that is decided by then, and
else as a draw of those who are alive. A limit of zero is a limit of one. -/
theorem limit_truncates (core : Core) (warriors : List Warrior) :
    (∀ l : UInt64, 1 ≤ l →
      (∀ n ≤ l.toNat, ((ofParts core warriors (some l)).ticks n).Agrees
        ((ofParts core warriors none).ticks n)) ∧
      ((ofParts core warriors (some l)).ticks l.toNat).verdict =
        some (((ofParts core warriors none).ticks l.toNat).verdict.getD
          (.draw (survivors ((ofParts core warriors none).ticks l.toNat).warriors)))) ∧
    ∀ n, (ofParts core warriors (some 0)).ticks n =
      ((ofParts core warriors (some 1)).ticks n).withLimit (some 0) := by
  refine ⟨fun l hl => ?_, fun n => ?_⟩
  · have hr := ready_ofParts core warriors none
    -- the last tick starts from a state that is still the same
    obtain ⟨m, hm⟩ : ∃ m, l.toNat = m + 1 :=
      Nat.exists_eq_add_one.mpr (UInt64.le_iff_toNat_le.mp hl)
    have hlast : (ofParts core warriors (some l)).ticks (m + 1) =
        (((ofParts core warriors none).ticks m).withLimit (some l)).tick := by
      rw [ticks_succ, ticks_below_limit core warriors (by omega)]
    rw [hm]
    refine ⟨fun n hn => ?_, ?_⟩
    · rcases Nat.lt_or_eq_of_le hn with hlt | rfl
      · rw [ticks_below_limit core warriors (by omega)]
        exact agrees_withLimit _ _
      · rw [hlast, ticks_succ]
        exact agrees_tick_withLimit (ready_ticks hr m)
    · rw [hlast, ticks_succ]
      refine tick_withLimit_verdict (ready_ticks hr m) (ticks_fixed core warriors none m).1
        fun hv => ?_
      have hcycle := toNat_succ_cycles (hm ▸ l.toNat_lt) hv
      simp only [Option.any_some, decide_eq_true_eq, UInt64.le_iff_toNat_le, hcycle]
      omega
  · refine ticks_withLimit (ready_ofParts core warriors (some 1)) n fun k _ hv => ?_
    obtain rfl := eq_zero_of_open core warriors hv
    show (some (0 : UInt64)).any (· ≤ 0 + 1) = (some (1 : UInt64)).any (· ≤ 0 + 1)
    decide

/-- Two warriors that wait, and one that ends in its first turn. -/
def standoff (limit : Option UInt64) : Battle :=
  ofParts ⟨#[⟨.jmp, .direct, 0, .direct, 0⟩, ⟨.jmp, .direct, 0, .direct, 0⟩, .neutral]⟩
    [.start 0 0, .start 1 2, .start 2 1] limit

/-- In the fifth tick the battle would go on, so a limit of five makes it a draw of the two
that are left. -/
theorem limit_truncates_standoff : (1 : UInt64) ≤ 5 ∧ ((standoff none).ticks 5).verdict = none ∧
    ((standoff (some 5)).ticks 5).verdict = some (.draw [0, 2]) ∧
    ((standoff (some 5)).ticks 5).Agrees ((standoff none).ticks 5) ∧
    (standoff (some 0)).ticks 7 = ((standoff (some 1)).ticks 7).withLimit (some 0) := by
  obtain ⟨hlimit, hzero⟩ := limit_truncates (standoff none).core (standoff none).warriors
  obtain ⟨hagrees, hverdict⟩ := hlimit 5 (by decide)
  have hopen : ((standoff none).ticks 5).verdict = none := by decide +kernel
  have hleft : survivors ((standoff none).ticks 5).warriors = [0, 2] := by decide +kernel
  refine ⟨by decide, hopen, ?_, hagrees 5 (by decide), hzero 7⟩
  calc ((standoff (some 5)).ticks 5).verdict
      = some (((standoff none).ticks 5).verdict.getD
          (.draw (survivors ((standoff none).ticks 5).warriors))) := hverdict
    _ = some (.draw [0, 2]) := by rw [hopen, hleft, Option.getD_none]

end Battle
end CoreWar
