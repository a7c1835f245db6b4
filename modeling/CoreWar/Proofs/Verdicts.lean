/-
# What a verdict means

Before the first turn the only verdict is `extinct`, for a battle in which no
warrior is alive. From the first turn on the verdict can be read off the
state: from who is alive, from how many were alive at the start, and from the
cycle counter (`Battle.Meaning`). This is what `Battle.judge` decides after a
turn, and a battle that is over does not change any more.

At most one warrior dies in a turn and an open battle of two or more has two
left, so such a battle never ends `extinct`. The ids in the verdict of loaded
programs are positions of programs, in increasing order.

Key definitions: `Battle.Meaning`.
Key theorems: `Battle.judge_meaning`, `Battle.ticks_verdict`,
`Battle.one_left`, `Battle.verdict_exact`.
-/
import CoreWar.Proofs.Soundness

namespace CoreWar
namespace Battle

/-! ### What is decided after a turn -/

/-- What the verdict of a battle says once a turn was taken, when `contenders` warriors
were alive at the start and `limit` is the cycle limit. -/
structure Meaning (contenders : Nat) (limit : Option UInt64) (b : Battle) : Prop where
  /-- Nobody is left. -/
  extinct : b.verdict = some .extinct ↔ survivors b.warriors = []
  /-- One warrior is left of two or more. -/
  winner : ∀ id, b.verdict = some (.winner id) ↔ 2 ≤ contenders ∧ survivors b.warriors = [id]
  /-- Neither of these, but the limit is reached. -/
  draw : ∀ ids, b.verdict = some (.draw ids) ↔
    survivors b.warriors ≠ [] ∧ ¬ (2 ≤ contenders ∧ ∃ id, survivors b.warriors = [id]) ∧
      (∃ l, limit = some l ∧ l ≤ b.cycles) ∧ ids = survivors b.warriors
  /-- Nothing of all this. -/
  undecided : b.verdict = none ↔
    survivors b.warriors ≠ [] ∧ ¬ (2 ≤ contenders ∧ ∃ id, survivors b.warriors = [id]) ∧
      ¬ ∃ l, limit = some l ∧ l ≤ b.cycles

theorem any_le_iff {limit : Option UInt64} {cycles : UInt64} :
    limit.any (· ≤ cycles) = true ↔ ∃ l, limit = some l ∧ l ≤ cycles := by
  cases limit <;> simp

theorem judge_meaning {contenders : Nat} {limit : Option UInt64} {b : Battle}
    (h : b.verdict = judge contenders limit b.cycles b.warriors) : b.Meaning contenders limit := by
  by_cases hl : limit.any (· ≤ b.cycles) = true
  all_goals
    have hl' := hl
    rw [any_le_iff] at hl'
    unfold judge at h
    simp only [hl] at h
    cases hs : survivors b.warriors with
    | nil =>
      simp only [hs] at h
      constructor <;> simp [h, hs]
    | cons id ids =>
      cases ids with
      | nil =>
        simp only [hs] at h
        by_cases hc : 1 < contenders
        · rw [if_pos hc] at h
          have hc' : 2 ≤ contenders := hc
          constructor <;> simp [h, hs, hc']
        · rw [if_neg hc] at h
          have hc' : ¬ 2 ≤ contenders := hc
          constructor <;> simp [h, hs, hc', hl', eq_comm]
      | cons id' ids =>
        simp only [hs] at h
        constructor <;> simp [h, hs, hl', eq_comm]

/-! ### Along a run -/

section Run

variable (core : Core) (warriors : List Warrior) (limit : Option UInt64)

theorem ticks_fixed (n : Nat) :
    ((ofParts core warriors limit).ticks n).limit = limit ∧
      ((ofParts core warriors limit).ticks n).contenders = warriors.countP Warrior.alive :=
  (ticks_induction (P := fun c => c.limit = limit ∧ c.contenders = warriors.countP Warrior.alive)
    (ready_ofParts core warriors limit) ⟨rfl, rfl⟩ (fun _ _ _ _ _ h => h) n).2

theorem ticks_eq_of_executed_eq_zero {b : Battle} (hr : b.Ready) : ∀ n : Nat,
    b.executed n = 0 → b.ticks n = b
  | 0, _ => rfl
  | n + 1, h => by
    rw [executed_succ] at h
    have hn := ticks_eq_of_executed_eq_zero hr n (by omega)
    rw [hn] at h
    rw [ticks_succ, hn]
    cases hv : b.verdict with
    | some v => exact tick_of_over hv
    | none =>
      rw [if_pos (hr.executes_iff.mpr hv)] at h
      omega

/-- From the first turn on the verdict is the one that is decided from the state. -/
theorem ticks_verdict (n : Nat) (h : 0 < (ofParts core warriors limit).executed n) :
    ((ofParts core warriors limit).ticks n).verdict =
      judge (warriors.countP Warrior.alive) limit ((ofParts core warriors limit).ticks n).cycles
        ((ofParts core warriors limit).ticks n).warriors := by
  induction n with
  | zero => simp [executed] at h
  | succ n ih =>
    have hr := ready_ticks (ready_ofParts core warriors limit) n
    rw [executed_succ] at h
    rw [ticks_succ]
    rcases hr.tick_cases with ⟨v, hv, ht⟩ | ⟨w, -, -, -, ht⟩
    · have he : ¬ ((ofParts core warriors limit).ticks n).executes = true := by
        simp [hr.executes_iff, hv]
      rw [if_neg he] at h
      rw [ht]
      exact ih h
    · obtain ⟨hlimit, hcontenders⟩ := ticks_fixed core warriors limit n
      rw [ht, advance_verdict, hlimit, hcontenders, advance_cycles]

end Run

/-! ### Two or more at the start -/

theorem countP_alive_advance {b : Battle} {w : Warrior} (hw : b.warriors[b.cursor]? = some w) :
    b.warriors.countP Warrior.alive ≤ (b.advance w).2.warriors.countP Warrior.alive + 1 := by
  obtain ⟨hi, he⟩ := List.getElem?_eq_some_iff.mp hw
  rw [advance_warriors, List.countP_set hi]
  split <;> omega

theorem one_left (core : Core) {warriors : List Warrior} (limit : Option UInt64)
    (h : 2 ≤ warriors.countP Warrior.alive) (n : Nat) :
    0 < ((ofParts core warriors limit).ticks n).warriors.countP Warrior.alive := by
  have hrun := ticks_induction (b := ofParts core warriors limit)
    (P := fun c => c.contenders = warriors.countP Warrior.alive ∧
      0 < c.warriors.countP Warrior.alive ∧
      (c.verdict = none → 2 ≤ c.warriors.countP Warrior.alive))
    (ready_ofParts core warriors limit) ⟨rfl, Nat.lt_of_lt_of_le (by decide) h, fun _ => h⟩ ?_ n
  · exact hrun.2.2.1
  · rintro c w hv hw - ⟨hc, -, htwo⟩
    have hdead := countP_alive_advance hw
    have htwo := htwo hv
    refine ⟨hc, by omega, fun hv' => ?_⟩
    obtain ⟨-, hmore, -⟩ := judge_eq_none_iff.mp (advance_verdict.symm.trans hv')
    exact hmore (by omega)

/-! ### The ids in a verdict -/

theorem Sound.map_id {size count : Nat} {b : Battle} (h : b.Sound size count) :
    b.warriors.map Warrior.id = (List.range count).map UInt64.ofNat := by
  apply List.ext_getElem?
  intro i
  rw [List.getElem?_map, List.getElem?_map]
  by_cases hi : i < count
  · have hi' : i < b.warriors.length := by rw [h.length]; exact hi
    have hw := List.getElem?_eq_getElem hi'
    simp [hw, List.getElem?_range hi, h.ids i _ hw]
  · have hi' : b.warriors.length ≤ i := by rw [h.length]; omega
    simp [List.getElem?_eq_none hi', List.getElem?_eq_none (l := List.range count) (i := i)
      (by simpa using hi)]

/-- The survivors of a sound battle are positions of programs, in increasing order. -/
theorem Sound.survivors_increasing {size count : Nat} {b : Battle} (h : b.Sound size count)
    (hc : count ≤ 2 ^ 64) :
    (∀ id ∈ survivors b.warriors, id.toNat < count) ∧
      (survivors b.warriors).Pairwise (· < ·) := by
  have hsub : (survivors b.warriors).Sublist ((List.range count).map UInt64.ofNat) := by
    rw [← h.map_id]
    exact List.filter_sublist.map _
  have hnat : ∀ i ∈ List.range count, (UInt64.ofNat i).toNat = i := fun i hi =>
    UInt64.toNat_ofNat_of_lt' (Nat.lt_of_lt_of_le (List.mem_range.mp hi) hc)
  constructor
  · intro id hid
    obtain ⟨i, hi, rfl⟩ := List.mem_map.mp (hsub.subset hid)
    rw [hnat i hi]
    exact List.mem_range.mp hi
  · refine List.Pairwise.sublist hsub (List.pairwise_map.mpr ?_)
    refine List.pairwise_lt_range.imp_of_mem fun {i j} hi hj hij => ?_
    rw [UInt64.lt_iff_toNat_lt, hnat i hi, hnat j hj]
    exact hij

theorem verdict_names {core : Core} {warriors : List Warrior} {limit : Option UInt64} {n : Nat} :
    (∀ id, ((ofParts core warriors limit).ticks n).verdict = some (.winner id) →
      survivors ((ofParts core warriors limit).ticks n).warriors = [id]) ∧
    (∀ ids, ((ofParts core warriors limit).ticks n).verdict = some (.draw ids) →
      survivors ((ofParts core warriors limit).ticks n).warriors = ids) := by
  by_cases h : (ofParts core warriors limit).executed n = 0
  · have hn := ticks_eq_of_executed_eq_zero (ready_ofParts core warriors limit) n h
    rw [hn]
    simp only [ofParts]
    constructor <;> intro x hx <;> split at hx <;> cases hx
  · have hm := judge_meaning (ticks_verdict core warriors limit n (Nat.pos_of_ne_zero h))
    exact ⟨fun id hid => ((hm.winner id).mp hid).2,
      fun ids hids => ((hm.draw ids).mp hids).2.2.2.symm⟩

/-- **What the verdict says after any number of ticks.** For battles of loaded programs the
ids in it are positions of programs (of which there are no more than a word can number), and
survivors are listed in increasing order. -/
theorem verdict_exact :
    (∀ (core : Core) (warriors : List Warrior) (limit : Option UInt64) (n : Nat),
      ((ofParts core warriors limit).executed n = 0 →
        ((ofParts core warriors limit).ticks n).verdict =
          if survivors warriors = [] then some .extinct else none) ∧
      (0 < (ofParts core warriors limit).executed n →
        ((ofParts core warriors limit).ticks n).Meaning (warriors.countP Warrior.alive) limit) ∧
      (2 ≤ warriors.countP Warrior.alive →
        ((ofParts core warriors limit).ticks n).verdict ≠ some .extinct)) ∧
    (∀ (programs : List Program) (s : Settings) (b : Battle) (n : Nat),
      programs.length ≤ 2 ^ 64 → Battle.load programs s = .ok b →
      (∀ id, (b.ticks n).verdict = some (.winner id) → id.toNat < programs.length) ∧
      (∀ ids, (b.ticks n).verdict = some (.draw ids) →
        (∀ id ∈ ids, id.toNat < programs.length) ∧ ids.Pairwise (· < ·))) := by
  refine ⟨fun core warriors limit n => ?_, fun programs s b n hl h => ?_⟩
  · have hr := ready_ofParts core warriors limit
    have hstart : (ofParts core warriors limit).executed n = 0 →
        ((ofParts core warriors limit).ticks n).verdict =
          if survivors warriors = [] then some .extinct else none := by
      intro h0
      rw [ticks_eq_of_executed_eq_zero hr n h0]
      simp only [survivors_eq_nil_iff]
      rfl
    have hlater := fun h => judge_meaning (ticks_verdict core warriors limit n h)
    refine ⟨hstart, hlater, fun htwo hv => ?_⟩
    by_cases h0 : (ofParts core warriors limit).executed n = 0
    · rw [hstart h0, if_neg (by rw [survivors_eq_nil_iff]; omega)] at hv
      cases hv
    · have hnone := (hlater (Nat.pos_of_ne_zero h0)).extinct.mp hv
      have hone := one_left core limit htwo n
      rw [survivors_eq_nil_iff] at hnone
      omega
  · obtain ⟨hlt, hinc⟩ := (sound_ticks h n).survivors_increasing hl
    obtain ⟨arena, -, rfl⟩ := load_eq_ok h
    constructor
    · intro id hid
      rw [verdict_names.1 id hid] at hlt
      exact hlt id (List.mem_singleton.mpr rfl)
    · intro ids hids
      rw [verdict_names.2 ids hids] at hlt hinc
      exact ⟨hlt, hinc⟩

/-- The first of three warriors ends at once and the others outlive the limit; the first of two
ends at once and the other wins; and where nobody is, the battle is over before it begins. -/
theorem verdict_exact_outlived : ∃ b b',
    Battle.load [[{ mnemonic := .op .dat }], imp, imp] { coreSize := 12, cycleLimit := some 5 } =
      .ok b ∧
    Battle.load [[{ mnemonic := .op .dat }], imp] { coreSize := 12 } = .ok b' ∧
    (b.ticks 7).verdict = some (.draw [1, 2]) ∧ (b'.ticks 7).verdict = some (.winner 1) ∧
    (b.ticks 7).Meaning 3 (some 5) ∧ (b'.ticks 7).verdict ≠ some .extinct ∧
    (∀ id ∈ ([1, 2] : List UInt64), id.toNat < 3) ∧ ([1, 2] : List UInt64).Pairwise (· < ·) ∧
    (1 : UInt64).toNat < 2 ∧ ((ofParts (.blank 8) [] none).ticks 3).verdict = some .extinct := by
  obtain ⟨hparts, hloaded⟩ := verdict_exact
  obtain ⟨b, hload, hdraw, hcontenders, hexecuted⟩ : ∃ b,
      Battle.load [[{ mnemonic := .op .dat }], imp, imp] { coreSize := 12, cycleLimit := some 5 } =
        .ok b ∧ (b.ticks 7).verdict = some (.draw [1, 2]) ∧ b.contenders = 3 ∧
      0 < b.executed 7 :=
    ⟨_, rfl, by decide +kernel, by decide +kernel, by decide +kernel⟩
  obtain ⟨b', hload', hwinner, hcontenders'⟩ : ∃ b',
      Battle.load [[{ mnemonic := .op .dat }], imp] { coreSize := 12 } = .ok b' ∧
        (b'.ticks 7).verdict = some (.winner 1) ∧ b'.contenders = 2 :=
    ⟨_, rfl, by decide +kernel, by decide +kernel⟩
  obtain ⟨hlt, hinc⟩ := (hloaded _ _ b 7 (by decide) hload).2 _ hdraw
  have hlt' := (hloaded _ _ b' 7 (by decide) hload').1 _ hwinner
  obtain ⟨arena, -, rfl⟩ := load_eq_ok hload
  obtain ⟨arena', -, rfl⟩ := load_eq_ok hload'
  have hmeaning := (hparts arena.core arena.warriors (some 5) 7).2.1 hexecuted
  have hends (limit : Option UInt64) :=
    (hparts arena'.core arena'.warriors limit 7).2.2 (Nat.le_of_eq hcontenders'.symm)
  have hnobody := (hparts (.blank 8) [] none 3).1 (by decide +kernel)
  refine ⟨_, _, hload, hload', hdraw, hwinner, ?_, hends _, hlt, hinc, hlt', hnobody⟩
  rwa [show arena.warriors.countP Warrior.alive = 3 from hcontenders] at hmeaning

end Battle
end CoreWar
