/-
# Warriors take turns

Of two warriors that live on, the one that the cursor meets first, going
round from where it stands, has the next turn of the two (`Battle.leads`).
A turn moves the cursor to the next warrior that is alive, so it never jumps
over either of them: the turn of a third warrior leaves the order of the two
as it is, whether or not that warrior dies, and a turn of one of them hands
the lead to the other (`Battle.leads_move`). Hence over any stretch of turns
the two turn counts, each corrected by who has the lead at the end and at the
start, balance exactly (`Battle.turns_balance`).

Key definitions: `Battle.actor?`, `Battle.turns`, `Battle.leads`.
Key theorems: `Battle.leads_move`, `Battle.turns_balance`, `Battle.round_robin`.
-/
import CoreWar.Proofs.Rounds

namespace CoreWar
namespace Battle

/-- The position of the warrior that executes in the next tick, if the tick executes. -/
def actor? (b : Battle) : Option Nat := if b.executes then some b.cursor else none

/-- How many of the `len` ticks from number `start` on are executed by the warrior at
position `i`. -/
def turns (b : Battle) (start len i : Nat) : Nat :=
  (List.range len).countP fun k => (b.ticks (start + k)).actor? = some i

theorem turns_succ (b : Battle) (start len i : Nat) : b.turns start (len + 1) i =
    b.turns start len i + if (b.ticks (start + len)).actor? = some i then 1 else 0 := by
  simp [turns, List.range_succ, List.countP_append, List.countP_singleton]

theorem turns_add (b : Battle) (start m : Nat) : ∀ (n i : Nat),
    b.turns start (m + n) i = b.turns start m i + b.turns (start + m) n i
  | 0, _ => by simp [turns]
  | n + 1, i => by
    rw [← Nat.add_assoc, turns_succ, turns_succ, turns_add b start m n, Nat.add_assoc start]
    omega

/-- How many steps lead from position `c` round to position `i` in a ring of `n`; at least one. -/
def ahead (n c i : Nat) : Nat := if c < i then i - c else i + n - c

/-- Of `i` and `j`, is `i` the first that the cursor meets from `c` on? -/
def leads (n c i j : Nat) : Prop := c = i ∨ c ≠ j ∧ ahead n c i < ahead n c j

instance (n c i j : Nat) : Decidable (leads n c i j) := inferInstanceAs (Decidable (_ ∨ _))

theorem leads_of_eq {n c i : Nat} (h : c = i) (j : Nat) : leads n c i j := .inl h

theorem not_leads_of_eq {n c i j : Nat} (hij : i ≠ j) (h : c = j) : ¬ leads n c i j := by
  rintro (hi | hj)
  · exact hij (hi.symm.trans h)
  · exact hj.1 h

/-! ### One turn -/

/-- Where a way round of at most `n` steps ends. -/
theorem add_mod_ring {n c k : Nat} (hc : c < n) (hk : k < n) :
    (c + 1 + k) % n = if c + 1 + k < n then c + 1 + k else c + 1 + k - n := by
  split
  · exact Nat.mod_eq_of_lt ‹_›
  · rw [Nat.mod_eq_sub_mod (by omega), Nat.mod_eq_of_lt (by omega)]

theorem add_ahead_mod {n c i : Nat} (hc : c < n) (hi : i < n) :
    (c + 1 + (ahead n c i - 1)) % n = i := by
  have hk : ahead n c i - 1 < n := by unfold ahead; split <;> omega
  rw [add_mod_ring hc hk]
  unfold ahead
  split <;> split <;> omega

theorem steps_le_ahead {warriors : List Warrior} {c k i : Nat} (hc : c < warriors.length)
    (hi : aliveAt warriors i = true)
    (hskip : ∀ m < k, aliveAt warriors ((c + 1 + m) % warriors.length) = false) :
    k + 1 ≤ ahead warriors.length c i := by
  have hin := lt_of_aliveAt hi
  have hpos : 0 < ahead warriors.length c i := by unfold ahead; split <;> omega
  refine Nat.le_of_not_lt fun hlt => ?_
  have hdead := hskip (ahead warriors.length c i - 1) (by omega)
  rw [add_ahead_mod hc hin, hi] at hdead
  cases hdead

/-- Moving the cursor on hands the lead over when one of the two had the turn, and else
keeps it. -/
theorem leads_move {warriors : List Warrior} {c i j : Nat} (hc : c < warriors.length)
    (hij : i ≠ j) (hi : aliveAt warriors i = true) (hj : aliveAt warriors j = true) :
    leads warriors.length (nextAlive warriors c) i j ↔
      c ≠ i ∧ (c = j ∨ leads warriors.length c i j) := by
  obtain ⟨k, hk, he, -, hskip⟩ := nextAlive_spec hi c
  have hin := lt_of_aliveAt hi
  have hjn := lt_of_aliveAt hj
  have hki := steps_le_ahead hc hi hskip
  have hkj := steps_le_ahead hc hj hskip
  rw [he, add_mod_ring hc hk]
  unfold leads
  unfold ahead at *
  generalize warriors.length = n at *
  split <;> grind

/-! ### Over a run -/

theorem aliveAt_of_advance {b : Battle} {w : Warrior} (hw : b.warriors[b.cursor]? = some w)
    (ha : w.alive = true) {i : Nat} (h : aliveAt (b.advance w).2.warriors i = true) :
    aliveAt b.warriors i = true := by
  by_cases hi : b.cursor = i
  · subst hi
    exact aliveAt_iff.mpr ⟨w, hw, ha⟩
  · unfold aliveAt at h ⊢
    rwa [advance_warriors, List.getElem?_set_ne hi] at h

section Ready

variable {b : Battle} (hr : b.Ready)

include hr

theorem length_ticks (n : Nat) : (b.ticks n).warriors.length = b.warriors.length :=
  (ticks_induction (P := fun c => c.warriors.length = b.warriors.length) hr rfl
    (fun c w _ _ _ hc => by rw [advance_warriors, List.length_set, hc]) n).2

theorem aliveAt_of_le {m n : Nat} (hmn : m ≤ n) {i : Nat}
    (h : aliveAt (b.ticks n).warriors i = true) : aliveAt (b.ticks m).warriors i = true := by
  obtain ⟨d, rfl⟩ := Nat.exists_eq_add_of_le hmn
  induction d with
  | zero => exact h
  | succ d ih =>
    rw [← Nat.add_assoc, ticks_succ] at h
    rcases (ready_ticks hr (m + d)).tick_cases with ⟨v, -, ht⟩ | ⟨w, -, hw, ha, ht⟩
    · rw [ht] at h
      exact ih (Nat.le_add_right m d) h
    · rw [ht] at h
      exact ih (Nat.le_add_right m d) (aliveAt_of_advance hw ha h)

theorem actor?_of_open {n : Nat} (hv : (b.ticks n).verdict = none) :
    (b.ticks n).actor? = some (b.ticks n).cursor := by
  unfold actor?
  rw [if_pos ((ready_ticks hr n).executes_iff.mpr hv)]

theorem cursor_lt {n : Nat} (hv : (b.ticks n).verdict = none) :
    (b.ticks n).cursor < b.warriors.length := by
  rw [← length_ticks hr n]
  exact lt_of_aliveAt (ready_ticks hr n hv)

/-- The lead after a turn that leaves the battle open. -/
theorem leads_ticks_succ {n i j : Nat} (hij : i ≠ j) (hv : (b.ticks (n + 1)).verdict = none)
    (hi : aliveAt (b.ticks (n + 1)).warriors i = true)
    (hj : aliveAt (b.ticks (n + 1)).warriors j = true) :
    leads b.warriors.length (b.ticks (n + 1)).cursor i j ↔
      (b.ticks n).cursor ≠ i ∧
        ((b.ticks n).cursor = j ∨ leads b.warriors.length (b.ticks n).cursor i j) := by
  have hv0 := open_of_le (Nat.le_succ n) hv
  have hc := cursor_lt hr hv0
  have hlen := length_ticks hr (n + 1)
  obtain ⟨w, hw, -⟩ := aliveAt_iff.mp (ready_ticks hr n hv0)
  rw [ticks_succ, tick_of_open hv0 hw] at hv hi hj hlen ⊢
  rw [advance_cursor_of_open hv]
  rw [← hlen] at hc ⊢
  exact leads_move hc hij hi hj

omit hr in
/-- A turn and the lead behind it weigh as much as the lead before it. -/
theorem lead_account {n c c' i j : Nat} (hij : i ≠ j)
    (h : leads n c' i j ↔ c ≠ i ∧ (c = j ∨ leads n c i j)) :
    (if c = i then 1 else 0) + (if leads n c' i j then 1 else 0) =
      (if c = j then 1 else 0) + if leads n c i j then 1 else 0 := by
  by_cases hci : c = i
  · have hnot : ¬ leads n c' i j := fun h' => (h.mp h').1 hci
    rw [if_pos hci, if_neg hnot, if_neg (fun hcj => hij (hci.symm.trans hcj)),
      if_pos (leads_of_eq hci j)]
  · by_cases hcj : c = j
    · rw [if_neg hci, if_pos (h.mpr ⟨hci, .inl hcj⟩), if_pos hcj, if_neg (not_leads_of_eq hij hcj)]
    · have hkeep : leads n c' i j ↔ leads n c i j :=
        h.trans ⟨fun h' => h'.2.resolve_left hcj, fun h' => ⟨hci, .inr h'⟩⟩
      rw [if_neg hci, if_neg hcj]
      simp only [hkeep]

omit hr in
/-- Only the one in the lead has the turn. -/
theorem turn_le_lead (n c : Nat) {i j : Nat} (hij : i ≠ j) :
    (if c = i then 1 else 0) ≤ (if leads n c i j then 1 else 0) ∧
      (if c = j then 1 else 0) + (if leads n c i j then 1 else 0) ≤ 1 := by
  by_cases hci : c = i
  · rw [if_pos hci, if_pos (leads_of_eq hci j), if_neg (fun hcj => hij (hci.symm.trans hcj))]
    omega
  · by_cases hcj : c = j
    · rw [if_neg hci, if_pos hcj, if_neg (not_leads_of_eq hij hcj)]
      omega
    · rw [if_neg hci, if_neg hcj]
      split <;> omega

/-- **Turns balance.** Between two open states, the turns of `i` and the lead it has at the
end are as many as the turns of `j` and the lead that `i` had at the start. -/
theorem turns_balance {i j : Nat} (hij : i ≠ j) (start : Nat) : ∀ len : Nat,
    (b.ticks (start + len)).verdict = none →
    aliveAt (b.ticks (start + len)).warriors i = true →
    aliveAt (b.ticks (start + len)).warriors j = true →
    b.turns start len i +
        (if leads b.warriors.length (b.ticks (start + len)).cursor i j then 1 else 0) =
      b.turns start len j +
        if leads b.warriors.length (b.ticks start).cursor i j then 1 else 0
  | 0, _, _, _ => by simp [turns]
  | len + 1, hv, hi, hj => by
    have hle : start + len ≤ start + (len + 1) := by omega
    have hv0 := open_of_le hle hv
    have ih := turns_balance hij start len hv0 (aliveAt_of_le hr hle hi) (aliveAt_of_le hr hle hj)
    rw [← Nat.add_assoc] at hv hi hj ⊢
    have hstep := lead_account hij (leads_ticks_succ hr hij hv hi hj)
    rw [turns_succ, turns_succ, actor?_of_open hr hv0]
    simp only [Option.some.injEq]
    omega

end Ready

/-- **Round robin.** Let all ticks of a stretch be executed, and let the warriors at the
positions `i` and `j` be alive at its end. Then their turns in it differ by at most one, and
between two turns of `i` without another one of `i` there is exactly one turn of `j`. -/
theorem round_robin (core : Core) (warriors : List Warrior) (limit : Option UInt64)
    {start len i j : Nat}
    (hexec : ∀ k < len, ((ofParts core warriors limit).ticks (start + k)).executes = true)
    (hij : i ≠ j)
    (hi : aliveAt ((ofParts core warriors limit).ticks (start + len)).warriors i = true)
    (hj : aliveAt ((ofParts core warriors limit).ticks (start + len)).warriors j = true) :
    ((ofParts core warriors limit).turns start len i ≤
        (ofParts core warriors limit).turns start len j + 1 ∧
      (ofParts core warriors limit).turns start len j ≤
        (ofParts core warriors limit).turns start len i + 1) ∧
    ∀ p q, start ≤ p → p < q → q < start + len →
      ((ofParts core warriors limit).ticks p).actor? = some i →
      ((ofParts core warriors limit).ticks q).actor? = some i →
      (ofParts core warriors limit).turns (p + 1) (q - (p + 1)) i = 0 →
      (ofParts core warriors limit).turns (p + 1) (q - (p + 1)) j = 1 := by
  have hr := ready_ofParts core warriors limit
  generalize ofParts core warriors limit = b at *
  have hopen : ∀ p, start ≤ p → p < start + len → (b.ticks p).verdict = none := by
    intro p hp hp'
    obtain ⟨k, rfl⟩ := Nat.exists_eq_add_of_le hp
    exact (ready_ticks hr _).executes_iff.mp (hexec k (by omega))
  constructor
  · cases len with
    | zero => simp [turns]
    | succ len =>
      -- the last tick may decide the battle, so the balance is taken in front of it
      have hle : start + len ≤ start + (len + 1) := by omega
      have hv := hopen (start + len) (by omega) (by omega)
      have hbal := turns_balance hr hij start len hv (aliveAt_of_le hr hle hi)
        (aliveAt_of_le hr hle hj)
      rw [turns_succ, turns_succ, actor?_of_open hr hv]
      simp only [Option.some.injEq]
      have hlast := turn_le_lead b.warriors.length (b.ticks (start + len)).cursor hij
      have hfirst := turn_le_lead b.warriors.length (b.ticks start).cursor hij
      omega
  · intro p q hp hpq hq hap haq hnone
    have hvp := hopen p hp (by omega)
    have hvq := hopen q (by omega) hq
    rw [actor?_of_open hr hvp] at hap
    rw [actor?_of_open hr hvq] at haq
    have hcp := Option.some.inj hap
    have hcq := Option.some.inj haq
    have hpq' : p + (1 + (q - (p + 1))) = q := by omega
    have hbal := turns_balance hr hij p (1 + (q - (p + 1))) (by rw [hpq']; exact hvq)
      (aliveAt_of_le hr (by omega) hi) (aliveAt_of_le hr (by omega) hj)
    rw [hpq', if_pos (leads_of_eq hcq j), if_pos (leads_of_eq hcp j), turns_add, turns_add,
      hnone] at hbal
    have hone : b.turns p 1 i = 1 ∧ b.turns p 1 j = 0 := by
      simp only [turns, List.range_one, List.countP_singleton, Nat.add_zero,
        actor?_of_open hr hvp, hcp]
      simp [hij]
    omega

/-- A warrior that splits, one that ends at once, and one that waits. -/
def melee : Battle :=
  ofParts ⟨#[⟨.spl, .direct, 0, .direct, 0⟩, ⟨.jmp, .direct, 0, .direct, 0⟩, .neutral]⟩
    [.start 0 0, .start 1 2, .start 2 1] none

/-- The second warrior dies between the first two turns of the first, and the third has
its turn there. -/
theorem round_robin_melee : aliveAt (melee.ticks 2).warriors 1 = false ∧
    melee.turns 0 6 0 ≤ melee.turns 0 6 2 + 1 ∧ melee.turns 1 2 2 = 1 := by
  have hexec : ∀ k < 6, (melee.ticks (0 + k)).executes = true := by decide +kernel
  obtain ⟨⟨hle, -⟩, hbetween⟩ := round_robin _ _ _ hexec (i := 0) (j := 2) (by decide)
    (by decide +kernel) (by decide +kernel)
  refine ⟨by decide +kernel, hle, ?_⟩
  exact hbetween 0 3 (by decide) (by decide) (by decide) (by decide +kernel) (by decide +kernel)
    (by decide +kernel)

end Battle
end CoreWar
