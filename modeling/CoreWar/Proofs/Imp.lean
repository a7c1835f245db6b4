/-
# The imp

`MOV 0, 1` copies itself into the next cell and goes on there. A lone imp
never looks at anything but its own cell, so it does not matter what else is
in the core: it overwrites the cells one after the other, goes round the ring
and meets its own trail again, and nothing it meets can end it
(`Battle.Walked.advance`). Only the limit ends the battle, with the imp as the
one survivor.

Key definitions: `Instruction.imp`, `Battle.alone`, `Battle.Walked`.
Key theorems: `Core.step_imp`, `Battle.Walked.advance`, `Battle.alone_runsTo`,
`Battle.lone_imp_walks`.
-/
import CoreWar.Proofs.Endings
import CoreWar.Proofs.LoneProcess
import CoreWar.Proofs.Verdicts

namespace CoreWar

/-- `MOV 0, 1`. -/
def Instruction.imp : Instruction := ⟨.mov, .direct, 0, .direct, 1⟩

theorem Core.step_imp {core : Core} (hs : core.size < 2 ^ 63) {pc : Address}
    (hpc : pc.toNat < core.size) (h : core.read pc = .imp) :
    core.step pc = (⟨pc, .imp, .one (core.offset pc 1), none⟩,
      core.write (core.offset pc 1) .imp) := by
  have hself : core.offset pc 0 = pc := offset_eq_of_add hs hpc (by simp)
  have hoperands : core.operands pc = (.address pc, .address (core.offset pc 1), core) := by
    simp [operands, h, Instruction.imp, resolve, hself]
  have hstep := step_copy (by rw [h]; rfl) hoperands
  rwa [h] at hstep

namespace Battle

/-- The battle of a lone warrior whose process starts at `p`. -/
abbrev alone (core : Core) (id : UInt64) (p : Address) (limit : Option UInt64) : Battle :=
  ofParts core [.start id p] limit

/-- In a battle that began with `core`, the imp has walked `n` cells on from cell `p`. -/
structure Walked (core : Core) (id : UInt64) (p n : Nat) (b : Battle) : Prop where
  size : b.core.size = core.size
  /-- Its one process is `n` cells further, around the ring. -/
  process : ∃ pc, b.warriors = [.start id pc] ∧ pc.toNat = (p + n) % core.size
  /-- The cells it has come through, its own included, hold the imp. -/
  trail : ∀ j ≤ n, b.core.cells[(p + j) % core.size]? = some .imp
  /-- The other cells are as they were. -/
  rest : ∀ x, (∀ j ≤ n, x ≠ (p + j) % core.size) → b.core.cells[x]? = core.cells[x]?
  eliminations : b.eliminations = #[]
  incidents : b.incidents = #[]

section Alone

variable {core : Core} {p : Address} (id : UInt64) (limit : Option UInt64)

theorem walked_alone (hp : core.cells[p.toNat]? = some .imp) :
    (alone core id p limit).Walked core id p.toNat 0 := by
  have hlt : p.toNat < core.size := (Array.getElem?_eq_some_iff.mp hp).1
  have hmod : (p.toNat + 0) % core.size = p.toNat := Nat.mod_eq_of_lt hlt
  refine ⟨rfl, ⟨p, rfl, hmod.symm⟩, fun j hj => ?_, fun _ _ => rfl, rfl, rfl⟩
  obtain rfl : j = 0 := by omega
  rw [hmod]
  exact hp

theorem Walked.advance (hs : core.size < 2 ^ 63) {id : UInt64} {p n : Nat} {b : Battle}
    {w : Warrior} (hw : b.warriors[b.cursor]? = some w) (h : b.Walked core id p n) :
    (b.advance w).2.Walked core id p (n + 1) := by
  obtain ⟨pc, hwarriors, hpc⟩ := h.process
  obtain ⟨hcursor, rfl⟩ : b.cursor = 0 ∧ Warrior.start id pc = w := by
    simpa [hwarriors, List.getElem?_singleton] using hw
  have hpos : 0 < core.size := by
    have hcell := (Array.getElem?_eq_some_iff.mp (h.trail n (Nat.le_refl n))).1
    have hsize : b.core.cells.size = core.size := h.size
    omega
  have hlt : pc.toNat < core.size := hpc ▸ Nat.mod_lt _ hpos
  have hread : b.core.read pc = .imp := by
    refine Core.read_of_cells ?_
    rw [Core.index, h.size, Nat.mod_eq_of_lt hlt, hpc]
    exact h.trail n (Nat.le_refl n)
  have hstep := Core.step_imp (by rw [h.size]; exact hs) (by rw [h.size]; exact hlt) hread
  have hnext : (b.core.offset pc 1).toNat = (p + (n + 1)) % core.size := by
    rw [Core.offset, h.size, offset_one_toNat hpos hs hlt, hpc, Nat.mod_add_mod, Nat.add_assoc]
  have hindex : b.core.index (b.core.offset pc 1) = (p + (n + 1)) % core.size := by
    rw [Core.index, hnext, h.size, Nat.mod_mod]
  rw [advance_start hstep]
  refine ⟨?_, ⟨b.core.offset pc 1, ?_, hnext⟩, fun j hj => ?_, fun x hx => ?_, h.eliminations,
    h.incidents⟩
  · rw [Core.size_write, h.size]
  · simp [hwarriors, hcursor]
  · by_cases hj' : (p + (n + 1)) % core.size = (p + j) % core.size
    · rw [← hj', ← hindex]
      exact Core.cells_write_self (by rw [h.size]; exact hpos) _
    · -- The cell was passed before, so it is none of the two the step is about.
      have hlast : j ≠ n + 1 := fun hj => hj' (by rw [hj])
      rw [Core.cells_write_of_ne (by rw [hindex]; exact hj')]
      exact h.trail j (by omega)
  · have hout : (p + (n + 1)) % core.size ≠ x := (hx (n + 1) (Nat.le_refl _)).symm
    rw [Core.cells_write_of_ne (by rw [hindex]; exact hout)]
    exact h.rest x fun j hj => hx j (by omega)

theorem walked_ticks (hs : core.size < 2 ^ 63) (hp : core.cells[p.toNat]? = some .imp) (n : Nat) :
    ((alone core id p limit).ticks n).Walked core id p.toNat
      ((alone core id p limit).executed n) := by
  induction n with
  | zero => exact walked_alone id limit hp
  | succ n ih =>
    have hr := ready_ticks (ready_ofParts core [.start id p] limit) n
    rw [executed_succ, ticks_succ]
    rcases hr.tick_cases with ⟨v, hv, ht⟩ | ⟨w, hv, hw, -, ht⟩
    · rw [ht, if_neg (by simp [hr.executes_iff, hv])]
      exact ih
    · rw [ht, if_pos (hr.executes_iff.mpr hv)]
      exact ih.advance hs hw

theorem verdict_alone (hs : core.size < 2 ^ 63) (hp : core.cells[p.toNat]? = some .imp) {n : Nat}
    (hn : 0 < (alone core id p limit).executed n) :
    ((alone core id p limit).ticks n).verdict =
      if limit.any (· ≤ ((alone core id p limit).ticks n).cycles) then some (.draw [id])
      else none := by
  obtain ⟨pc, hwarriors, -⟩ := (walked_ticks id limit hs hp n).process
  rw [ticks_verdict core [.start id p] limit n hn, hwarriors]
  simp [judge, survivors, alive_start]

theorem verdict_alone_zero : (alone core id p limit).verdict = none := by
  simp [alone, ofParts, alive_start]

/-- Under a limit the loop stops at the limit, but not before its first turn. -/
theorem alone_runsTo (hs : core.size < 2 ^ 63) (hp : core.cells[p.toNat]? = some .imp)
    (l : UInt64) : RunsTo (alone core id p (some l)) (max l.toNat 1) (.draw [id])
        (alone core id p (some l)).run ∧
      (alone core id p (some l)).run.cycles.toNat = max l.toNat 1 := by
  have hr := ready_ofParts core [.start id p] (some l)
  have hends := (paced_ofParts core [.start id p] l).ends hr
  obtain ⟨n, v, hrun, hv, hcycles⟩ := hends.runs
  have hcount : (alone core id p (some l)).run.cycles.toNat = n := by
    rw [hcycles]
    exact Nat.zero_add n
  have hpos : n ≠ 0 := by
    rintro rfl
    obtain ⟨hzero, hsome⟩ := hrun.ticks
    rw [hzero] at hsome
    exact absurd ((verdict_alone_zero id (some l)).symm.trans hsome) nofun
  have hexec : 0 < (alone core id p (some l)).executed n := by
    rw [hrun.executed_eq hr]
    omega
  have hverdict := verdict_alone id (some l) hs hp hexec
  rw [← hrun.ticks.1, hv] at hverdict
  -- There is a verdict, so the limit is reached, and it is passed only if it is zero.
  split at hverdict
  · rename_i hlimit
    obtain rfl : v = .draw [id] := Option.some.inj hverdict
    have hle : l.toNat ≤ n := by
      have hreached : l ≤ (alone core id p (some l)).run.cycles := by simpa using hlimit
      rw [UInt64.le_iff_toNat_le, hcount] at hreached
      exact hreached
    have hlast := hends.cycles_le
    have hn : n = max l.toNat 1 := by omega
    subst hn
    exact ⟨hrun, hcount⟩
  · cases hverdict

theorem executed_alone (hs : core.size < 2 ^ 63) (hp : core.cells[p.toNat]? = some .imp)
    (n : Nat) : (alone core id p limit).executed n =
      limit.elim n fun l => min n (max l.toNat 1) := by
  have hr := ready_ofParts core [.start id p] limit
  cases limit with
  | none =>
    refine executed_eq hr n ?_
    rcases Nat.eq_zero_or_pos ((alone core id p none).executed n) with hzero | hpos
    · rw [ticks_eq_of_executed_eq_zero hr n hzero]
      exact verdict_alone_zero id none
    · simpa using verdict_alone id none hs hp hpos
  | some l => exact (alone_runsTo id hs hp l).1.executed_eq hr n

/-- **A lone imp lives for ever.** Whatever else is in the core, after each executed tick its one
process is a cell further, around the ring; it has left itself in the cells it came through and
the others as they were, and the records are empty. All ticks are executed up to the limit, if
there is one, and there the battle is drawn with the imp as its survivor. -/
theorem lone_imp_walks (hs : core.size < 2 ^ 63) (hp : core.cells[p.toNat]? = some .imp) :
    (∀ n, (alone core id p limit).executed n = limit.elim n fun l => min n (max l.toNat 1)) ∧
    (∀ n, ((alone core id p limit).ticks n).Walked core id p.toNat
      ((alone core id p limit).executed n)) ∧
    (∀ l, limit = some l → 1 ≤ l.toNat →
      RunsTo (alone core id p limit) l.toNat (.draw [id]) (alone core id p limit).run ∧
        (alone core id p limit).run.cycles = l) := by
  refine ⟨executed_alone id limit hs hp, walked_ticks id limit hs hp, ?_⟩
  rintro l rfl hl
  obtain ⟨hrun, hcycles⟩ := alone_runsTo id hs hp l
  rw [Nat.max_eq_left hl] at hrun hcycles
  exact ⟨hrun, UInt64.toNat_inj.mp hcycles⟩

/-- An imp with a split, a decoy and its own end ahead of it. -/
def hazards : Core :=
  ⟨#[⟨.spl, .direct, 3, .indirect, 2⟩, ⟨.jmp, .immediate, 0, .autodecrement, -4⟩, .neutral, .imp,
    ⟨.mov, .direct, 2, .direct, 4⟩]⟩

/-- Seven ticks take the imp past its start, and twelve to the end. -/
theorem lone_imp_walks_hazards : hazards.size < 2 ^ 63 ∧ hazards.cells[3]? = some .imp ∧
    ((alone hazards 9 3 (some 12)).ticks 7).Walked hazards 9 3 7 ∧
    RunsTo (alone hazards 9 3 (some 12)) 12 (.draw [9]) (alone hazards 9 3 (some 12)).run := by
  have hsize : hazards.size < 2 ^ 63 := by decide
  have himp : hazards.cells[(3 : Address).toNat]? = some .imp := by decide
  obtain ⟨hexec, hwalked, hrun⟩ := lone_imp_walks 9 (some 12) hsize himp
  have hseven := hwalked 7
  rw [hexec] at hseven
  exact ⟨hsize, himp, hseven, (hrun 12 rfl (by decide)).1⟩

end Alone
end Battle
end CoreWar
