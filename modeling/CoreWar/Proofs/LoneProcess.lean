/-
# Warriors with one process

As long as the only process of a warrior runs instructions with one successor
each, nothing joins its queue but where the process goes on, so the battle can
be followed from place to place: behind the turn the warrior has its one
process again (`Battle.advance_start`), and the rest of the battle is what the
core and the counter make of it. Between two such warriors, 0 and 1, the turns
alternate (`Battle.tick_duel_first`, `Battle.tick_duel_second`) until one of
them comes upon a `DAT` (`Battle.tick_duel_falls`) or the limit is reached.

The steps of such processes are given for operands that lead to cells and take
nothing from them: `MOV` copies a cell (`Core.step_copy`), `ADD` with a number
adds to a B-field (`Core.step_count`), `JMP` goes where A leads
(`Core.step_jump`).

Key definitions: `Battle.duel`, `Battle.Allows`.
Key theorems: `Core.step_copy`, `Core.step_count`, `Core.step_jump`,
`Battle.advance_start`, `Battle.tick_duel_first`, `Battle.tick_duel_second`,
`Battle.tick_duel_falls`.
-/
import CoreWar.Proofs.LoadedCells
import CoreWar.Proofs.Soundness
import CoreWar.Proofs.Succession
import Mathlib.Data.List.Nodup

namespace CoreWar

/-! ### Reading a core that was written to -/

namespace Core

variable {core : Core}

theorem read_of_cells {a : Address} {i : Instruction}
    (h : core.cells[core.index a]? = some i) : core.read a = i := by
  rw [read, Array.getD_eq_getD_getElem?, h]
  rfl

/-- A write to an address of the ring is not seen at the others. -/
theorem read_write_of_ne {a b : Address} (ha : a.toNat < core.size) (hb : b.toNat < core.size)
    (h : a ≠ b) (i : Instruction) : (core.write a i).read b = core.read b := by
  have hindex : core.index a ≠ core.index b := by
    unfold index
    rw [Nat.mod_eq_of_lt ha, Nat.mod_eq_of_lt hb]
    exact fun he => h (UInt64.toNat_inj.mp he)
  unfold read
  rw [index_write, Array.getD_eq_getD_getElem?, cells_write_of_ne hindex,
    ← Array.getD_eq_getD_getElem?]

theorem cells_write_self {a : Address} (hs : 0 < core.size) (i : Instruction) :
    (core.write a i).cells[core.index a]? = some i :=
  Array.getElem?_setIfInBounds_self_of_lt (index_lt hs a)

theorem read_write_self {a : Address} (hs : 0 < core.size) (i : Instruction) :
    (core.write a i).read a = i := by
  refine read_of_cells ?_
  rw [index_write]
  exact cells_write_self hs i

@[simp] theorem size_writes (cells : List (Address × Instruction)) (core : Core) :
    (core.writes cells).size = core.size := by
  induction cells generalizing core with
  | nil => rfl
  | cons c cells ih => rw [writes_cons, ih, size_write]

/-- Of writes to different addresses of the ring each is read back. -/
theorem read_writes {cells : List (Address × Instruction)} {a : Address} {i : Instruction}
    (hring : ∀ b ∈ cells.map Prod.fst, b.toNat < core.size)
    (hnodup : (cells.map Prod.fst).Nodup) (h : (a, i) ∈ cells) :
    (core.writes cells).read a = i := by
  have hlt (c : Address × Instruction) (hc : c ∈ cells) : c.1.toNat < core.size :=
    hring c.1 (List.mem_map_of_mem hc)
  have hindex (c : Address × Instruction) (hc : c ∈ cells) : core.index c.1 = c.1.toNat :=
    Nat.mod_eq_of_lt (hlt c hc)
  have hpos : 0 < core.size := Nat.lt_of_le_of_lt (Nat.zero_le _) (hlt _ h)
  refine read_of_cells ?_
  rw [index, size_writes]
  refine cells_writes_of_mem (index_lt hpos a) ⟨_, h, rfl⟩ fun c hc he => ?_
  have haddress : c.1 = a := by
    refine UInt64.toNat_inj.mp ?_
    rw [← hindex c hc, ← hindex _ h]
    exact he
  rw [List.inj_on_of_nodup_map hnodup hc h haddress]

/-! ### Steps with one successor -/

variable {pc src dst : Address} {b : Operand}

/-- A copy from one cell to another. -/
theorem step_copy (hop : (core.read pc).opcode = .mov)
    (h : core.operands pc = (.address src, .address dst, core)) :
    core.step pc = (⟨pc, core.read pc, .one (core.offset pc 1), none⟩,
      core.write dst (core.read src)) := by
  have hf : (core.read pc).fault? = none := by simp [Instruction.fault?, hop]
  rw [step_of_allowed hf (by simp [hop]), h]
  simp only [Instruction.effect, hop, Instruction.move]

/-- A number that is added to the B-field of a cell. -/
theorem step_count {v : Field} (hop : (core.read pc).opcode = .add)
    (hmode : (core.read pc).bMode ≠ .immediate)
    (h : core.operands pc = (.immediate v, .address dst, core)) :
    core.step pc = (⟨pc, core.read pc, .one (core.offset pc 1), none⟩,
      core.write dst { core.read dst with bField := (core.read dst).bField + v }) := by
  have hf : (core.read pc).fault? = none := by
    simp [Instruction.fault?, hop, Instruction.isImmediate_iff, hmode]
  rw [step_of_allowed hf (by simp [hop]), h]
  simp [Instruction.effect, hop, Instruction.arithmetic, Instruction.target, Operand.address?,
    Instruction.combine, modify_eq_write]

/-- A jump. -/
theorem step_jump (hop : (core.read pc).opcode = .jmp) (hmode : (core.read pc).aMode ≠ .immediate)
    (h : core.operands pc = (.address dst, b, core)) :
    core.step pc = (⟨pc, core.read pc, .one dst, none⟩, core) := by
  have hf : (core.read pc).fault? = none := by
    simp [Instruction.fault?, hop, Instruction.isImmediate_iff, hmode]
  rw [step_of_allowed hf (by simp [hop]), h]
  simp [Instruction.effect, hop, Instruction.jump, Operand.address?]

end Core

/-! ### Turns -/

section Turn

variable {core after : Core} {id : UInt64} {pc next : Address} {i : Instruction}

@[simp] theorem Warrior.id_start : (start id pc).id = id := rfl

/-- A process that goes on is the only one again. -/
theorem Warrior.act_start (h : core.step pc = (⟨pc, i, .one next, none⟩, after)) :
    (start id pc).act core = (some ⟨pc, i, .one next, none⟩, start id next, after) := by
  rw [act_of_cons (ProcessQueue.toList_ofList [pc]), h]
  rfl

/-- A turn in which the only process of a warrior goes on. -/
theorem Battle.advance_start {b : Battle}
    (h : b.core.step pc = (⟨pc, i, .one next, none⟩, after)) :
    (b.advance (.start id pc)).2 = { b with
      core := after
      warriors := b.warriors.set b.cursor (.start id next)
      cursor := if (judge b.contenders b.limit (b.cycles + 1)
          (b.warriors.set b.cursor (.start id next))).isSome then b.cursor
        else nextAlive (b.warriors.set b.cursor (.start id next)) b.cursor
      cycles := b.cycles + 1
      verdict := judge b.contenders b.limit (b.cycles + 1)
        (b.warriors.set b.cursor (.start id next)) } := by
  simp only [advance, Warrior.act_start h, alive_start, Turn.elimination?, Turn.incident?]
  rfl

end Turn

/-! ### Duels -/

namespace Battle

/-- An open battle of two warriors with one process each, at `p` and at `q`, in which nothing was
recorded yet. -/
def duel (core : Core) (p q : Address) (cursor cycles : Nat) (limit : Option UInt64) : Battle where
  core := core
  warriors := [.start 0 p, .start 1 q]
  cursor := cursor
  cycles := UInt64.ofNat cycles
  limit := limit
  contenders := 2
  verdict := none
  eliminations := #[]
  incidents := #[]

/-- The limit, if there is one, is not reached after `k` turns. -/
def Allows (limit : Option UInt64) (k : Nat) : Prop := ∀ l, limit = some l → k < l.toNat

theorem Allows.mono {limit : Option UInt64} {k m : Nat} (hkm : k ≤ m) (h : Allows limit m) :
    Allows limit k := fun l hl => Nat.lt_of_le_of_lt hkm (h l hl)

theorem Allows.any_eq_false {limit : Option UInt64} {k : Nat} (h : Allows limit k) :
    limit.any (· ≤ UInt64.ofNat k) = false := by
  cases limit with
  | none => rfl
  | some l =>
    have hk : k < l.toNat := h l rfl
    have hword : (UInt64.ofNat k).toNat = k :=
      UInt64.toNat_ofNat_of_lt' (Nat.lt_trans hk l.toNat_lt)
    simp [UInt64.lt_iff_toNat_lt, hword, hk]

section Duel

variable {core after : Core} {p q next : Address} {i : Instruction} {k : Nat}
  {limit : Option UInt64}

theorem ofParts_duel :
    ofParts core [.start 0 p, .start 1 q] limit = duel core p q 0 0 limit := by
  unfold ofParts duel
  simp [alive_start, List.findIdx?_cons]

theorem judge_duel (hl : Allows limit (k + 1)) :
    judge 2 limit (UInt64.ofNat k + 1) [.start 0 p, .start 1 q] = none := by
  have hbelow : limit.any (· ≤ UInt64.ofNat k + 1) = false := by
    simpa [UInt64.ofNat_add] using hl.any_eq_false
  simp [judge, survivors, alive_start, hbelow]

/-- The first warrior goes on, and it is the turn of the second. -/
theorem tick_duel_first (hl : Allows limit (k + 1))
    (h : core.step p = (⟨p, i, .one next, none⟩, after)) :
    (duel core p q 0 k limit).tick = duel after next q 1 (k + 1) limit := by
  rw [tick_of_open rfl rfl, advance_start h]
  have hopen := judge_duel (p := next) (q := q) hl
  have hturn : nextAlive [.start 0 next, .start 1 q] 0 = 1 := by
    simp [nextAlive, List.range_succ, alive_start]
  simp [duel, hopen, hturn]

/-- The second warrior goes on, and it is the turn of the first. -/
theorem tick_duel_second (hl : Allows limit (k + 1))
    (h : core.step q = (⟨q, i, .one next, none⟩, after)) :
    (duel core p q 1 k limit).tick = duel after p next 0 (k + 1) limit := by
  rw [tick_of_open rfl rfl, advance_start h]
  have hopen := judge_duel (p := p) (q := next) hl
  have hturn : nextAlive [.start 0 p, .start 1 next] 1 = 0 := by
    simp [nextAlive, List.range_succ, alive_start]
  simp [duel, hopen, hturn]

/-- The second warrior comes upon a `DAT`, and the first has won, whatever the limit. -/
theorem tick_duel_falls (h : (core.read q).opcode = .dat) :
    (duel core p q 1 k limit).tick = { duel core p q 1 (k + 1) limit with
      warriors := [.start 0 p, ⟨1, .ofList []⟩]
      verdict := some (.winner 0)
      eliminations := #[⟨1, UInt64.ofNat (k + 1)⟩] } := by
  have hact : (Warrior.start 1 q).act core =
      (some ⟨q, core.read q, .none, none⟩, ⟨1, .ofList []⟩, core) := by
    rw [Warrior.act_of_cons (ProcessQueue.toList_ofList [q]), Core.step_of_dat h]
    rfl
  have hdead : (⟨1, .ofList []⟩ : Warrior).alive = false := rfl
  rw [tick_of_open rfl rfl]
  unfold advance duel
  simp [hact, hdead, judge, survivors, alive_start, Turn.elimination?, Turn.incident?]

end Duel

end Battle

end CoreWar
