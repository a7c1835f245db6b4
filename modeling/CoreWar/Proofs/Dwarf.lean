/-
# The dwarf

The dwarf throws a `DAT` at every fourth cell. Its code is a loop of three
instructions and a fourth cell, the bomb, which is both what it throws and its
pointer: `ADD` moves the pointer on by four, `MOV` throws the bomb to where it
points, `JMP` goes back. In a ring of `4 * m` cells the bombs thus fall into
the cells `4 * i + 3`, of which the first `m - 1` lie behind the dwarf's own
code.

A victim that loops in cell `4 * j + 3` is hit by bomb number `j` and falls in
its next turn. Between the two each round of the dwarf takes six turns, of
which its throw is the third (`Battle.round`), so that is turn `6 * j - 2`
(`Battle.dwarf_hits`).

Key definitions: `dwarf`, `victim`, `Core.Armed`, `Core.Clear`.
Key theorems: `Core.Armed.write`, `Core.Armed.reload`, `load_dwarf`,
`Battle.round`, `Battle.rounds`, `Battle.hit`, `Battle.dwarf_hits`.
-/
import CoreWar.Proofs.Endings
import CoreWar.Proofs.Inlining
import CoreWar.Proofs.LoneProcess
import CoreWar.Proofs.Overlaps

namespace CoreWar

/-- The dwarf: it throws its fourth cell at every fourth cell. -/
def dwarf : Program :=
  [{ mnemonic := .op .add, label := some "top", aMode := .immediate, aField := .symbol "step",
      bField := .symbol "bomb" },
    { mnemonic := .op .mov, aField := .symbol "bomb", bMode := .indirect,
      bField := .symbol "bomb" },
    { mnemonic := .op .jmp, aField := .symbol "top" },
    { mnemonic := .op .dat, label := some "bomb", aMode := .immediate, bMode := .immediate },
    .constant "step" (.literal 4)]

/-- A program that stays where it is. -/
def victim : Program := [{ mnemonic := .op .jmp }]

/-! ### The dwarf in the core -/

namespace Instruction

/-- `ADD #4, 3`. -/
def aim : Instruction := ⟨.add, .immediate, 4, .direct, 3⟩

/-- `MOV 2, @2`. -/
def throw : Instruction := ⟨.mov, .direct, 2, .indirect, 2⟩

/-- `JMP -2, 0`. -/
def back : Instruction := ⟨.jmp, .direct, -2, .direct, 0⟩

/-- `JMP 0, 0`. -/
def stay : Instruction := ⟨.jmp, .direct, 0, .direct, 0⟩

/-- The bomb when it points `4 * i` cells ahead. -/
def bomb (i : Nat) : Instruction := ⟨.dat, .immediate, 0, .immediate, Int64.ofNat (4 * i)⟩

theorem bomb_succ (i : Nat) :
    { bomb i with bField := (bomb i).bField + 4 } = bomb (i + 1) := by
  have hsum : Int64.ofNat (4 * i) + 4 = Int64.ofNat (4 * (i + 1)) := by
    rw [Nat.mul_add, Int64.ofNat_add]
    rfl
  simp only [bomb, hsum]

end Instruction

namespace Core

/-- A ring of `size` cells with the dwarf in its first four, its bomb pointing `4 * i` cells
ahead, and the victim at `v`. -/
structure Armed (size : Nat) (v : Address) (i : Nat) (core : Core) : Prop where
  size : core.size = size
  aim : core.read 0 = .aim
  throw : core.read 1 = .throw
  back : core.read 2 = .back
  bomb : core.read 3 = .bomb i
  victim : core.read v = .stay

/-- The place of a victim: in the ring, and not in the dwarf. -/
structure Clear (size : Nat) (v : Address) : Prop where
  lt : v.toNat < size
  size_lt : size < 2 ^ 63
  behind : 3 < v.toNat

namespace Clear

variable {size : Nat} {v : Address} (hv : Clear size v)

include hv

theorem code_lt {a : Address} (ha : a.toNat ≤ 3) : a.toNat < size :=
  Nat.lt_of_le_of_lt ha (Nat.lt_trans hv.behind hv.lt)

theorem code_ne {a : Address} (ha : a.toNat ≤ 3) : a ≠ v := by
  rintro rfl
  exact absurd hv.behind (Nat.not_lt.mpr ha)

end Clear

namespace Armed

variable {size i : Nat} {v : Address} {core : Core}

theorem read_write (h : core.Armed size v i) {a x : Address} (ha : a.toNat < size)
    (hx : x.toNat < size) (hne : a ≠ x) (c : Instruction) :
    (core.write a c).read x = core.read x :=
  read_write_of_ne (by rwa [h.size]) (by rwa [h.size]) hne c

variable (hv : Clear size v)

include hv

theorem offset_eq (h : core.Armed size v i) {a b : Address} {delta : Field}
    (hb : b.toNat < size) (hsum : (a.toNat : Int) + delta.toInt = b.toNat) :
    core.offset a delta = b := by
  unfold offset
  rw [h.size]
  exact offset_eq_of_add hv.size_lt hb hsum

theorem write (h : core.Armed size v i) {a : Address} (ha : a.toNat < size) (hbehind : 3 < a.toNat)
    (hne : a ≠ v) (c : Instruction) : (core.write a c).Armed size v i := by
  have hcode {x : Address} (hx : x.toNat ≤ 3) : (core.write a c).read x = core.read x := by
    refine h.read_write ha (by omega) ?_ c
    rintro rfl
    omega
  constructor
  · rw [size_write, h.size]
  · rw [hcode (by decide), h.aim]
  · rw [hcode (by decide), h.throw]
  · rw [hcode (by decide), h.back]
  · rw [hcode (by decide), h.bomb]
  · rw [h.read_write ha hv.lt hne, h.victim]

theorem reload (h : core.Armed size v i) : (core.write 3 (.bomb (i + 1))).Armed size v (i + 1) := by
  have hbomb : (3 : Address).toNat < size := hv.code_lt (by decide)
  have hcode {x : Address} (hx : x.toNat < 3) :
      (core.write 3 (.bomb (i + 1))).read x = core.read x := by
    refine h.read_write hbomb (hv.code_lt (by omega)) ?_ _
    rintro rfl
    exact absurd hx (by decide)
  constructor
  · rw [size_write, h.size]
  · rw [hcode (by decide), h.aim]
  · rw [hcode (by decide), h.throw]
  · rw [hcode (by decide), h.back]
  · refine read_write_self ?_ _
    rw [h.size]
    exact Nat.lt_of_le_of_lt (Nat.zero_le _) hbomb
  · rw [h.read_write hbomb hv.lt (hv.code_ne (by decide)), h.victim]

/-! What the four instructions do. -/

theorem step_aim (h : core.Armed size v i) :
    core.step 0 = (⟨0, .aim, .one 1, none⟩, core.write 3 (.bomb (i + 1))) := by
  have hpointer : core.offset 0 3 = 3 := h.offset_eq hv (hv.code_lt (by decide)) rfl
  have hnext : core.offset 0 1 = 1 := h.offset_eq hv (hv.code_lt (by decide)) rfl
  have hoperands : core.operands 0 = (.immediate 4, .address 3, core) := by
    simp [operands, h.aim, Instruction.aim, resolve, hpointer]
  rw [step_count (by rw [h.aim]; rfl) (by rw [h.aim]; decide) hoperands, h.aim, h.bomb,
    hnext, Instruction.bomb_succ]

theorem step_throw (h : core.Armed size v i) {a : Address} (ha : a.toNat = 4 * i + 3)
    (hlt : a.toNat < size) :
    core.step 1 = (⟨1, .throw, .one 2, none⟩, core.write a (.bomb i)) := by
  have hpointer : core.offset 1 2 = 3 := h.offset_eq hv (hv.code_lt (by decide)) rfl
  have hnext : core.offset 1 1 = 2 := h.offset_eq hv (hv.code_lt (by decide)) rfl
  have hfar : core.offset 3 (Int64.ofNat (4 * i)) = a := by
    have hfit := hv.size_lt
    refine h.offset_eq hv hlt ?_
    rw [Int64.toInt_ofNat_of_lt (by omega), ha]
    exact Int.add_comm 3 (4 * i : Nat)
  have hoperands : core.operands 1 = (.address 3, .address a, core) := by
    simp only [operands, h.throw, Instruction.throw, resolve, hpointer, h.bomb,
      Instruction.bomb, hfar]
  rw [step_copy (by rw [h.throw]; rfl) hoperands, h.throw, h.bomb, hnext]

theorem step_back (h : core.Armed size v i) :
    core.step 2 = (⟨2, .back, .one 0, none⟩, core) := by
  have htop : core.offset 2 (-2) = 0 := h.offset_eq hv (hv.code_lt (by decide)) rfl
  have hoperands : core.operands 2 = (.address 0, .address (core.offset 2 0), core) := by
    simp [operands, h.back, Instruction.back, resolve, htop]
  rw [step_jump (by rw [h.back]; rfl) (by rw [h.back]; decide) hoperands, h.back]

theorem step_stay (h : core.Armed size v i) :
    core.step v = (⟨v, .stay, .one v, none⟩, core) := by
  have hself : core.offset v 0 = v := h.offset_eq hv hv.lt (by simp)
  have hoperands : core.operands v = (.address v, .address v, core) := by
    simp [operands, h.victim, Instruction.stay, resolve, hself]
  rw [step_jump (by rw [h.victim]; rfl) (by rw [h.victim]; decide) hoperands, h.victim]

end Armed
end Core

/-! ### Loading -/

section Load

variable {s : Settings} {v : Address} (hv : Core.Clear s.coreSize.toNat v)

include hv

theorem place_dwarf (hpositions : s.startPositions = some [0, v]) :
    place [4, 1] s = .ok [0, v] := by
  have hzero : (0 : Address).toNat < s.coreSize.toNat := hv.code_lt (by decide)
  obtain ⟨hlt, hfit, hbehind⟩ := hv
  have hroom : HasRoom [4, 1] s.coreSize := by
    refine ⟨by simp, by simp, ?_⟩
    show 5 ≤ s.coreSize.toNat
    omega
  have hreduce : [0, v].map (· % s.coreSize) = [0, v] := by
    have hmod {a : Address} (ha : a.toNat < s.coreSize.toNat) : a % s.coreSize = a := by
      apply UInt64.toNat_inj.mp
      rw [UInt64.toNat_mod, Nat.mod_eq_of_lt ha]
    rw [List.map_cons, List.map_cons, List.map_nil, hmod hzero, hmod hlt]
  have hforward : (Placement.ahead s.coreSize 0 v).toNat = v.toNat := by
    rw [Placement.toNat_ahead (by omega) hzero hlt, UInt64.toNat_zero, Nat.sub_zero,
      Nat.add_mod_right, Nat.mod_eq_of_lt hlt]
  have hround : (Placement.ahead s.coreSize v 0).toNat = s.coreSize.toNat - v.toNat := by
    rw [Placement.toNat_ahead (by omega) hlt hzero, UInt64.toNat_zero, Nat.zero_add]
    exact Nat.mod_eq_of_lt (by omega)
  have hclear : ¬ Placement.ahead s.coreSize 0 v < 4 := by
    rw [UInt64.lt_iff_toNat_lt, hforward]
    exact Nat.not_lt.mpr hbehind
  have hclear' : ¬ Placement.ahead s.coreSize v 0 < 1 := by
    rw [UInt64.lt_iff_toNat_lt, hround]
    exact Nat.not_lt.mpr (Nat.sub_pos_of_lt hlt)
  have hnone : Placement.firstOverlap? s.coreSize
      (([0, v].map (· % s.coreSize)).zipWith Placement.Region.mk [4, 1]) = none := by
    rw [hreduce]
    simp [Placement.firstOverlap?, Placement.overlap, hclear, hclear']
  rw [place_eq_chosen hroom hpositions rfl hnone, hreduce]

end Load

/-- The cells of the dwarf at the origin of the ring. -/
def dwarfCells : List (Address × Instruction) :=
  [(0, .aim), (1, .throw), (2, .back), (3, .bomb 0)]

theorem link_dwarf {size : Nat} (hs : 4 < size) (hs' : size < 2 ^ 63) :
    link size dwarf 0 = .ok ⟨dwarfCells, 0, none⟩ := by
  have hone : offset size 0 1 = 1 := offset_eq_of_add hs' (Nat.lt_trans (by decide) hs) rfl
  have htwo : offset size 1 1 = 2 := offset_eq_of_add hs' (Nat.lt_trans (by decide) hs) rfl
  have hthree : offset size 2 1 = 3 := offset_eq_of_add hs' (Nat.lt_trans (by decide) hs) rfl
  simp only [link, dwarf, outline, hone, htwo, hthree]
  rfl

theorem link_victim (size : Nat) (v : Address) :
    link size victim v = .ok ⟨[(v, .stay)], v, none⟩ := rfl

/-- The cells that loading writes hold dwarf and victim. -/
theorem Core.armed_writes {size : Nat} {v : Address} (hv : Core.Clear size v) :
    ((Core.blank size).writes (dwarfCells ++ [(v, .stay)])).Armed size v 0 := by
  have hring : ∀ a ∈ [0, 1, 2, 3, v], a.toNat < (blank size).size := by
    rw [size_blank]
    simp only [List.forall_mem_cons]
    exact ⟨hv.code_lt (by decide), hv.code_lt (by decide), hv.code_lt (by decide),
      hv.code_lt (by decide), hv.lt, by simp⟩
  have hnodup : [0, 1, 2, 3, v].Nodup := by
    simp [hv.code_ne]
  constructor
  · rw [size_writes, size_blank]
  all_goals exact read_writes hring hnodup (by simp [dwarfCells])

/-- The battle begins with the dwarf armed, its bomb in front of its first throw. -/
theorem load_dwarf {s : Settings} {v : Address} (hv : Core.Clear s.coreSize.toNat v)
    (hpositions : s.startPositions = some [0, v]) : ∃ core : Core,
      core.Armed s.coreSize.toNat v 0 ∧
        Battle.load [dwarf, victim] s = .ok (Battle.duel core 0 v 0 0 s.cycleLimit) := by
  have hlt := hv.lt
  have hbehind := hv.behind
  have hplace : place ([dwarf, victim].map fun p => UInt64.ofNat p.footprint) s = .ok [0, v] :=
    place_dwarf hv hpositions
  have hfoot : ∀ p ∈ [dwarf, victim], 0 < p.footprint := by
    simp only [List.forall_mem_cons]
    decide
  have hplan : plan [dwarf, victim] s = .ok [⟨0, dwarf, 0⟩, ⟨1, victim, v⟩] :=
    plan_of_place (by simp) (by omega) hfoot hplace
  have hdwarf : Job.link s.coreSize.toNat ⟨0, dwarf, 0⟩ = .ok ⟨dwarfCells, 0, none⟩ :=
    mapError_eq_ok.mpr (link_dwarf (by omega) hv.size_lt)
  have hvictim : Job.link s.coreSize.toNat ⟨1, victim, v⟩ = .ok ⟨[(v, .stay)], v, none⟩ :=
    mapError_eq_ok.mpr (link_victim _ v)
  have hlinks : [⟨0, dwarf, 0⟩, ⟨1, victim, v⟩].mapM (Job.link s.coreSize.toNat) =
      .ok [⟨dwarfCells, 0, none⟩, ⟨[(v, .stay)], v, none⟩] := by
    rw [List.mapM_cons, List.mapM_cons, hdwarf, hvictim]
    rfl
  have harena : load [dwarf, victim] s = .ok ⟨(Core.blank s.coreSize.toNat).writes
      (dwarfCells ++ [(v, .stay)]), [.start 0 0, .start 1 v]⟩ := by
    rw [load, hplan, Except.bind, hlinks]
    exact congrArg (fun core => Except.ok (Arena.mk core _)) (Core.foldl_install _ _)
  refine ⟨_, Core.armed_writes hv, ?_⟩
  rw [Battle.load, harena]
  exact congrArg Except.ok Battle.ofParts_duel

/-! ### The battle -/

namespace Battle

section Rounds

variable {size i k : Nat} {v : Address} {core : Core} {limit : Option UInt64}
  (hv : Core.Clear size v) (h : core.Armed size v i)

include hv h

/-- Two turns in which the dwarf makes its next bomb. -/
theorem ticks_aim (hl : Allows limit (k + 2)) :
    (duel core 0 v 0 k limit).ticks 2 =
      duel (core.write 3 (.bomb (i + 1))) 1 v 0 (k + 2) limit := by
  have hfirst := tick_duel_first (hl.mono (by omega)) (h.step_aim hv) (q := v) (k := k)
  have hsecond := tick_duel_second hl ((h.reload hv).step_stay hv) (p := 1)
  show (duel core 0 v 0 k limit).tick.tick = _
  rw [hfirst, hsecond]

/-- A round that misses: six turns, in which the bomb is made and thrown. -/
theorem round (hl : Allows limit (k + 6)) {a : Address} (ha : a.toNat = 4 * (i + 1) + 3)
    (hlt : a.toNat < size) (hmiss : a ≠ v) :
    (duel core 0 v 0 k limit).ticks 6 =
        duel ((core.write 3 (.bomb (i + 1))).write a (.bomb (i + 1))) 0 v 0 (k + 6) limit ∧
      ((core.write 3 (.bomb (i + 1))).write a (.bomb (i + 1))).Armed size v (i + 1) := by
  have hloaded := h.reload hv
  have hthrown := hloaded.write hv hlt (by omega) hmiss (.bomb (i + 1))
  refine ⟨?_, hthrown⟩
  have haim := ticks_aim hv h (hl.mono (show k + 2 ≤ k + 6 by omega))
  have hthrow := tick_duel_first (hl.mono (by omega)) (hloaded.step_throw hv ha hlt) (q := v)
    (k := k + 2)
  have hstay := tick_duel_second (hl.mono (by omega)) (hthrown.step_stay hv) (p := 2) (k := k + 3)
  have hback := tick_duel_first (hl.mono (by omega)) (hthrown.step_back hv) (q := v) (k := k + 4)
  have hstay' := tick_duel_second hl (hthrown.step_stay hv) (p := 0) (k := k + 5)
  calc (duel core 0 v 0 k limit).ticks 6
      = ((duel core 0 v 0 k limit).ticks 2).tick.tick.tick.tick := rfl
    _ = _ := by rw [haim, hthrow, hstay, hback, hstay']

/-- The round that hits: the bomb falls with the third turn, and the victim in the fourth. -/
theorem hit (hl : Allows limit (k + 3)) (ha : v.toNat = 4 * (i + 1) + 3) :
    ((duel core 0 v 0 k limit).ticks 3).verdict = none ∧
      ((duel core 0 v 0 k limit).ticks 4).verdict = some (.winner 0) ∧
      ((duel core 0 v 0 k limit).ticks 4).cycles = UInt64.ofNat (k + 4) ∧
      ((duel core 0 v 0 k limit).ticks 4).eliminations = #[⟨1, UInt64.ofNat (k + 4)⟩] ∧
      ((duel core 0 v 0 k limit).ticks 4).incidents = #[] := by
  have hloaded := h.reload hv
  have hpos : 0 < (core.write 3 (.bomb (i + 1))).size := by
    rw [hloaded.size]
    exact Nat.lt_of_le_of_lt (Nat.zero_le _) hv.lt
  have haim := ticks_aim hv h (hl.mono (show k + 2 ≤ k + 3 by omega))
  have hthrow := tick_duel_first hl (hloaded.step_throw hv ha hv.lt) (q := v) (k := k + 2)
  have hthree : (duel core 0 v 0 k limit).ticks 3 = duel ((core.write 3 (.bomb (i + 1))).write v
      (.bomb (i + 1))) 2 v 1 (k + 3) limit := by
    show ((duel core 0 v 0 k limit).ticks 2).tick = _
    rw [haim, hthrow]
  have hdat : (((core.write 3 (.bomb (i + 1))).write v (.bomb (i + 1))).read v).opcode = .dat := by
    rw [Core.read_write_self hpos]
    rfl
  rw [ticks_succ 3, hthree, tick_duel_falls hdat]
  exact ⟨rfl, rfl, rfl, rfl, rfl⟩

end Rounds

/-- The bombs in front of the victim miss it. -/
theorem rounds {size j : Nat} {v : Address} {core : Core} {limit : Option UInt64}
    (hv : Core.Clear size v) (hj : v.toNat = 4 * (j + 1) + 3) (h : core.Armed size v 0)
    (hl : Allows limit (6 * j)) : ∀ i ≤ j, ∃ after : Core, after.Armed size v i ∧
      (duel core 0 v 0 0 limit).ticks (6 * i) = duel after 0 v 0 (6 * i) limit
  | 0, _ => ⟨core, h, rfl⟩
  | i + 1, hi => by
    obtain ⟨before, hbefore, hticks⟩ := rounds hv hj h hl i (by omega)
    have hlt := hv.lt
    have hfit := hv.size_lt
    obtain ⟨a, ha⟩ := exists_address_of_lt (n := 4 * (i + 1) + 3) (by omega)
    have hmiss : a ≠ v := by
      rintro rfl
      omega
    obtain ⟨hround, hafter⟩ := round hv hbefore (hl.mono (show 6 * i + 6 ≤ 6 * j by omega)) ha
      (by omega) hmiss
    refine ⟨_, hafter, ?_⟩
    rw [Nat.mul_succ, ticks_add, hticks, hround]

/-- **The dwarf hits on schedule.** In a ring of `4 * m` cells, of which the dwarf is loaded into
the first four and the victim into cell `4 * j + 3`, the dwarf wins with turn `6 * j - 2`, unless
the limit ends the battle before. The victim's end is all that is recorded. -/
theorem dwarf_hits {m j : Nat} (hj : 1 ≤ j) (hjm : j ≤ m - 1) (hm : 4 * m < 2 ^ 63) {s : Settings}
    (hs : s.coreSize.toNat = 4 * m)
    (hpositions : s.startPositions = some [0, UInt64.ofNat (4 * j + 3)])
    (hlimit : ∀ l, s.cycleLimit = some l → 6 * j - 2 ≤ l.toNat) :
    ∃ b, Battle.load [dwarf, victim] s = .ok b ∧ RunsTo b (6 * j - 2) (.winner 0) b.run ∧
      b.run.cycles.toNat = 6 * j - 2 ∧
      b.run.eliminations = #[⟨1, UInt64.ofNat (6 * j - 2)⟩] ∧ b.run.incidents = #[] := by
  obtain ⟨i, rfl⟩ := Nat.exists_eq_add_of_le' hj
  have hcycles : 6 * (i + 1) - 2 = 6 * i + 4 := by omega
  rw [hcycles] at hlimit ⊢
  have hplace : (UInt64.ofNat (4 * (i + 1) + 3)).toNat = 4 * (i + 1) + 3 :=
    UInt64.toNat_ofNat_of_lt' (by unfold UInt64.size; omega)
  generalize UInt64.ofNat (4 * (i + 1) + 3) = v at hpositions hplace
  have hv : Core.Clear s.coreSize.toNat v := ⟨by omega, by omega, by omega⟩
  have hallows : Allows s.cycleLimit (6 * i + 3) := hlimit
  obtain ⟨core, harmed, hload⟩ := load_dwarf hv hpositions
  refine ⟨_, hload, ?_⟩
  generalize hb : duel core 0 v 0 0 s.cycleLimit = b
  obtain ⟨after, hafter, hrounds⟩ :=
    rounds hv hplace harmed (hallows.mono (by omega)) i (Nat.le_refl i)
  have hticks (n : Nat) :
      b.ticks (6 * i + n) = (duel after 0 v 0 (6 * i) s.cycleLimit).ticks n := by
    rw [ticks_add, ← hb, hrounds]
  obtain ⟨hopen, hwon, hcount, helim, hinc⟩ := hit hv hafter hallows hplace
  rw [← hticks] at hopen hwon hcount helim hinc
  have hruns : RunsTo b (6 * i + 4) (.winner 0) (b.ticks (6 * i + 4)) := by
    refine .of_ticks (fun k hk => ?_) hwon
    exact open_of_le (show k ≤ 6 * i + 3 by omega) hopen
  have hrun : b.run = b.ticks (6 * i + 4) := by
    refine hruns.run_eq ?_
    rw [horizon, ← hb]
    show 6 * i + 4 ≤ UInt64.size - 0
    unfold UInt64.size
    omega
  rw [hrun, hcount, UInt64.toNat_ofNat_of_lt' (by unfold UInt64.size; omega)]
  exact ⟨hruns, rfl, helim, hinc⟩

/-- The victim where the third bomb falls, and a limit that just allows for it. -/
def thirdBomb : Settings :=
  ((Settings.standard.withCoreSize 80).withCycleLimit (some 16)).withStartPositions [0, 15]

theorem dwarf_hits_third : ∃ b, load [dwarf, victim] thirdBomb = .ok b ∧
    RunsTo b 16 (.winner 0) b.run ∧ b.run.eliminations = #[⟨1, 16⟩] := by
  have hlimit : ∀ l, thirdBomb.cycleLimit = some l → 6 * 3 - 2 ≤ l.toNat := by
    rintro l ⟨⟩
    decide
  obtain ⟨b, hload, hruns, -, helim, -⟩ := dwarf_hits (m := 20) (j := 3) (by decide) (by decide)
    (by decide) rfl rfl hlimit
  exact ⟨b, hload, hruns, helim⟩

end Battle
end CoreWar
