/-
# Programs can be moved

A program that does not reach the end of the ring is the same code wherever it
lies. Its labels are displacements, so moving the program moves both ends of
them: at the `k`-th cell of the program a field means the same for every
origin (`Program.Denotes.relocate`). This covers quotients too, since it is
the value of every part that stays, and constants, which are evaluated at an
address of the program or at the one behind it; that one must still be in the
ring, which is why the program may not end with the last cell.

So two loads of a program, among whatever other programs and in whatever
places, give the same instructions and the same start, counted from the
origin.

Key theorems: `Program.Denotes.relocate`, `Program.Linked.relocate`,
`Program.Starts.relocate`, `load_relocates`.
-/
import CoreWar.Proofs.LoadedCells

namespace CoreWar

/-! ### Meaning does not depend on the origin -/

namespace Program

variable {p : Program} {size origin origin' : Nat}

theorem Labels.lt {name : String} {j : Nat} (h : p.Labels name j) : j < p.footprint := by
  obtain ⟨s, hs, -⟩ := h
  rw [← p.length_instructions]
  exact (List.getElem?_eq_some_iff.mp hs).1

theorem cellsBefore_le (p : Program) (k : Nat) : p.cellsBefore k ≤ p.footprint :=
  (List.take_sublist k p.body).countP_le

theorem add_mod_of_le (h : origin + p.footprint < size) {k : Nat} (hk : k ≤ p.footprint) :
    (origin + k) % size = origin + k :=
  Nat.mod_eq_of_lt (by omega)

/-- **A field means the same at every origin,** as long as the program does not reach the
end of the ring. -/
theorem Denotes.relocate (h : origin + p.footprint < size) (h' : origin' + p.footprint < size)
    {scope here : Nat} {e : Expression} {v : Field} (hd : p.Denotes size origin scope here e v) :
    ∀ k ≤ p.footprint, here = origin + k → p.Denotes size origin' scope (origin' + k) e v := by
  induction hd with
  | literal v =>
    intro k _ _
    exact .literal v
  | @label scope here j name v hj hv =>
    -- both ends of the displacement move by the same number of cells
    intro k _ hk
    have hlt := hj.lt
    refine .label hj ?_
    rw [add_mod_of_le h (by omega)] at hv
    rw [add_mod_of_le h' (by omega), hv, hk]
    omega
  | @constant scope here k name e v hk he _ ih =>
    -- a constant has its own address, which moves with the program
    intro _ _ _
    have hle := p.cellsBefore_le k
    have hmoved := ih (p.cellsBefore k) hle (add_mod_of_le h hle)
    rw [← add_mod_of_le h' hle] at hmoved
    exact .constant hk he hmoved
  | binary _ _ hv ihx ihy =>
    intro k hk hhere
    exact .binary (ihx k hk hhere) (ihy k hk hhere) hv

theorem denotes_relocate_iff (h : origin + p.footprint < size)
    (h' : origin' + p.footprint < size) {scope k : Nat} (hk : k ≤ p.footprint) {e : Expression}
    {v : Field} : p.Denotes size origin scope (origin + k) e v ↔
      p.Denotes size origin' scope (origin' + k) e v :=
  ⟨fun hd => hd.relocate h h' k hk rfl, fun hd => hd.relocate h' h k hk rfl⟩

/-- The `k`-th instruction of a program is the same at every origin. -/
theorem Linked.relocate (h : origin + p.footprint < size) (h' : origin' + p.footprint < size)
    {k : Nat} (hk : k ≤ p.footprint) {s : Statement} {c c' : Instruction}
    (hc : p.Linked size origin (origin + k) s c)
    (hc' : p.Linked size origin' (origin' + k) s c') : c = c' := by
  have hopcode : c.opcode = c'.opcode := Mnemonic.op.inj (hc.opcode.symm.trans hc'.opcode)
  have haMode : c.aMode = c'.aMode := hc.aMode.trans hc'.aMode.symm
  have hbMode : c.bMode = c'.bMode := hc.bMode.trans hc'.bMode.symm
  have haField : c.aField = c'.aField := by
    rw [← hc'.aField, ← denotes_relocate_iff h h' hk]
    exact (hc.aField c.aField).mpr rfl
  have hbField : c.bField = c'.bField := by
    rw [← hc'.bField, ← denotes_relocate_iff h h' hk]
    exact (hc.bField c.bField).mpr rfl
  obtain ⟨o, am, a, bm, b⟩ := c
  obtain ⟨o', am', a', bm', b'⟩ := c'
  simp only at hopcode haMode hbMode haField hbField
  rw [hopcode, haMode, hbMode, haField, hbField]

theorem Starts.relocate {origin origin' start start' : Address}
    (h : origin.toNat + p.footprint < size) (h' : origin'.toNat + p.footprint < size)
    (hs : p.Starts size origin start) (hs' : p.Starts size origin' start') :
    (start.toNat : Int) - origin.toNat = start'.toNat - origin'.toNat := by
  by_cases hnamed : ∃ name j, p.startName? = some name ∧ p.Labels name j
  · obtain ⟨name, j, hname, hj⟩ := hnamed
    have hlt := hj.lt
    rw [hs.named name j hname hj, hs'.named name j hname hj, add_mod_of_le h (by omega),
      add_mod_of_le h' (by omega)]
    omega
  · have hnone : ∀ name j, p.startName? = some name → ¬ p.Labels name j :=
      fun name j hname hj => hnamed ⟨name, j, hname, hj⟩
    rw [hs.unnamed hnone, hs'.unnamed hnone]
    omega

end Program

/-! ### Two loads of a program -/

/-- **A program can be moved.** Take two loads into cores of one size in which the same
program lies at the origins `o` and `o'` and does not reach the end of the core. Then its
cells hold the same instructions, and it starts as far behind its origin. -/
theorem load_relocates {programs programs' : List Program} {s s' : Settings}
    {arena arena' : Arena} (hs : s.coreSize.toNat < 2 ^ 63) (hsize : s'.coreSize = s.coreSize)
    (hsum : (programs.map Program.footprint).sum < 2 ^ 64)
    (hsum' : (programs'.map Program.footprint).sum < 2 ^ 64)
    (h : load programs s = .ok arena) (h' : load programs' s' = .ok arena') :
    ∃ origins origins', place (programs.map fun p => UInt64.ofNat p.footprint) s = .ok origins ∧
      place (programs'.map fun p => UInt64.ofNat p.footprint) s' = .ok origins' ∧
      ∀ i i' p o o', Located programs origins i p o → Located programs' origins' i' p o' →
        o.toNat + p.footprint < s.coreSize.toNat → o'.toNat + p.footprint < s.coreSize.toNat →
        (∀ j < p.footprint, ∃ c, arena.core.cells[o.toNat + j]? = some c ∧
          arena'.core.cells[o'.toNat + j]? = some c) ∧
        ∃ w w' start start', arena.warriors[i]? = some w ∧ arena'.warriors[i']? = some w' ∧
          w.queue.toList = [start] ∧ w'.queue.toList = [start'] ∧
          (start.toNat : Int) - o.toNat = start'.toNat - o'.toNat := by
  obtain ⟨origins, images, hplace, -, hassembled⟩ := load_assembled hs hsum h
  obtain ⟨origins', images', hplace', -, hassembled'⟩ := load_assembled (hsize ▸ hs) hsum' h'
  rw [hsize] at hassembled'
  refine ⟨origins, origins', hplace, hplace', fun i i' p o o' hi hi' hroom hroom' => ?_⟩
  refine ⟨fun j hj => ?_, ?_⟩
  · have hstatement := List.getElem?_eq_getElem (lt_of_lt_of_eq hj p.length_instructions.symm)
    obtain ⟨c, hcell, hlinked⟩ := hassembled.cell hi hstatement
    obtain ⟨c', hcell', hlinked'⟩ := hassembled'.cell hi' hstatement
    rw [Program.add_mod_of_le hroom hj.le] at hcell hlinked
    rw [Program.add_mod_of_le hroom' hj.le] at hcell' hlinked'
    obtain rfl := hlinked.relocate hroom hroom' hj.le hlinked'
    exact ⟨c, hcell, hcell'⟩
  · obtain ⟨start, hw, hstarts⟩ := hassembled.warrior hi
    obtain ⟨start', hw', hstarts'⟩ := hassembled'.warrior hi'
    exact ⟨_, _, start, start', hw, hw', ProcessQueue.toList_ofList _,
      ProcessQueue.toList_ofList _, hstarts.relocate hroom hroom' hstarts'⟩

/-- A program that divides displacements; its constant stands behind its last instruction. -/
def drifter : Program :=
  [{ mnemonic := .op .mov, aField := .binary .divide (.symbol "last") (.literal 2),
      bField := .symbol "span" },
    { mnemonic := .op .jmp, label := some "loop", aField := .symbol "span" },
    { mnemonic := .op .dat, label := some "last" },
    .constant "span" (.binary .divide (.binary .subtract (.symbol "loop") (.literal 5)) (.literal 2)),
    .finish (some "loop")]

/-- Once in front of another program at a chosen place, once behind two others at a place
that was found. -/
theorem load_relocates_drifter : ∃ arena arena',
    load [drifter, walker] { coreSize := 16, startPositions := some [3, 12] } = .ok arena ∧
      load [walker, walker, drifter] { coreSize := 16, baseOffset := 15 } = .ok arena' ∧
      (∀ j < 3, ∃ c, arena.core.cells[3 + j]? = some c ∧ arena'.core.cells[7 + j]? = some c) ∧
      ∃ w w' start start', arena.warriors[0]? = some w ∧ arena'.warriors[2]? = some w' ∧
        w.queue.toList = [start] ∧ w'.queue.toList = [start'] ∧
        (start.toNat : Int) - 3 = start'.toNat - 7 := by
  obtain ⟨arena, hload⟩ : ∃ arena,
      load [drifter, walker] { coreSize := 16, startPositions := some [3, 12] } = .ok arena :=
    ⟨_, rfl⟩
  obtain ⟨arena', hload'⟩ : ∃ arena',
      load [walker, walker, drifter] { coreSize := 16, baseOffset := 15 } = .ok arena' := ⟨_, rfl⟩
  have hrelocates := fun hs hsize hsum hsum' => load_relocates hs hsize hsum hsum' hload hload'
  obtain ⟨origins, origins', hplace, hplace', hmoved⟩ :=
    hrelocates (by decide) rfl (by decide) (by decide)
  obtain rfl : [3, 12] = origins := Except.ok.inj hplace
  obtain rfl : [15, 3, 7] = origins' := Except.ok.inj hplace'
  obtain ⟨hcells, hstart⟩ := hmoved 0 2 drifter 3 7 ⟨rfl, rfl⟩ ⟨rfl, rfl⟩ (by decide) (by decide)
  exact ⟨arena, arena', hload, hload', hcells, hstart⟩

end CoreWar
