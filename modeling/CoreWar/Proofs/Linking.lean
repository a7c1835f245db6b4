/-
# Images mean what their programs say

The image of a program has one cell for each instruction. Instruction number
`j` goes to the cell `j` places behind the origin, with its opcode and modes
and with fields that mean what its expressions say there (`Program.Linked`).
The warrior starts at the instruction that `END` names, and at the origin
when `END` names none (`Program.Starts`).

The walk over the statements is told once, as a relation with a rule for each
kind of statement (`Outlined`); the instructions, the labels and the constants
that it collects are then read off by induction on that relation. For the
constants the table grows along the program: before the directive at position
`k` it knows the labels and the constants in front of `k`
(`Outlined.knows`).

Key definitions: `Outlined`, `Program.Linked`, `Program.Starts`, `Image.Of`.
Key theorems: `outlined`, `Outlined.instructions`, `Outlined.find?_labels`,
`Outlined.knows`, `link_image`.
-/
import CoreWar.Proofs.Arena
import CoreWar.Proofs.Meaning

namespace CoreWar

/-! ### Programs, statement by statement -/

namespace Statement

variable {s : Statement}

theorem occupies_of_op {o : Opcode} (h : s.mnemonic = .op o) : s.occupies = true := by
  simp [occupies, h, Mnemonic.opcode?]

theorem occupies_of_equ (h : s.mnemonic = .equ) : s.occupies = false := by
  simp [occupies, h, Mnemonic.opcode?]

end Statement

namespace Program

variable {s : Statement} {rest : Program}

theorem body_of_finish (h : s.mnemonic = .finish) : body (s :: rest) = [] := by
  simp [body, h]

theorem body_of_ne (h : s.mnemonic ≠ .finish) : body (s :: rest) = s :: body rest := by
  simp [body, h]

theorem instructions_of_op {o : Opcode} (h : s.mnemonic = .op o) :
    instructions (s :: rest) = s :: instructions rest := by
  rw [instructions, body_of_ne (by simp [h]), List.filter_cons_of_pos (s.occupies_of_op h)]
  rfl

theorem instructions_of_equ (h : s.mnemonic = .equ) :
    instructions (s :: rest) = instructions rest := by
  rw [instructions, body_of_ne (by simp [h]),
    List.filter_cons_of_neg (by simp [s.occupies_of_equ h])]
  rfl

theorem instructions_of_finish (h : s.mnemonic = .finish) : instructions (s :: rest) = [] := by
  rw [instructions, body_of_finish h]
  rfl

theorem startName?_of_finish (h : s.mnemonic = .finish) :
    startName? (s :: rest) = s.aField.symbol? := by
  simp [startName?, h]

theorem startName?_of_ne (h : s.mnemonic ≠ .finish) : startName? (s :: rest) = startName? rest := by
  simp [startName?, h]

/-- The label of the first instruction, or one further down. -/
theorem labels_of_op {o : Opcode} (h : s.mnemonic = .op o) {name : String} {j : Nat} :
    Labels (s :: rest) name j ↔
      (j = 0 ∧ s.label = some name) ∨ ∃ k, j = k + 1 ∧ Labels rest name k := by
  unfold Labels
  rw [instructions_of_op h]
  cases j <;> simp

end Program

/-! ### The walk over the statements -/

/-- What the walk over the statements collects, with a rule for each kind of statement. -/
inductive Outlined (size : Nat) :
    (index : Nat) → (here : Address) → (t : SymbolTable) → Program → Outline → Prop
  | nil {index : Nat} {here : Address} {t : SymbolTable} :
    Outlined size index here t [] ⟨t, [], [], none⟩
  | op {index : Nat} {here : Address} {t u : SymbolTable} {s : Statement} {rest : Program}
    {r : Outline} {o : Opcode} :
    s.mnemonic = .op o → bindLabel t index here s.label = .ok u →
    Outlined size (index + 1) (offset size here 1) u rest r →
    Outlined size index here t (s :: rest)
      { r with instructions := ⟨index, here, o, s⟩ :: r.instructions }
  | equ {index : Nat} {here : Address} {t : SymbolTable} {s : Statement} {rest : Program}
    {r : Outline} {name : String} :
    s.mnemonic = .equ → s.label = some name → Outlined size (index + 1) here t rest r →
    Outlined size index here t (s :: rest)
      { r with constants := ⟨index, name, s.aField, here⟩ :: r.constants }
  | finish {index : Nat} {here : Address} {t : SymbolTable} {s : Statement} {rest : Program} :
    s.mnemonic = .finish → Outlined size index here t (s :: rest) ⟨t, [], [], s.aField.symbol?⟩

/-- A walk that goes through follows the rules. -/
theorem outlined {size : Nat} : ∀ {program : Program} {index : Nat} {here : Address}
    {t : SymbolTable} {r : Outline}, outline size index here t program = .ok r →
      Outlined size index here t program r
  | [], index, here, t, r, h => by
    cases h
    exact .nil
  | s :: rest, index, here, t, r, h => by
    unfold outline at h
    split at h
    · rename_i o ho
      obtain ⟨u, hu, h⟩ := bind_eq_ok.mp h
      obtain ⟨r, hr, rfl⟩ := map_eq_ok.mp h
      exact .op ho hu (outlined hr)
    · rename_i he
      split at h
      · cases h
      rename_i name hn
      obtain ⟨r, hr, rfl⟩ := map_eq_ok.mp h
      exact .equ he hn (outlined hr)
    · rename_i hf
      cases h
      exact .finish hf

theorem find?_bindLabel {t u : SymbolTable} {index : Nat} {here : Address} {label : Option String}
    (h : bindLabel t index here label = .ok u) (name : String) (b : Binding) :
    u.find? name = some b ↔ (label = some name ∧ b = .label here) ∨ t.find? name = some b := by
  cases label with
  | none =>
    cases h
    simp
  | some l =>
    rw [SymbolTable.find?_define (atStatement_eq_ok.mp h)]
    simp [eq_comm]

namespace Outlined

variable {size index : Nat} {here : Address} {t : SymbolTable} {p : Program} {r : Outline}

/-- The walk ends with the name that `END` gives. -/
theorem entry (h : Outlined size index here t p r) : r.entry = p.startName? := by
  induction h with
  | nil => rfl
  | op ho _ _ ih => rw [Program.startName?_of_ne (by simp [ho]), ← ih]
  | equ he _ _ ih => rw [Program.startName?_of_ne (by simp [he]), ← ih]
  | finish hf => rw [Program.startName?_of_finish hf]

/-- One step of the walk is one cell. -/
theorem add_next (hs : 0 < size) (hs' : size < 2 ^ 63) (hh : here.toNat < size) (k : Nat) :
    ((offset size here 1).toNat + k) % size = (here.toNat + (k + 1)) % size := by
  rw [offset_one_toNat hs hs' hh, Nat.mod_add_mod]
  congr 1
  omega

/-- An instruction of the program at its address. -/
structure At (q : Placed) (s : Statement) (address : Nat) : Prop where
  statement : q.statement = s
  opcode : s.mnemonic = .op q.opcode
  address : q.address.toNat = address

/-- The instructions are those of the program, in consecutive cells. -/
theorem instructions (hs : 0 < size) (hs' : size < 2 ^ 63) (h : Outlined size index here t p r)
    (hh : here.toNat < size) :
    r.instructions.length = p.instructions.length ∧
      ∀ k s, p.instructions[k]? = some s →
        ∃ q, r.instructions[k]? = some q ∧ At q s ((here.toNat + k) % size) := by
  induction h with
  | nil => exact ⟨rfl, by simp [Program.instructions, Program.body]⟩
  | @op index here t u s rest r o ho hu hr ih =>
    obtain ⟨hl, hrest⟩ := ih (offset_lt hs (by omega) here 1)
    rw [Program.instructions_of_op ho]
    refine ⟨by simp [hl], fun k x hx => ?_⟩
    cases k with
    | zero =>
      obtain rfl : s = x := by simpa using hx
      exact ⟨⟨index, here, o, s⟩, rfl, rfl, ho, (Nat.mod_eq_of_lt hh).symm⟩
    | succ k =>
      obtain ⟨q, hq, hat⟩ := hrest k x hx
      rw [add_next hs hs' hh] at hat
      exact ⟨q, hq, hat⟩
  | equ he _ _ ih =>
    rw [Program.instructions_of_equ he]
    exact ih hh
  | finish hf =>
    rw [Program.instructions_of_finish hf]
    exact ⟨rfl, by simp⟩

/-- The labels are those of the program, bound to the cells of their instructions. -/
theorem find?_labels (hs : 0 < size) (hs' : size < 2 ^ 63) (h : Outlined size index here t p r)
    (hh : here.toNat < size) (name : String) (b : Binding) :
    r.labels.find? name = some b ↔ t.find? name = some b ∨
      ∃ j a, p.Labels name j ∧ b = .label a ∧ a.toNat = (here.toNat + j) % size := by
  induction h with
  | nil => simp [Program.Labels, Program.instructions, Program.body]
  | @op index here t u s rest r o ho hu hr ih =>
    have hnext := ih (offset_lt hs (by omega) here 1)
    simp only [add_next hs hs' hh] at hnext
    simp only [hnext, find?_bindLabel hu, Program.labels_of_op ho]
    constructor
    · rintro ((⟨hl, rfl⟩ | ht) | ⟨j, a, hj, hb, ha⟩)
      · exact .inr ⟨0, here, .inl ⟨rfl, hl⟩, rfl, (Nat.mod_eq_of_lt hh).symm⟩
      · exact .inl ht
      · exact .inr ⟨j + 1, a, .inr ⟨j, rfl, hj⟩, hb, ha⟩
    · rintro (ht | ⟨j, a, ⟨rfl, hl⟩ | ⟨k, rfl, hk⟩, hb, ha⟩)
      · exact .inl (.inr ht)
      · have hae : a = here := UInt64.toNat_inj.mp (by rw [ha, Nat.add_zero, Nat.mod_eq_of_lt hh])
        exact .inl (.inl ⟨hl, hae ▸ hb⟩)
      · exact .inr ⟨k, a, hk, hb, ha⟩
  | equ he _ _ ih =>
    unfold Program.Labels
    rw [Program.instructions_of_equ he]
    exact ih hh
  | finish hf =>
    unfold Program.Labels
    rw [Program.instructions_of_finish hf]
    simp

end Outlined

/-! ### The constants -/

namespace Program

variable {p pre rest : Program} {s : Statement} {size origin k : Nat} {name : String}

theorem equates_length (hp : p.body = pre ++ s :: rest) {e : Expression} :
    p.Equates pre.length name e ↔ s.mnemonic = .equ ∧ s.label = some name ∧ s.aField = e := by
  simp [Equates, hp]

theorem Equates.unique {name' : String} {e e' : Expression} (h : p.Equates k name e)
    (h' : p.Equates k name' e') : name' = name ∧ e' = e := by
  obtain ⟨s, hs, -, hn, rfl⟩ := h
  obtain ⟨s', hs', -, hn', rfl⟩ := h'
  obtain rfl : s = s' := Option.some.inj (hs.symm.trans hs')
  exact ⟨Option.some.inj (hn'.symm.trans hn), rfl⟩

theorem cellsBefore_succ (hp : p.body = pre ++ s :: rest) :
    p.cellsBefore (pre.length + 1) = p.cellsBefore pre.length + [s].countP Statement.occupies := by
  rw [cellsBefore, cellsBefore, hp, List.take_left, ← List.countP_append]
  congr 1
  rw [show pre ++ s :: rest = (pre ++ [s]) ++ rest by simp]
  exact List.take_left' (by simp)

/-- One more statement in scope binds at most one more name. -/
theorem binds_succ {b : Binding} :
    p.Binds size origin (k + 1) name b ↔ p.Binds size origin k name b ∨
      ∃ e v, b = .constant v ∧ p.Equates k name e ∧
        p.Denotes size origin k ((origin + p.cellsBefore k) % size) e v := by
  cases b with
  | label a => simp [Binds]
  | constant v =>
    constructor
    · rintro ⟨m, e, hm, he, hd⟩
      rcases Nat.lt_succ_iff_lt_or_eq.mp hm with hm | rfl
      · exact .inl ⟨m, e, hm, he, hd⟩
      · exact .inr ⟨e, v, rfl, he, hd⟩
    · rintro (⟨m, e, hm, he, hd⟩ | ⟨e, _, ⟨⟩, he, hd⟩)
      · exact ⟨m, e, Nat.lt_succ_of_lt hm, he, hd⟩
      · exact ⟨k, e, Nat.lt_succ_self k, he, hd⟩

end Program

namespace SymbolTable.Knows

variable {t u : SymbolTable} {p : Program} {size origin k : Nat}

/-- A statement that is no constant changes nothing. -/
theorem skip (ht : t.Knows p size origin k) (hk : ∀ name e, ¬ p.Equates k name e) :
    t.Knows p size origin (k + 1) := by
  intro name b
  rw [ht name b, Program.binds_succ]
  simp [hk]

/-- A constant is added with its meaning. -/
theorem bind (ht : t.Knows p size origin k) (hs : 0 < size) (hs' : size < 2 ^ 63)
    {d : Definition} (hd : p.Equates k d.name d.value)
    (ha : d.address.toNat = (origin + p.cellsBefore k) % size) (h : d.bind t = .ok u) :
    u.Knows p size origin (k + 1) := by
  obtain ⟨v, hv, hu⟩ := bind_eq_ok.mp h
  have hlt : d.address.toNat < 2 ^ 63 := by
    rw [ha]
    exact Nat.lt_trans (Nat.mod_lt _ hs) hs'
  -- the table determines the value of the directive's expression
  have hval (w : Field) :
      p.Denotes size origin k ((origin + p.cellsBefore k) % size) d.value w ↔ w = v := by
    rw [← ha, ← ht.evaluate_eq_ok hs (by omega) hlt, atStatement_eq_ok.mp hv]
    simp [eq_comm]
  intro name b
  rw [find?_define (atStatement_eq_ok.mp hu), ht name b, Program.binds_succ, or_comm]
  refine or_congr_right ?_
  constructor
  · rintro ⟨rfl, rfl⟩
    exact ⟨d.value, v, rfl, hd, (hval v).mpr rfl⟩
  · rintro ⟨e, w, rfl, he, hw⟩
    obtain ⟨rfl, rfl⟩ := hd.unique he
    exact ⟨rfl, congrArg _ ((hval w).mp hw)⟩

end SymbolTable.Knows

namespace Outlined

variable {size index origin : Nat} {here : Address} {t₀ : SymbolTable} {rest p : Program}
  {r : Outline}

/-- The constants are added in the order of the program, so a table that knows what
stands in front of the walk knows the whole program after it. -/
theorem knows (hs : 0 < size) (hs' : size < 2 ^ 63) (h : Outlined size index here t₀ rest r) :
    ∀ (pre : Program) {t u : SymbolTable}, p.body = pre ++ rest.body →
      here.toNat = (origin + p.cellsBefore pre.length) % size →
      t.Knows p size origin pre.length → r.constants.foldlM Definition.bind t = .ok u →
      u.Knows p size origin p.body.length := by
  induction h with
  | nil =>
    intro pre t u hp _ ht hu
    cases hu
    rw [hp]
    simpa [Program.body] using ht
  | @op index here t₀ u₀ s rest r o ho _ _ ih =>
    intro pre t u hp hh ht hu
    rw [Program.body_of_ne (by simp [ho])] at hp
    have hlt : here.toNat < size := hh ▸ Nat.mod_lt _ hs
    have hskip := ht.skip fun name e => by simp [Program.equates_length hp, ho]
    refine ih (pre ++ [s]) (by simp [hp]) ?_ (by simpa using hskip) hu
    have hnext := add_next hs hs' hlt 0
    rw [Nat.add_zero, Nat.mod_eq_of_lt (offset_lt hs (by omega) here 1), hh,
      Nat.mod_add_mod] at hnext
    simp [Program.cellsBefore_succ hp, s.occupies_of_op ho, hnext, Nat.add_assoc]
  | @equ index here t₀ s rest r name he hn _ ih =>
    intro pre t u hp hh ht hu
    rw [Program.body_of_ne (by simp [he])] at hp
    obtain ⟨t', ht', hu⟩ := bind_eq_ok.mp hu
    have hbind := ht.bind hs hs' ((Program.equates_length hp).mpr ⟨he, hn, rfl⟩) hh ht'
    refine ih (pre ++ [s]) (by simp [hp]) ?_ (by simpa using hbind) hu
    simp [Program.cellsBefore_succ hp, s.occupies_of_equ he, hh]
  | finish hf =>
    intro pre t u hp _ ht hu
    cases hu
    simpa [hp, Program.body_of_finish hf] using ht

end Outlined

/-! ### The image -/

namespace Program

/-- The instruction `i` is the statement `s` of the program, linked for the address `here`:
its fields have the one value that the expressions have there. -/
structure Linked (p : Program) (size origin here : Nat) (s : Statement) (i : Instruction) :
    Prop where
  opcode : s.mnemonic = .op i.opcode
  aMode : i.aMode = s.aMode
  aField : ∀ v, p.Denotes size origin p.body.length here s.aField v ↔ v = i.aField
  bMode : i.bMode = s.bMode
  bField : ∀ v, p.Denotes size origin p.body.length here s.bField v ↔ v = i.bField

/-- Where the program starts: at the instruction that `END` names by its label, else at
the origin. -/
structure Starts (p : Program) (size : Nat) (origin start : Address) : Prop where
  named : ∀ name j, p.startName? = some name → p.Labels name j →
    start.toNat = (origin.toNat + j) % size
  unnamed : (∀ name j, p.startName? = some name → ¬ p.Labels name j) → start = origin

end Program

/-- The image is that of the program at `origin`. -/
structure Image.Of (image : Image) (p : Program) (size : Nat) (origin : Address) : Prop where
  length : image.cells.length = p.footprint
  cells : ∀ j s, p.instructions[j]? = some s → ∃ a i, image.cells[j]? = some (a, i) ∧
    a.toNat = (origin.toNat + j) % size ∧
    p.Linked size origin.toNat ((origin.toNat + j) % size) s i
  start : p.Starts size origin image.start

theorem Placed.cell_eq_ok {t : SymbolTable} {q : Placed} {c : Address × Instruction} :
    q.cell t = .ok c ↔ ∃ a b, t.evaluate q.address q.statement.aField = .ok a ∧
      t.evaluate q.address q.statement.bField = .ok b ∧
      c = (q.address, ⟨q.opcode, q.statement.aMode, a, q.statement.bMode, b⟩) := by
  simp only [Placed.cell, bind_eq_ok, map_eq_ok, atStatement_eq_ok]
  constructor
  · rintro ⟨a, ha, b, hb, rfl⟩
    exact ⟨a, b, ha, hb, rfl⟩
  · rintro ⟨a, b, ha, hb, rfl⟩
    exact ⟨a, ha, b, hb, rfl⟩

theorem SymbolTable.label?_eq_some {t : SymbolTable} {name : String} {a : Address} :
    t.label? name = some a ↔ t.find? name = some (.label a) := by
  unfold label?
  rcases t.find? name with _ | _ | _ <;> simp

section Image

variable {size : Nat} {p : Program} {origin : Address} {t : SymbolTable}

/-- The cell of an instruction has the meaning of its statement. -/
theorem Placed.cell_linked (hs : 0 < size) (hs' : size < 2 ^ 63)
    (ht : t.Knows p size origin.toNat p.body.length) {q : Placed} {s : Statement} {k : Nat}
    (hq : Outlined.At q s ((origin.toNat + k) % size)) {c : Address × Instruction}
    (hc : q.cell t = .ok c) : c.1.toNat = (origin.toNat + k) % size ∧
      p.Linked size origin.toNat ((origin.toNat + k) % size) s c.2 := by
  obtain ⟨a, b, ha, hb, rfl⟩ := Placed.cell_eq_ok.mp hc
  obtain ⟨rfl, hop, haddr⟩ := hq
  have hlt : q.address.toNat < 2 ^ 63 := haddr ▸ Nat.lt_trans (Nat.mod_lt _ hs) hs'
  refine ⟨haddr, hop, rfl, fun v => ?_, rfl, fun v => ?_⟩
  · rw [← haddr, ← ht.evaluate_eq_ok hs (by omega) hlt, ha]
    simp [eq_comm]
  · rw [← haddr, ← ht.evaluate_eq_ok hs (by omega) hlt, hb]
    simp [eq_comm]

/-- The start is looked up among the labels of the program. -/
theorem starts_getD (hs : 0 < size) (hs' : size < 2 ^ 63)
    (ht : t.Knows p size origin.toNat p.body.length) :
    p.Starts size origin ((p.startName?.bind t.label?).getD origin) := by
  have hlabel (name : String) (a : Address) : t.label? name = some a ↔
      ∃ j, p.Labels name j ∧ a.toNat = (origin.toNat + j) % size := by
    rw [SymbolTable.label?_eq_some, ht]
    rfl
  constructor
  · intro name j hn hj
    have hlt : (origin.toNat + j) % size < size := Nat.mod_lt _ hs
    obtain ⟨a, ha⟩ := exists_address_of_lt (n := (origin.toNat + j) % size) (by omega)
    rw [hn, Option.bind_some, (hlabel name a).mpr ⟨j, hj, ha⟩]
    exact ha
  · intro hnone
    have hbind : p.startName?.bind t.label? = none := by
      rw [Option.bind_eq_none_iff]
      intro name hn
      rw [Option.eq_none_iff_forall_ne_some]
      intro a ha
      obtain ⟨j, hj, -⟩ := (hlabel name a).mp ha
      exact hnone name j hn hj
    rw [hbind, Option.getD_none]

/-- The image of a program in the ring. -/
theorem link_image (hs : 0 < size) (hs' : size < 2 ^ 63) (ho : origin.toNat < size)
    {image : Image} (h : link size p origin = .ok image) : image.Of p size origin := by
  obtain ⟨r, hr, h⟩ := bind_eq_ok.mp h
  obtain ⟨t, ht, h⟩ := bind_eq_ok.mp h
  obtain ⟨cells, hcells, rfl⟩ := map_eq_ok.mp h
  have hwalk := outlined hr
  have hlabels : r.labels.Knows p size origin.toNat 0 := by
    intro name b
    rw [hwalk.find?_labels hs hs' ho]
    cases b <;> simp [SymbolTable.empty, SymbolTable.find?, Program.Binds]
  have hknows : t.Knows p size origin.toNat p.body.length :=
    hwalk.knows hs hs' [] rfl (by simp [Program.cellsBefore, Nat.mod_eq_of_lt ho])
      hlabels ht
  obtain ⟨hlen, hplaced⟩ := hwalk.instructions hs hs' ho
  refine ⟨?_, fun j s hj => ?_, ?_⟩
  · rw [← (mapM_eq_ok.mp hcells).length_eq, hlen, Program.length_instructions]
  · obtain ⟨q, hq, hat⟩ := hplaced j s hj
    obtain ⟨c, hc, hcell⟩ := getElem?_of_mapM hcells hq
    exact ⟨c.1, c.2, hc, Placed.cell_linked hs hs' hknows hat hcell⟩
  · rw [hwalk.entry]
    exact starts_getD hs hs' hknows

end Image

end CoreWar
