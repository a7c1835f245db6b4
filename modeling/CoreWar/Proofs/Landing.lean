/-
# Operands land where the program says

In a program a label stands for a distance: from the `k`-th instruction to
the `j`-th it is `j - k`. Linking writes the difference of the two addresses
instead, which is another number when the program lies across the end of the
ring. The two differ by a multiple of the size, sums, differences and
products carry this on, and so do constants, which are counted from the
instruction behind them. So the exact value of an expression without a
quotient, taken with the distances of the program, and its value taken with
the differences of addresses lead to the same cell (`Program.Denotes.amounts`).

Fields are words, and so is the sum of an address and a field. All that is
asked for is that the value as linked is a word and that the sum is one; what
happens to the parts of an expression on the way does not matter.

Key definitions: `Program.Amounts`, `Program.authored`, `Program.linkedAs`,
`Program.Divides`, `Program.Lands`.
Key theorems: `Program.Denotes.amounts`, `Program.Amounts.unique`,
`Program.lands`, `load_lands`.
-/
import Mathlib.Data.Int.ModEq
import CoreWar.Proofs.LinkFaults
import CoreWar.Proofs.Relocation

namespace CoreWar

/-! ### Exact values -/

/-- The value of an operation on integers. A quotient is not looked at here. -/
def Operator.onIntegers (op : Operator) (x y : Int) : Option Int :=
  match op with
  | .add => some (x + y)
  | .subtract => some (x - y)
  | .multiply => some (x * y)
  | .divide => none

namespace Program

/-- The exact value of an expression of instruction number `k`, with the constants among the first
`scope` statements in scope, when the distance to instruction number `j` is `distance k j`. -/
inductive Amounts (p : Program) (distance : Nat → Nat → Int) :
    (scope k : Nat) → Expression → Int → Prop
  | literal {scope k : Nat} (v : Field) : Amounts p distance scope k (.literal v) v.toInt
  | label {scope k j : Nat} {name : String} : p.Labels name j →
    Amounts p distance scope k (.symbol name) (distance k j)
  | constant {scope k m : Nat} {name : String} {e : Expression} {x : Int} : m < scope →
    p.Equates m name e → Amounts p distance m (p.cellsBefore m) e x →
    Amounts p distance scope k (.symbol name) x
  | binary {scope k : Nat} {op : Operator} {left right : Expression} {x y z : Int} :
    Amounts p distance scope k left x → Amounts p distance scope k right y →
    op.onIntegers x y = some z → Amounts p distance scope k (.binary op left right) z

/-- Distances as they stand in the program. -/
def authored (k j : Nat) : Int := (j : Int) - k

/-- Distances between the cells of a program at `origin` in a ring of `size` cells. -/
def linkedAs (size origin k j : Nat) : Int :=
  ((origin + j) % size : Nat) - ((origin + k) % size : Nat)

/-- With the names of constants written out, there is a quotient in the expression. -/
inductive Divides (p : Program) : (scope : Nat) → Expression → Prop
  | divide {scope : Nat} {left right : Expression} : Divides p scope (.binary .divide left right)
  | left {scope : Nat} {op : Operator} {left right : Expression} : Divides p scope left →
    Divides p scope (.binary op left right)
  | right {scope : Nat} {op : Operator} {left right : Expression} : Divides p scope right →
    Divides p scope (.binary op left right)
  | constant {scope m : Nat} {name : String} {e : Expression} : m < scope →
    p.Equates m name e → Divides p m e → Divides p scope (.symbol name)

end Program

theorem Operator.onIntegers_of_eval? {op : Operator} (hop : op ≠ .divide) {x y v : Field}
    {X Y : Int} (hx : x.toInt = X.bmod (2 ^ 64)) (hy : y.toInt = Y.bmod (2 ^ 64))
    (h : op.eval? x y = some v) :
    ∃ Z, op.onIntegers X Y = some Z ∧ v.toInt = Z.bmod (2 ^ 64) := by
  cases op with
  | add =>
    obtain rfl : x + y = v := by simpa [eval?] using h
    exact ⟨X + Y, rfl, by rw [Int64.toInt_add, hx, hy, Int.bmod_add_bmod, Int.add_bmod_bmod]⟩
  | subtract =>
    obtain rfl : x - y = v := by simpa [eval?] using h
    exact ⟨X - Y, rfl, by rw [Int64.toInt_sub, hx, hy, Int.bmod_sub_bmod, Int.sub_bmod_bmod]⟩
  | multiply =>
    obtain rfl : x * y = v := by simpa [eval?] using h
    exact ⟨X * Y, rfl, by rw [Int64.toInt_mul, hx, hy, Int.bmod_mul_bmod, Int.mul_bmod_bmod]⟩
  | divide => exact absurd rfl hop

theorem Operator.onIntegers_modEq {op : Operator} {n X Y Z X' Y' : Int} (hx : X ≡ X' [ZMOD n])
    (hy : Y ≡ Y' [ZMOD n]) (h : op.onIntegers X Y = some Z) :
    ∃ Z', op.onIntegers X' Y' = some Z' ∧ Z ≡ Z' [ZMOD n] := by
  cases op with
  | add =>
    obtain rfl : X + Y = Z := by simpa [onIntegers] using h
    exact ⟨X' + Y', rfl, hx.add hy⟩
  | subtract =>
    obtain rfl : X - Y = Z := by simpa [onIntegers] using h
    exact ⟨X' - Y', rfl, hx.sub hy⟩
  | multiply =>
    obtain rfl : X * Y = Z := by simpa [onIntegers] using h
    exact ⟨X' * Y', rfl, hx.mul hy⟩
  | divide => simp [onIntegers] at h

namespace Program

theorem linkedAs_modEq (size origin k j : Nat) :
    linkedAs size origin k j ≡ authored k j [ZMOD size] := by
  have hcell (m : Nat) : (((origin + m) % size : Nat) : Int) ≡ (origin : Int) + m [ZMOD size] := by
    rw [Int.natCast_mod]
    push_cast
    exact Int.mod_modEq _ _
  have hsub := (hcell j).sub (hcell k)
  rwa [show (origin : Int) + j - (origin + k) = authored k j by unfold authored; omega] at hsub

variable {p : Program} {size origin : Nat}

/-- **The word of a field has the exact value of its expression, up to whole rounds of the
ring.** -/
theorem Denotes.amounts {scope here : Nat} {e : Expression} {v : Field}
    (h : p.Denotes size origin scope here e v) :
    ∀ {k : Nat}, here = (origin + k) % size → ¬ p.Divides scope e → ∃ W V,
      p.Amounts (linkedAs size origin) scope k e W ∧ p.Amounts authored scope k e V ∧
        W ≡ V [ZMOD size] ∧ v.toInt = W.bmod (2 ^ 64) := by
  induction h with
  | literal v =>
    intro k _ _
    exact ⟨v.toInt, v.toInt, .literal v, .literal v, rfl, v.toInt_bmod.symm⟩
  | @label scope here j name v hj hv =>
    intro k hk _
    refine ⟨linkedAs size origin k j, authored k j, .label hj, .label hj, ?_, ?_⟩
    · exact linkedAs_modEq size origin k j
    · rw [← v.toInt_bmod, hv, hk]
      rfl
  | @constant scope here m name e v hm he _ ih =>
    -- the constant is counted from the instruction behind it
    intro k _ hdiv
    obtain ⟨W, V, hW, hV, hmod, hv⟩ := ih rfl fun hd => hdiv (.constant hm he hd)
    exact ⟨W, V, .constant hm he hW, .constant hm he hV, hmod, hv⟩
  | @binary scope here op left right x y v _ _ hv ihx ihy =>
    intro k hk hdiv
    have hop : op ≠ .divide := by
      rintro rfl
      exact hdiv .divide
    obtain ⟨X, X', hX, hX', hmodX, hx⟩ := ihx hk fun hd => hdiv (.left hd)
    obtain ⟨Y, Y', hY, hY', hmodY, hy⟩ := ihy hk fun hd => hdiv (.right hd)
    obtain ⟨Z, hZ, hv⟩ := Operator.onIntegers_of_eval? hop hx hy hv
    obtain ⟨Z', hZ', hmod⟩ := Operator.onIntegers_modEq hmodX hmodY hZ
    exact ⟨Z, Z', .binary hX hY hZ, .binary hX' hY' hZ', hmod, hv⟩

theorem Amounts.unique (hp : p.Distinct) {distance : Nat → Nat → Int} {scope k : Nat}
    {e : Expression} {x : Int} (h : p.Amounts distance scope k e x) :
    ∀ {y : Int}, p.Amounts distance scope k e y → y = x := by
  induction h with
  | literal v =>
    rintro y ⟨⟩
    rfl
  | @label scope k j name hj =>
    intro y hy
    cases hy with
    | label hj' => rw [hp.labels name _ _ hj hj']
    | constant _ he _ => exact absurd he (hp.apart name _ _ _ hj)
  | @constant scope k m name e x hm he _ ih =>
    intro y hy
    cases hy with
    | label hj => exact absurd he (hp.apart name _ _ _ hj)
    | constant _ he' hy =>
      obtain rfl := hp.constants name _ _ _ _ he he'
      obtain ⟨-, rfl⟩ := he.unique he'
      exact ih hy
  | binary _ _ hz ihx ihy =>
    intro y hy
    cases hy with
    | binary hx hy hz' =>
      obtain rfl := ihx hx
      obtain rfl := ihy hy
      exact Option.some.inj (hz'.symm.trans hz)

end Program

/-! ### Resolving a field -/

/-- In direct mode the field `v` leads from the address `x` to the cell `y`. -/
def Core.Leads (core : Core) (x : Address) (v : Field) (y : Int) : Prop :=
  ∃ a, (core.resolve x .direct v).1 = .address a ∧ (a.toNat : Int) = y

def IsWord (x : Int) : Prop := -2 ^ 63 ≤ x ∧ x < 2 ^ 63

instance (x : Int) : Decidable (IsWord x) := inferInstanceAs (Decidable (_ ∧ _))

/-- The field `v` of instruction number `k` of the program, at the address `x`, leads where its
expression `e` says. -/
structure Program.Lands (p : Program) (core : Core) (size origin k : Nat) (x : Address)
    (e : Expression) (v : Field) : Prop where
  /-- Without a quotient, `e` has one exact value with the distances of the program and one with
  those of the ring. If the latter and the sum with the address are words, the former tells where
  the field leads. -/
  value : ¬ p.Divides p.body.length e → ∃ V W,
    (∀ V', p.Amounts authored p.body.length k e V' ↔ V' = V) ∧
    (∀ W', p.Amounts (linkedAs size origin) p.body.length k e W' ↔ W' = W) ∧
    (IsWord W → IsWord (x.toNat + v.toInt) → core.Leads x v ((x.toNat + V) % size))
  /-- A label leads to the cell of its instruction. -/
  label : ∀ name j, e = .symbol name → p.Labels name j →
    core.Leads x v ((origin + j) % size : Nat)

section Lands

variable {core : Core} {x : Address} {v : Field}

theorem Core.leads_of_isWord (hs : 0 < core.size) (hs' : core.size < 2 ^ 64)
    (h : IsWord (x.toNat + v.toInt)) : core.Leads x v ((x.toNat + v.toInt) % core.size) :=
  ⟨core.offset x v, rfl, offset_toNat_of_fits hs hs' x v h.1 h.2⟩

variable {p : Program} {size origin k : Nat} {e : Expression}

theorem Program.lands (hs : 0 < size) (hs' : size < 2 ^ 63) (hp : p.Distinct)
    (hcore : core.size = size) (hx : x.toNat = (origin + k) % size)
    (hv : ∀ v', p.Denotes size origin p.body.length ((origin + k) % size) e v' ↔ v' = v) :
    p.Lands core size origin k x e v where
  value hdiv := by
    obtain ⟨W, V, hW, hV, hmod, hword⟩ := ((hv v).mpr rfl).amounts rfl hdiv
    refine ⟨V, W, fun V' => ⟨hV.unique hp, fun h => h ▸ hV⟩,
      fun W' => ⟨hW.unique hp, fun h => h ▸ hW⟩, fun hfit hsum => ?_⟩
    -- the word of a word is the number itself
    have hvalue : v.toInt = W := hword.trans (Int.bmod_eq_of_le_mul_two
      (by have := hfit.1; omega) (by have := hfit.2; omega))
    obtain ⟨a, ha, hcell⟩ := Core.leads_of_isWord (hcore ▸ hs) (by omega) hsum
    refine ⟨a, ha, ?_⟩
    rw [hcell, hvalue, hcore]
    exact hmod.add_left _
  label name j he hj := by
    subst he
    have hcell : (origin + j) % size < size := Nat.mod_lt _ hs
    have hhere : (origin + k) % size < size := Nat.mod_lt _ hs
    -- the distance of two cells is a word, so it is the field
    have hdistance : (Int64.ofInt (linkedAs size origin k j)).toInt = linkedAs size origin k j :=
      Int64.toInt_ofInt_of_le (by unfold linkedAs; omega) (by unfold linkedAs; omega)
    have hfield := (hv _).mp (.label hj hdistance)
    have hsum : (x.toNat : Int) + v.toInt = ((origin + j) % size : Nat) := by
      rw [← hfield, hdistance, hx, linkedAs]
      omega
    have hfit : IsWord (x.toNat + v.toInt) := by
      rw [hsum]
      exact ⟨by omega, by omega⟩
    have hleads := core.leads_of_isWord (hcore ▸ hs) (by omega) hfit
    rw [hsum, hcore, ← Int.natCast_mod, Nat.mod_mod] at hleads
    exact hleads

end Lands

/-- **Linked operands land where the program says,** whether it goes past the end of the ring or
not. This is so for the fields of every instruction that is loaded. By `hsum` the instructions
can be counted in a word, as those of any programs held in a memory can. -/
theorem load_lands {programs : List Program} {s : Settings} {arena : Arena}
    (hs : s.coreSize.toNat < 2 ^ 63) (hsum : (programs.map Program.footprint).sum < 2 ^ 64)
    (h : load programs s = .ok arena) :
    ∃ origins, place (programs.map fun p => UInt64.ofNat p.footprint) s = .ok origins ∧
      ∀ i p o, Located programs origins i p o → ∀ k st, p.instructions[k]? = some st →
        ∃ (x : Address) (c : Instruction), x.toNat = (o.toNat + k) % s.coreSize.toNat ∧
          arena.core.cells[x.toNat]? = some c ∧
          p.Lands arena.core s.coreSize.toNat o.toNat k x st.aField c.aField ∧
          p.Lands arena.core s.coreSize.toNat o.toNat k x st.bField c.bField := by
  obtain ⟨-, hpos, hsize, -⟩ := load_ok h
  obtain ⟨origins, images, hplace, -, hassembled⟩ := load_assembled hs hsum h
  refine ⟨origins, hplace, fun i p o hi k st hst => ?_⟩
  obtain ⟨image, -, hlink, -⟩ := hassembled.image i p o hi
  have ho := hassembled.origin_lt o (List.mem_of_getElem? hi.origin)
  have hdistinct := distinct_of_link hpos hs ho hlink
  obtain ⟨c, hcell, hlinked⟩ := hassembled.cell hi hst
  have hlt : (o.toNat + k) % s.coreSize.toNat < s.coreSize.toNat := Nat.mod_lt _ hpos
  obtain ⟨x, hx⟩ := exists_address_of_lt (n := (o.toNat + k) % s.coreSize.toNat) (by omega)
  refine ⟨x, c, hx, hx ▸ hcell, ?_, ?_⟩
  · exact Program.lands hpos hs hdistinct hsize hx hlinked.aField
  · exact Program.lands hpos hs hdistinct hsize hx hlinked.bField

def strider : Program :=
  [{ mnemonic := .op .mov, label := some "top", aField := .symbol "last",
      bField := .symbol "span" },
    .constant "span" (.binary .multiply (.binary .subtract (.symbol "last") (.symbol "top"))
      (.literal 2)),
    { mnemonic := .op .jmp, aField := .symbol "top" },
    { mnemonic := .op .dat, label := some "last" }]

theorem not_divides_strider : ¬ strider.Divides 4 (.symbol "span") := by
  have hequates {m : Nat} {name : String} {e : Expression} (h : strider.Equates m name e) :
      m = 1 ∧ e = .binary .multiply (.binary .subtract (.symbol "last") (.symbol "top"))
        (.literal 2) := by
    obtain ⟨s, hs, hequ, -, rfl⟩ := h
    match m, hs with
    | 0, hs | 2, hs | 3, hs =>
      cases hs
      cases hequ
    | 1, hs =>
      cases hs
      exact ⟨rfl, rfl⟩
  -- the one constant is statement number 1, and no constant is in scope there
  have hnone (name : String) : ¬ strider.Divides 1 (.symbol name) := by
    rintro (_ | _ | _ | ⟨hm, he, _⟩)
    have := (hequates he).1
    omega
  rintro (_ | _ | _ | ⟨_, he, hd⟩)
  obtain ⟨rfl, rfl⟩ := hequates he
  rcases hd with _ | hd | hd
  · rcases hd with _ | hd | hd
    · exact hnone _ hd
    · exact hnone _ hd
  · cases hd

/-- The program lies across the end of the ring. Its label `last` is linked as six cells back and
its constant `span` as twelve cells back, and they lead two and four cells ahead. -/
theorem load_lands_strider : ∃ arena,
    load [strider] { coreSize := 8, startPositions := some [6] } = .ok arena ∧
      arena.core.cells[6]? = some ⟨.mov, .direct, -6, .direct, -12⟩ ∧
      arena.core.Leads 6 (-6) ((6 + 2) % 8) ∧ arena.core.Leads 6 (-12) ((6 + 4) % 8) := by
  obtain ⟨arena, hload, hcell⟩ : ∃ arena,
      load [strider] { coreSize := 8, startPositions := some [6] } = .ok arena ∧
        arena.core.cells[6]? = some ⟨.mov, .direct, -6, .direct, -12⟩ :=
    ⟨_, rfl, by decide +kernel⟩
  obtain ⟨origins, hplace, hlands⟩ := load_lands (by decide) (by decide) hload
  obtain rfl : [6] = origins := Except.ok.inj hplace
  obtain ⟨x, c, hx, hc, ha, hb⟩ := hlands 0 strider 6 ⟨rfl, rfl⟩ 0 _ rfl
  obtain rfl : x = 6 := UInt64.toNat_inj.mp hx
  obtain rfl := Option.some.inj (hcell.symm.trans hc)
  have hlast : strider.Labels "last" 2 := ⟨_, rfl, rfl⟩
  have htop : strider.Labels "top" 0 := ⟨_, rfl, rfl⟩
  have hspan : strider.Equates 1 "span" _ := ⟨_, rfl, rfl, rfl, rfl⟩
  have hamounts (distance : Nat → Nat → Int) : strider.Amounts distance 4 0 (.symbol "span")
      ((distance 1 2 - distance 1 0) * 2) :=
    .constant (by decide) hspan
      (.binary (.binary (.label hlast) (.label htop) rfl) (.literal 2) rfl)
  obtain ⟨V, W, hV, hW, hleads⟩ := hb.value not_divides_strider
  obtain rfl : 4 = V := (hV _).mp (hamounts _)
  obtain rfl : -12 = W := (hW _).mp (hamounts _)
  exact ⟨arena, hload, hcell, ha.label "last" 2 rfl hlast, hleads (by decide) (by decide)⟩

end CoreWar
