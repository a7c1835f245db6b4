/-
# What names and fields mean

The meaning of a field, said on the program itself and without a symbol
table. A program that lies at `origin` in a ring of `size` cells has its
instruction number `j` in the cell `(origin + j) % size`. At the address
`here` a label stands for the distance from `here` to the cell of its
instruction, and a constant stands for the value of its expression at the
address of the instruction that follows its directive, where the labels of the
whole program and the constants in front of it are in scope.

A table that binds just these names (`SymbolTable.Knows`) evaluates an
expression to its meaning, and fails when it has none
(`SymbolTable.Knows.evaluate_eq_ok`).

Key definitions: `Program.instructions`, `Program.Labels`, `Program.Denotes`,
`Program.Binds`, `SymbolTable.Knows`.
Key theorems: `SymbolTable.find?_define`, `SymbolTable.Knows.evaluate_eq_ok`.
-/
import CoreWar.Proofs.Arena

namespace CoreWar

/-! ### The statements that matter -/

namespace Program

/-- The statements that occupy a cell, in order. -/
def instructions (p : Program) : List Statement := p.body.filter Statement.occupies

/-- The number of cells that the first `k` statements occupy. -/
def cellsBefore (p : Program) (k : Nat) : Nat := (p.body.take k).countP Statement.occupies

/-- The name is the label of instruction number `j`. -/
def Labels (p : Program) (name : String) (j : Nat) : Prop :=
  ∃ s, p.instructions[j]? = some s ∧ s.label = some name

/-- The statement at position `k` is the directive that gives `name` the value of `e`. -/
def Equates (p : Program) (k : Nat) (name : String) (e : Expression) : Prop :=
  ∃ s, p.body[k]? = some s ∧ s.mnemonic = .equ ∧ s.label = some name ∧ s.aField = e

/-- The name at which the first `END` asks to start. -/
def startName? (p : Program) : Option String :=
  (p.find? fun s => s.mnemonic = .finish).bind fun s => s.aField.symbol?

theorem length_instructions (p : Program) : p.instructions.length = p.footprint :=
  List.countP_eq_length_filter.symm

/-! ### Meaning -/

/-- At the address `here`, with the constants among the first `scope` statements in
scope, the expression has this value. -/
inductive Denotes (p : Program) (size origin : Nat) :
    (scope here : Nat) → Expression → Field → Prop
  | literal {scope here : Nat} (v : Field) : Denotes p size origin scope here (.literal v) v
  | label {scope here j : Nat} {name : String} {v : Field} :
    p.Labels name j → v.toInt = ((origin + j) % size : Nat) - here →
    Denotes p size origin scope here (.symbol name) v
  | constant {scope here k : Nat} {name : String} {e : Expression} {v : Field} :
    k < scope → p.Equates k name e →
    Denotes p size origin k ((origin + p.cellsBefore k) % size) e v →
    Denotes p size origin scope here (.symbol name) v
  | binary {scope here : Nat} {op : Operator} {left right : Expression} {x y v : Field} :
    Denotes p size origin scope here left x → Denotes p size origin scope here right y →
    op.eval? x y = some v → Denotes p size origin scope here (.binary op left right) v

/-- What a name is bound to, when the constants among the first `scope` statements are
in scope. -/
def Binds (p : Program) (size origin scope : Nat) (name : String) : Binding → Prop
  | .label a => ∃ j, p.Labels name j ∧ a.toNat = (origin + j) % size
  | .constant v => ∃ k e, k < scope ∧ p.Equates k name e ∧
      p.Denotes size origin k ((origin + p.cellsBefore k) % size) e v

variable {p : Program} {size origin scope here : Nat}

@[simp] theorem denotes_literal {u v : Field} :
    p.Denotes size origin scope here (.literal u) v ↔ v = u := by
  constructor
  · rintro ⟨⟩
    rfl
  · rintro rfl
    exact .literal v

theorem denotes_binary {op : Operator} {left right : Expression} {v : Field} :
    p.Denotes size origin scope here (.binary op left right) v ↔
      ∃ x y, p.Denotes size origin scope here left x ∧
        p.Denotes size origin scope here right y ∧ op.eval? x y = some v := by
  constructor
  · rintro ⟨⟩
    exact ⟨_, _, ‹_›, ‹_›, ‹_›⟩
  · rintro ⟨x, y, hx, hy, hv⟩
    exact .binary hx hy hv

end Program

/-! ### Tables that know a program -/

namespace SymbolTable

/-- A definition adds one name and leaves the others. -/
theorem find?_define {t u : SymbolTable} {name : String} {b : Binding}
    (h : t.define name b = .ok u) (n : String) (c : Binding) :
    u.find? n = some c ↔ (n = name ∧ c = b) ∨ t.find? n = some c := by
  unfold define at h
  split at h
  · cases h
  rename_i hfree
  cases h
  have hn : t.find? name = none := by simpa using hfree
  by_cases he : n = name
  · subst he
    have h1 : find? ⟨(n, b) :: t.bindings⟩ n = some b := by simp [find?]
    rw [h1, hn]
    simp [eq_comm]
  · have h1 : find? ⟨(name, b) :: t.bindings⟩ n = t.find? n := by
      simp [find?, List.lookup_cons, beq_eq_false_iff_ne.mpr he]
    rw [h1]
    simp [he]

/-- The table binds the labels of the program and the constants among its first
`scope` statements, each to its meaning, and nothing else. -/
def Knows (t : SymbolTable) (p : Program) (size origin scope : Nat) : Prop :=
  ∀ name b, t.find? name = some b ↔ p.Binds size origin scope name b

theorem evaluate_binary {t : SymbolTable} {here : Address} {op : Operator}
    {left right : Expression} {v : Field} :
    t.evaluate here (.binary op left right) = .ok v ↔
      ∃ x y, t.evaluate here left = .ok x ∧ t.evaluate here right = .ok y ∧
        op.eval? x y = some v := by
  have hoperation (x y : Field) : (op.eval? x y).elim (.error .divisionByZero) .ok =
      (.ok v : Except SymbolError Field) ↔ op.eval? x y = some v := by
    cases op.eval? x y <;> simp
  simp only [evaluate_binary_eq, bind_eq_ok, hoperation, exists_and_left]

theorem evaluate_symbol {t : SymbolTable} {here : Address} {name : String} {v : Field} :
    t.evaluate here (.symbol name) = .ok v ↔
      ∃ b, t.find? name = some b ∧ b.value here = v := by
  rw [evaluate_symbol_eq]
  cases t.find? name <;> simp

/-- A label stands for the signed distance to its address. -/
theorem value_label_eq {a here : Address} (ha : a.toNat < 2 ^ 63) (hh : here.toNat < 2 ^ 63)
    {v : Field} :
    (Binding.label a).value here = v ↔ v.toInt = (a.toNat : Int) - here.toNat := by
  have h : ((Binding.label a).value here).toInt = (a.toNat : Int) - here.toNat := by
    show (a.toInt64 - here.toInt64).toInt = _
    rw [Int64.toInt_sub, toInt_toInt64, toInt_toInt64, Int.bmod_sub_bmod, Int.sub_bmod_bmod]
    exact Int.bmod_eq_of_le_mul_two (by omega) (by omega)
  rw [← h, ← Int64.toInt_inj, eq_comm]

variable {t : SymbolTable} {p : Program} {size origin scope : Nat}

/-- A name means what it is bound to. -/
theorem Knows.evaluate_symbol_eq_ok (ht : t.Knows p size origin scope) (hs : 0 < size)
    (hs' : size ≤ 2 ^ 63) {here : Address} (hh : here.toNat < 2 ^ 63) {name : String} {v : Field} :
    t.evaluate here (.symbol name) = .ok v ↔
      p.Denotes size origin scope here.toNat (.symbol name) v := by
  rw [evaluate_symbol]
  -- an address below the size is a nonnegative signed number
  have hcell (j : Nat) : (origin + j) % size < 2 ^ 63 :=
    Nat.lt_of_lt_of_le (Nat.mod_lt _ hs) hs'
  constructor
  · rintro ⟨b, hb, hv⟩
    cases b with
    | label a =>
      obtain ⟨j, hj, ha⟩ := (ht name (.label a)).mp hb
      rw [value_label_eq (ha ▸ hcell j) hh, ha] at hv
      exact .label hj hv
    | constant w =>
      obtain ⟨k, e, hk, he, hd⟩ := (ht name (.constant w)).mp hb
      obtain rfl : w = v := hv
      exact .constant hk he hd
  · intro h
    cases h with
    | @label _ _ j _ _ hj hv =>
      obtain ⟨a, ha⟩ := exists_address_of_lt (Nat.lt_trans (hcell j) (by decide))
      refine ⟨.label a, (ht name _).mpr ⟨j, hj, ha⟩, ?_⟩
      rw [value_label_eq (ha ▸ hcell j) hh, ha]
      exact hv
    | constant hk he hd => exact ⟨.constant v, (ht name _).mpr ⟨_, _, hk, he, hd⟩, rfl⟩

/-- Evaluation gives the meaning of an expression, and fails when it has none. -/
theorem Knows.evaluate_eq_ok (ht : t.Knows p size origin scope) (hs : 0 < size)
    (hs' : size ≤ 2 ^ 63) {here : Address} (hh : here.toNat < 2 ^ 63) :
    ∀ {e : Expression} {v : Field},
      t.evaluate here e = .ok v ↔ p.Denotes size origin scope here.toNat e v
  | .literal u, v => by simp [evaluate, eq_comm]
  | .symbol name, v => ht.evaluate_symbol_eq_ok hs hs' hh
  | .binary op left right, v => by
    rw [evaluate_binary, Program.denotes_binary]
    simp only [ht.evaluate_eq_ok hs hs' hh]

end SymbolTable

end CoreWar
