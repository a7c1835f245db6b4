/-
# The first fault of a program

Linking looks at the statements in front of `END` three times, and a program
can be at fault in each of these phases (`Program.Fault`): first for its
names, a label that stands on a second instruction or a constant without a
name; then for its constants, an expression without a value or a name that is
taken; last for its fields. Where an expression has no value there is a first
reason for it, left before right (`Program.Fails`). All this is said on the
program and the meaning of its fields, without a symbol table.

A failure of linking is the fault that comes first, by phase and then by
statement (`first_fault_of_link`), and where linking succeeds there is none
(`not_fault_of_link`), so that every name of the program is bound once
(`distinct_of_link`). Each phase goes over the statements in order, so one
notion serves all three: the result of checks numbered from `index` on reports
the fault with the smallest number (`Reports`).

Key definitions: `Reports`, `First`, `Program.Fails`, `Phase`,
`Program.Fault`, `SymbolTable.Settled`, `Program.Distinct`.
Key theorems: `SymbolTable.Settled.evaluate_eq_error`, `outline_reports`,
`Outlined.constants_report`, `Outlined.fields_report`, `not_fault_of_link`,
`first_fault_of_link`, `distinct_of_link`.
-/
import CoreWar.Proofs.Linking

namespace CoreWar

/-! ### Reporting the first of many faults -/

section Reports

variable {κ ε ε' α β : Type}

theorem bind_eq_error {x : Except ε α} {f : α → Except ε β} {e : ε} :
    x.bind f = .error e ↔ x = .error e ∨ ∃ a, x = .ok a ∧ f a = .error e := by
  cases x <;> simp [Except.bind]

theorem map_eq_error {x : Except ε α} {f : α → β} {e : ε} :
    x.map f = .error e ↔ x = .error e := by
  cases x <;> simp [Except.map]

/-- Of all checks, in their order, `c` is the first with a fault, and `e` is its only fault. -/
structure First (before : κ → κ → Prop) (F : κ → ε → Prop) (c : κ) (e : ε) : Prop where
  only : ∀ e', F c e' ↔ e' = e
  clear : ∀ c', before c' c → ∀ e', ¬ F c' e'

/-- What the checks numbered from `index` on come to: a failure is the fault with the smallest
number, and without a failure there is no fault. -/
def Reports (F : Nat → ε → Prop) (index : Nat) : Except (Nat × ε) α → Prop
  | .ok _ => ∀ k, index ≤ k → ∀ e, ¬ F k e
  | .error (k, e) => index ≤ k ∧ First (fun k' k => index ≤ k' ∧ k' < k) F k e

/-- What the check number `index` alone comes to. -/
def ReportsAt (F : Nat → ε → Prop) (index : Nat) : Except (Nat × ε) α → Prop
  | .ok _ => ∀ e, ¬ F index e
  | .error (k, e) => k = index ∧ ∀ e', F index e' ↔ e' = e

namespace Reports

variable {F : Nat → ε → Prop} {index : Nat} {x : Except (Nat × ε) α}

theorem map {g : α → β} (h : Reports F index x) : Reports F index (x.map g) := by
  cases x with
  | error e => exact h
  | ok a => exact h

theorem skip (hF : ∀ e, ¬ F index e) (h : Reports F (index + 1) x) : Reports F index x := by
  -- a number from `index` on is `index` or lies behind it
  have hsplit (k : Nat) (hk : index ≤ k) (hrest : index + 1 ≤ k → ∀ e, ¬ F k e) :
      ∀ e, ¬ F k e := by
    rcases Nat.eq_or_lt_of_le hk with rfl | hk
    · exact hF
    · exact hrest hk
  cases x with
  | ok a => exact fun k hk => hsplit k hk (h k)
  | error e =>
    obtain ⟨hle, honly, hclear⟩ := h
    exact ⟨Nat.le_of_succ_le hle, honly, fun k' hk' =>
      hsplit k' hk'.1 fun hle' => hclear k' ⟨hle', hk'.2⟩⟩

theorem bind {f : α → Except (Nat × ε) β} (hx : ReportsAt F index x)
    (h : ∀ a, x = .ok a → Reports F (index + 1) (f a)) : Reports F index (x.bind f) := by
  cases x with
  | ok a => exact skip hx (h a rfl)
  | error e =>
    obtain ⟨hk, honly⟩ := hx
    refine ⟨Nat.le_of_eq hk.symm, fun e' => ?_, fun k' hk' => ?_⟩
    · rw [hk]
      exact honly e'
    · omega

end Reports

end Reports

/-! ### Expressions without a value -/

namespace Program

/-- At the address `here`, with the constants among the first `scope` statements in scope, the
expression has no value, and this is the first reason, left before right. -/
inductive Fails (p : Program) (size origin : Nat) :
    (scope here : Nat) → Expression → SymbolError → Prop
  | unresolved {scope here : Nat} {name : String} :
    (∀ j, ¬ p.Labels name j) → (∀ k < scope, ∀ e, ¬ p.Equates k name e) →
    Fails p size origin scope here (.symbol name) (.unresolved name)
  | left {scope here : Nat} {op : Operator} {left right : Expression} {e : SymbolError} :
    Fails p size origin scope here left e →
    Fails p size origin scope here (.binary op left right) e
  | right {scope here : Nat} {op : Operator} {left right : Expression} {x : Field}
    {e : SymbolError} :
    p.Denotes size origin scope here left x → Fails p size origin scope here right e →
    Fails p size origin scope here (.binary op left right) e
  | division {scope here : Nat} {left right : Expression} {x : Field} :
    p.Denotes size origin scope here left x → p.Denotes size origin scope here right 0 →
    Fails p size origin scope here (.binary .divide left right) .divisionByZero

/-- The address at which the statement at position `k` is evaluated: its own cell, or that of
the instruction behind it. -/
def addressOf (p : Program) (size origin k : Nat) : Nat := (origin + p.cellsBefore k) % size

theorem addressOf_lt (p : Program) {size : Nat} (hs : 0 < size) (origin k : Nat) :
    p.addressOf size origin k < size := Nat.mod_lt _ hs

end Program

theorem Operator.eval?_eq_none {op : Operator} {x y : Field} :
    op.eval? x y = none ↔ op = .divide ∧ y = 0 := by
  cases op <;> simp [Operator.eval?]

namespace SymbolTable

theorem evaluate_binary_eq_error {t : SymbolTable} {here : Address} {op : Operator}
    {left right : Expression} {e : SymbolError} :
    t.evaluate here (.binary op left right) = .error e ↔
      t.evaluate here left = .error e ∨
      (∃ x, t.evaluate here left = .ok x ∧ t.evaluate here right = .error e) ∨
      (∃ x y, t.evaluate here left = .ok x ∧ t.evaluate here right = .ok y ∧
        op.eval? x y = none ∧ .divisionByZero = e) := by
  have hoperation (x y : Field) : (op.eval? x y).elim (.error .divisionByZero) .ok =
      (.error e : Except SymbolError Field) ↔ op.eval? x y = none ∧ .divisionByZero = e := by
    cases op.eval? x y <;> simp
  simp only [evaluate_binary_eq, bind_eq_error, hoperation, and_or_left, exists_or,
    exists_and_left]

/-- The table knows the program, and the constants in scope have values. -/
structure Settled (t : SymbolTable) (p : Program) (size origin scope : Nat) : Prop where
  knows : t.Knows p size origin scope
  valued : ∀ k < scope, ∀ name e, p.Equates k name e →
    ∃ v, p.Denotes size origin k (p.addressOf size origin k) e v

namespace Settled

variable {t : SymbolTable} {p : Program} {size origin scope : Nat}

theorem isSome_find? (h : t.Settled p size origin scope) (hs : 0 < size) (hs' : size < 2 ^ 63)
    {name : String} : (t.find? name).isSome = true ↔
      (∃ j, p.Labels name j) ∨ ∃ k < scope, ∃ e, p.Equates k name e := by
  rw [Option.isSome_iff_exists]
  constructor
  · rintro ⟨b, hb⟩
    have hbinds := (h.knows name b).mp hb
    cases b with
    | label a =>
      obtain ⟨j, hj, -⟩ := hbinds
      exact .inl ⟨j, hj⟩
    | constant v =>
      obtain ⟨k, e, hk, he, -⟩ := hbinds
      exact .inr ⟨k, hk, e, he⟩
  · rintro (⟨j, hj⟩ | ⟨k, hk, e, he⟩)
    · have hlt : (origin + j) % size < size := Nat.mod_lt _ hs
      obtain ⟨a, ha⟩ := exists_address_of_lt (n := (origin + j) % size) (by omega)
      exact ⟨.label a, (h.knows name _).mpr ⟨j, hj, ha⟩⟩
    · obtain ⟨v, hv⟩ := h.valued k hk name e he
      exact ⟨.constant v, (h.knows name _).mpr ⟨k, e, hk, he, hv⟩⟩

/-- Evaluation fails for the first reason that there is. -/
theorem evaluate_eq_error (h : t.Settled p size origin scope) (hs : 0 < size)
    (hs' : size < 2 ^ 63) {here : Address} (hh : here.toNat < 2 ^ 63) :
    ∀ {e : Expression} {err : SymbolError},
      t.evaluate here e = .error err ↔ p.Fails size origin scope here.toNat e err
  | .literal u, err => by
    simp only [evaluate, reduceCtorEq, false_iff]
    rintro ⟨⟩
  | .symbol name, err => by
    have hbound : (t.find? name).isSome = true ↔ _ := h.isSome_find? hs hs'
    have hlocal : t.evaluate here (.symbol name) = .error err ↔
        (t.find? name).isSome = false ∧ .unresolved name = err := by
      rw [evaluate_symbol_eq]
      cases t.find? name <;> simp
    rw [hlocal, ← Bool.not_eq_true, hbound, not_or]
    constructor
    · rintro ⟨⟨hl, hc⟩, rfl⟩
      exact .unresolved (fun j hj => hl ⟨j, hj⟩) fun k hk e he => hc ⟨k, hk, e, he⟩
    · rintro ⟨⟩
      rename_i hl hc
      refine ⟨⟨?_, ?_⟩, rfl⟩
      · rintro ⟨j, hj⟩
        exact hl j hj
      · rintro ⟨k, hk, e, he⟩
        exact hc k hk e he
  | .binary op left right, err => by
    have hok {e : Expression} {v : Field} :=
      h.knows.evaluate_eq_ok hs (Nat.le_of_lt hs') hh (e := e) (v := v)
    rw [evaluate_binary_eq_error]
    simp only [hok, h.evaluate_eq_error hs hs' hh, Operator.eval?_eq_none]
    constructor
    · rintro (hl | ⟨x, hx, hr⟩ | ⟨x, y, hx, hy, ⟨rfl, rfl⟩, rfl⟩)
      · exact .left hl
      · exact .right hx hr
      · exact .division hx hy
    · rintro ⟨⟩
      · exact .inl ‹_›
      · exact .inr (.inl ⟨_, ‹_›, ‹_›⟩)
      · exact .inr (.inr ⟨_, _, ‹_›, ‹_›, ⟨rfl, rfl⟩, rfl⟩)

section At

variable (h : t.Settled p size origin scope) (hs : 0 < size) (hs' : size < 2 ^ 63)
  {here : Address} {k : Nat} (hh : here.toNat = p.addressOf size origin k)

include h hs hs' hh

/-! At a statement of the program the table gives the meaning of an expression, or the reason
why it has none. -/

theorem evaluate_eq_ok_at {e : Expression} {v : Field} : t.evaluate here e = .ok v ↔
    p.Denotes size origin scope (p.addressOf size origin k) e v := by
  have hlt := p.addressOf_lt hs origin k
  rw [← hh] at hlt ⊢
  exact h.knows.evaluate_eq_ok hs (Nat.le_of_lt hs') (Nat.lt_trans hlt hs')

theorem evaluate_eq_error_at {e : Expression} {err : SymbolError} :
    t.evaluate here e = .error err ↔
      p.Fails size origin scope (p.addressOf size origin k) e err := by
  have hlt := p.addressOf_lt hs origin k
  rw [← hh] at hlt ⊢
  exact h.evaluate_eq_error hs hs' (Nat.lt_trans hlt hs')

end At

end Settled

end SymbolTable

/-! ### Faults -/

/-- The three times that linking looks at the statements. -/
inductive Phase
  | names | constants | fields
  deriving DecidableEq

def Phase.number : Phase → Nat
  | names => 0
  | constants => 1
  | fields => 2

theorem Phase.number_inj {a b : Phase} (h : a.number = b.number) : a = b := by
  cases a <;> cases b <;> first | rfl | cases h

namespace Program

/-- The statement at position `k` is an instruction with this label. -/
def Marks (p : Program) (k : Nat) (name : String) : Prop :=
  ∃ s, p.body[k]? = some s ∧ s.occupies = true ∧ s.label = some name

/-- What is wrong with the statement at position `k`, in each phase. -/
inductive Fault (p : Program) (size origin : Nat) : Phase → Nat → StatementError → Prop
  /-- The label of an instruction stands on another one further up. -/
  | repeated {k k' : Nat} {name : String} : p.Marks k name → k' < k → p.Marks k' name →
    Fault p size origin .names k (.symbol (.duplicate name))
  /-- A constant has no name. -/
  | unlabeled {k : Nat} {s : Statement} : p.body[k]? = some s → s.mnemonic = .equ →
    s.label = none → Fault p size origin .names k .unlabeledConstant
  /-- The expression of a constant has no value with the labels and the constants in front. -/
  | value {k : Nat} {name : String} {e : Expression} {err : SymbolError} : p.Equates k name e →
    p.Fails size origin k (p.addressOf size origin k) e err →
    Fault p size origin .constants k (.symbol err)
  /-- The name of a constant is a label or a constant in front. -/
  | taken {k : Nat} {name : String} {e : Expression} {v : Field} : p.Equates k name e →
    p.Denotes size origin k (p.addressOf size origin k) e v →
    ((∃ j, p.Labels name j) ∨ ∃ k' < k, ∃ e', p.Equates k' name e') →
    Fault p size origin .constants k (.symbol (.duplicate name))
  /-- The A-field of an instruction has no value. -/
  | aField {k : Nat} {s : Statement} {err : SymbolError} : p.body[k]? = some s →
    s.occupies = true →
    p.Fails size origin p.body.length (p.addressOf size origin k) s.aField err →
    Fault p size origin .fields k (.symbol err)
  /-- The A-field of an instruction has a value, but its B-field has none. -/
  | bField {k : Nat} {s : Statement} {v : Field} {err : SymbolError} : p.body[k]? = some s →
    s.occupies = true →
    p.Denotes size origin p.body.length (p.addressOf size origin k) s.aField v →
    p.Fails size origin p.body.length (p.addressOf size origin k) s.bField err →
    Fault p size origin .fields k (.symbol err)

variable {p rest : Program} {size origin index k : Nat} {here : Address} {s : Statement}

theorem Marks.lt {name : String} (h : p.Marks k name) : k < p.body.length := by
  obtain ⟨s, hs, -⟩ := h
  exact (List.getElem?_eq_some_iff.mp hs).1

theorem Equates.lt {name : String} {e : Expression} (h : p.Equates k name e) :
    k < p.body.length := by
  obtain ⟨s, hs, -⟩ := h
  exact (List.getElem?_eq_some_iff.mp hs).1

theorem Fault.lt {phase : Phase} {c : StatementError} (h : p.Fault size origin phase k c) :
    k < p.body.length := by
  cases h with
  | repeated hk _ _ => exact hk.lt
  | value he _ | taken he _ _ => exact he.lt
  | unlabeled hs _ _ | aField hs _ _ | bField hs _ _ _ =>
    exact (List.getElem?_eq_some_iff.mp hs).1

/-! ### Walking over the statements -/

/-- The walk has come to position `index` and address `here`, with the statements `rest` in front
of it. -/
structure Reached (p : Program) (size origin index : Nat) (here : Address) (rest : Program) :
    Prop where
  body : p.body.drop index = rest.body
  here : here.toNat = p.addressOf size origin index

theorem drop_body_cons (h : p.body.drop index = body (s :: rest)) (hs : s.mnemonic ≠ .finish) :
    p.body[index]? = some s ∧ p.body.drop (index + 1) = rest.body := by
  rw [body_of_ne hs] at h
  constructor
  · rw [← Nat.add_zero index, ← List.getElem?_drop, h]
    rfl
  · rw [← List.drop_drop, h]
    rfl

theorem addressOf_succ (h : p.body[index]? = some s) : p.addressOf size origin (index + 1) =
    (p.addressOf size origin index + [s].countP Statement.occupies) % size := by
  simp only [addressOf, cellsBefore, List.take_add_one, h, Option.toList_some, List.countP_append,
    Nat.mod_add_mod, Nat.add_assoc]

namespace Reached

theorem start {origin : Address} (ho : origin.toNat < size) :
    p.Reached size origin.toNat 0 origin p := by
  refine ⟨rfl, ?_⟩
  simp [addressOf, cellsBefore, Nat.mod_eq_of_lt ho]

theorem lt (h : p.Reached size origin index here rest) (hs : 0 < size) : here.toNat < size := by
  rw [h.here]
  exact Nat.mod_lt _ hs

theorem op (h : p.Reached size origin index here (s :: rest)) (hs : 0 < size)
    (hs' : size < 2 ^ 63) {o : Opcode} (ho : s.mnemonic = .op o) :
    p.Reached size origin (index + 1) (offset size here 1) rest := by
  obtain ⟨hget, hdrop⟩ := drop_body_cons h.body (by simp [ho])
  refine ⟨hdrop, ?_⟩
  rw [offset_one_toNat hs hs' (h.lt hs), addressOf_succ hget, h.here]
  simp [s.occupies_of_op ho]

theorem equ (h : p.Reached size origin index here (s :: rest)) (hs : 0 < size)
    (he : s.mnemonic = .equ) : p.Reached size origin (index + 1) here rest := by
  obtain ⟨hget, hdrop⟩ := drop_body_cons h.body (by simp [he])
  refine ⟨hdrop, ?_⟩
  rw [addressOf_succ hget, ← h.here]
  simp [s.occupies_of_equ he, Nat.mod_eq_of_lt (h.lt hs)]

end Reached

end Program

/-- Behind the last statement there is no fault. -/
theorem reports_ok_of_drop {α : Type} {p : Program} {size origin index : Nat} {phase : Phase}
    (h : p.body.drop index = []) (a : α) :
    Reports (p.Fault size origin phase) index (.ok a) := by
  intro k hk c hc
  have hlt := hc.lt
  have hle := List.drop_eq_nil_iff.mp h
  omega

/-! ### The names -/

/-- The table binds the labels of the instructions among the first `index` statements. -/
def SymbolTable.Marked (t : SymbolTable) (p : Program) (index : Nat) : Prop :=
  ∀ name, (t.find? name).isSome = true ↔ ∃ k < index, p.Marks k name

section Names

variable {p : Program} {size origin index : Nat} {here : Address} {t u : SymbolTable}
  {s : Statement}

theorem SymbolTable.Marked.skip (h : t.Marked p index) (hn : ∀ name, ¬ p.Marks index name) :
    t.Marked p (index + 1) := by
  intro name
  rw [h name]
  constructor
  · rintro ⟨k, hk, hm⟩
    exact ⟨k, Nat.lt_succ_of_lt hk, hm⟩
  · rintro ⟨k, hk, hm⟩
    rcases Nat.lt_succ_iff_lt_or_eq.mp hk with hk | rfl
    · exact ⟨k, hk, hm⟩
    · exact absurd hm (hn name)

theorem marks_iff (hget : p.body[index]? = some s) {name : String} :
    p.Marks index name ↔ s.occupies = true ∧ s.label = some name := by
  simp [Program.Marks, hget]

theorem SymbolTable.Marked.bindLabel (h : t.Marked p index) (hget : p.body[index]? = some s)
    (hocc : s.occupies = true) (hu : bindLabel t index here s.label = .ok u) :
    u.Marked p (index + 1) := by
  intro name
  have hfind : (u.find? name).isSome = true ↔
      s.label = some name ∨ (t.find? name).isSome = true := by
    simp only [Option.isSome_iff_exists, find?_bindLabel hu]
    constructor
    · rintro ⟨b, ⟨hl, -⟩ | hb⟩
      · exact .inl hl
      · exact .inr ⟨b, hb⟩
    · rintro (hl | ⟨b, hb⟩)
      · exact ⟨.label here, .inl ⟨hl, rfl⟩⟩
      · exact ⟨b, .inr hb⟩
  rw [hfind, h name]
  constructor
  · rintro (hl | ⟨k, hk, hm⟩)
    · exact ⟨index, Nat.lt_succ_self index, (marks_iff hget).mpr ⟨hocc, hl⟩⟩
    · exact ⟨k, Nat.lt_succ_of_lt hk, hm⟩
  · rintro ⟨k, hk, hm⟩
    rcases Nat.lt_succ_iff_lt_or_eq.mp hk with hk | rfl
    · exact .inr ⟨k, hk, hm⟩
    · exact .inl ((marks_iff hget).mp hm).2

/-- Binding the label of an instruction fails when it stands further up. -/
theorem bindLabel_reportsAt (h : t.Marked p index) (hget : p.body[index]? = some s)
    {o : Opcode} (ho : s.mnemonic = .op o) :
    ReportsAt (p.Fault size origin .names) index (bindLabel t index here s.label) := by
  -- the one fault that an instruction can have in this phase
  have hfault {c : StatementError} (hc : p.Fault size origin .names index c) :
      ∃ name, s.label = some name ∧ (t.find? name).isSome = true ∧
        c = .symbol (.duplicate name) := by
    cases hc with
    | repeated hm hk hm' => exact ⟨_, ((marks_iff hget).mp hm).2, (h _).mpr ⟨_, hk, hm'⟩, rfl⟩
    | unlabeled hs he _ =>
      obtain rfl := Option.some.inj (hget.symm.trans hs)
      simp [ho] at he
  cases hl : s.label with
  | none =>
    intro c hc
    obtain ⟨name, hname, -⟩ := hfault hc
    simp [hl] at hname
  | some name =>
    simp only [bindLabel, SymbolTable.define]
    split
    · rename_i hsome
      refine ⟨rfl, fun c => ⟨fun hc => ?_, ?_⟩⟩
      · obtain ⟨name', hname', -, rfl⟩ := hfault hc
        rw [Option.some.inj (hl.symm.trans hname')]
      · rintro rfl
        obtain ⟨k, hk, hm⟩ := (h name).mp hsome
        exact .repeated ((marks_iff hget).mpr ⟨s.occupies_of_op ho, hl⟩) hk hm
    · rename_i hnone
      intro c hc
      obtain ⟨name', hname', hsome, -⟩ := hfault hc
      rw [Option.some.inj (hl.symm.trans hname')] at hnone
      exact hnone hsome

theorem not_names_of_equ {c : StatementError} (hget : p.body[index]? = some s)
    (he : s.mnemonic = .equ) {name : String} (hl : s.label = some name) :
    ¬ p.Fault size origin .names index c := by
  intro hc
  cases hc with
  | repeated hm _ _ =>
    have hocc := ((marks_iff hget).mp hm).1
    simp [s.occupies_of_equ he] at hocc
  | unlabeled hs _ hnone =>
    obtain rfl := Option.some.inj (hget.symm.trans hs)
    simp [hl] at hnone

/-- A constant without a name has that fault only. -/
theorem names_of_unlabeled {c : StatementError} (hget : p.body[index]? = some s)
    (he : s.mnemonic = .equ) (hl : s.label = none) :
    p.Fault size origin .names index c ↔ c = .unlabeledConstant := by
  constructor
  · intro hc
    cases hc with
    | repeated hm _ _ =>
      have hlabel := ((marks_iff hget).mp hm).2
      simp [hl] at hlabel
    | unlabeled _ _ _ => rfl
  · rintro rfl
    exact .unlabeled hget he hl

/-- **The walk reports the first fault in the names.** -/
theorem outline_reports : ∀ (rest : Program) {index : Nat} {here : Address} {t : SymbolTable},
    p.body.drop index = rest.body → t.Marked p index →
      Reports (p.Fault size origin .names) index (outline size index here t rest)
  | [], index, here, t, hdrop, ht => reports_ok_of_drop hdrop _
  | s :: rest, index, here, t, hdrop, ht => by
    unfold outline
    split
    · rename_i o ho
      obtain ⟨hget, hrest⟩ := Program.drop_body_cons hdrop (by simp [ho])
      refine Reports.bind (bindLabel_reportsAt ht hget ho) fun u hu => Reports.map ?_
      exact outline_reports rest hrest (ht.bindLabel hget (s.occupies_of_op ho) hu)
    · rename_i he
      obtain ⟨hget, hrest⟩ := Program.drop_body_cons hdrop (by simp [he])
      have hskip : t.Marked p (index + 1) := ht.skip fun name hm => by
        have hocc := ((marks_iff hget).mp hm).1
        simp [s.occupies_of_equ he] at hocc
      cases hl : s.label with
      | none => exact ⟨Nat.le_refl _, fun c => names_of_unlabeled hget he hl, by omega⟩
      | some name =>
        refine Reports.skip (fun c => not_names_of_equ hget he hl) (Reports.map ?_)
        exact outline_reports rest hrest hskip
    · rename_i hf
      rw [Program.body_of_finish hf] at hdrop
      exact reports_ok_of_drop hdrop _

end Names

/-! ### The constants -/

section Constants

variable {p : Program} {size origin index : Nat} {t u : SymbolTable} {d : Definition}
  (hs : 0 < size) (hs' : size < 2 ^ 63)

theorem not_constants_of_not_equates (h : ∀ name e, ¬ p.Equates index name e)
    {c : StatementError} : ¬ p.Fault size origin .constants index c := by
  intro hc
  cases hc with
  | value he _ | taken he _ _ => exact h _ _ he

theorem SymbolTable.Settled.skip (h : t.Settled p size origin index)
    (hn : ∀ name e, ¬ p.Equates index name e) : t.Settled p size origin (index + 1) := by
  refine ⟨h.knows.skip hn, fun k hk name e he => ?_⟩
  rcases Nat.lt_succ_iff_lt_or_eq.mp hk with hk | rfl
  · exact h.valued k hk name e he
  · exact absurd he (hn name e)

include hs hs'

section Bind

variable (ht : t.Settled p size origin index) (hd : p.Equates index d.name d.value)
  (ha : d.address.toNat = p.addressOf size origin index)

include ht hd ha

theorem SymbolTable.Settled.bind (h : d.bind t = .ok u) : u.Settled p size origin (index + 1) := by
  refine ⟨ht.knows.bind hs hs' hd ha h, fun k hk name e he => ?_⟩
  rcases Nat.lt_succ_iff_lt_or_eq.mp hk with hk | rfl
  · exact ht.valued k hk name e he
  · obtain ⟨v, hv, -⟩ := bind_eq_ok.mp h
    obtain ⟨-, rfl⟩ := hd.unique he
    exact ⟨v, (ht.evaluate_eq_ok_at hs hs' ha).mp (atStatement_eq_ok.mp hv)⟩

/-- The faults that a constant can have: its expression has no value, or its name is taken. -/
theorem constants_cases {c : StatementError} (h : p.Fault size origin .constants index c) :
    (∃ err, t.evaluate d.address d.value = .error err ∧ c = .symbol err) ∨
      (∃ v, t.evaluate d.address d.value = .ok v) ∧ (t.find? d.name).isSome = true ∧
        c = .symbol (.duplicate d.name) := by
  cases h with
  | value he hf =>
    obtain ⟨rfl, rfl⟩ := hd.unique he
    exact .inl ⟨_, (ht.evaluate_eq_error_at hs hs' ha).mpr hf, rfl⟩
  | taken he hv hbound =>
    obtain ⟨rfl, rfl⟩ := hd.unique he
    exact .inr ⟨⟨_, (ht.evaluate_eq_ok_at hs hs' ha).mpr hv⟩,
      (ht.isSome_find? hs hs').mpr hbound, rfl⟩

/-- Binding a constant fails with its fault. -/
theorem Definition.bind_reportsAt (hindex : d.index = index) :
    ReportsAt (p.Fault size origin .constants) index (d.bind t) := by
  have hcases {c : StatementError} := constants_cases hs hs' ht hd ha (c := c)
  unfold Definition.bind
  cases heval : t.evaluate d.address d.value with
  | error err =>
    refine ⟨hindex, fun c => ⟨fun hc => ?_, ?_⟩⟩
    · rcases hcases hc with ⟨err', herr', rfl⟩ | ⟨⟨v, hv⟩, -⟩
      · rw [heval] at herr'
        rw [Except.error.inj herr']
      · simp [heval] at hv
    · rintro rfl
      exact .value hd ((ht.evaluate_eq_error_at hs hs' ha).mp heval)
  | ok v =>
    have htaken {c : StatementError} (hc : p.Fault size origin .constants index c) :
        (t.find? d.name).isSome = true ∧ c = .symbol (.duplicate d.name) := by
      rcases hcases hc with ⟨err, herr, -⟩ | ⟨-, htaken⟩
      · simp [heval] at herr
      · exact htaken
    show ReportsAt _ _ (atStatement d.index (t.define d.name (.constant v)))
    unfold SymbolTable.define
    split
    · rename_i hsome
      refine ⟨hindex, fun c => ⟨fun hc => (htaken hc).2, ?_⟩⟩
      rintro rfl
      exact .taken hd ((ht.evaluate_eq_ok_at hs hs' ha).mp heval)
        ((ht.isSome_find? hs hs').mp hsome)
    · rename_i hnone
      exact fun c hc => hnone (htaken hc).1

end Bind

/-- **The constants are bound in order, and the first fault among them is reported.** Without a
fault the table that comes out knows the program. -/
theorem Outlined.constants_report {here : Address} {t₀ : SymbolTable} {rest : Program}
    {r : Outline} (h : Outlined size index here t₀ rest r) :
    ∀ {t : SymbolTable}, p.Reached size origin index here rest → index ≤ p.body.length →
      t.Settled p size origin index →
      Reports (p.Fault size origin .constants) index (r.constants.foldlM Definition.bind t) ∧
        ∀ u, r.constants.foldlM Definition.bind t = .ok u →
          u.Settled p size origin p.body.length := by
  -- when the walk is over, everything is in scope
  have hend {index : Nat} {t : SymbolTable} (hdrop : p.body.drop index = [])
      (hle : index ≤ p.body.length) (ht : t.Settled p size origin index) :
      t.Settled p size origin p.body.length := by
    have hlength : index = p.body.length := Nat.le_antisymm hle (List.drop_eq_nil_iff.mp hdrop)
    exact hlength ▸ ht
  induction h with
  | nil =>
    intro t hr hle ht
    refine ⟨reports_ok_of_drop hr.body t, ?_⟩
    rintro u ⟨⟩
    exact hend hr.body hle ht
  | @op index here t₀ u₀ s rest r o ho _ _ ih =>
    intro t hr hle ht
    obtain ⟨hget, -⟩ := Program.drop_body_cons hr.body (by simp [ho])
    have hnone : ∀ name e, ¬ p.Equates index name e := by
      simp [Program.Equates, hget, ho]
    have hlt := (List.getElem?_eq_some_iff.mp hget).1
    obtain ⟨hreports, hsettled⟩ := ih (hr.op hs hs' ho) hlt (ht.skip hnone)
    exact ⟨Reports.skip (fun c => not_constants_of_not_equates hnone) hreports, hsettled⟩
  | @equ index here t₀ s rest r name he hn _ ih =>
    intro t hr hle ht
    obtain ⟨hget, -⟩ := Program.drop_body_cons hr.body (by simp [he])
    have hlt := (List.getElem?_eq_some_iff.mp hget).1
    have hd : p.Equates index name s.aField := ⟨s, hget, he, hn, rfl⟩
    have hnext {u : SymbolTable} (hu : (Definition.mk index name s.aField here).bind t = .ok u) :=
      ih (hr.equ hs he) hlt (ht.bind hs hs' hd hr.here hu)
    rw [List.foldlM_cons]
    refine ⟨Reports.bind (Definition.bind_reportsAt hs hs' ht hd hr.here rfl)
      fun u hu => (hnext hu).1, fun u hu => ?_⟩
    obtain ⟨t', ht', hu⟩ := bind_eq_ok.mp hu
    exact (hnext ht').2 u hu
  | @finish index here t₀ s rest hf =>
    intro t hr hle ht
    have hdrop : p.body.drop index = [] := by rw [hr.body, Program.body_of_finish hf]
    refine ⟨reports_ok_of_drop hdrop t, ?_⟩
    rintro u ⟨⟩
    exact hend hdrop hle ht

end Constants

/-! ### The fields -/

section Fields

variable {p : Program} {size origin index : Nat} {t : SymbolTable} {q : Placed} {s : Statement}
  (hs : 0 < size) (hs' : size < 2 ^ 63)

theorem not_fields_of_equ (hget : p.body[index]? = some s) (he : s.mnemonic = .equ)
    {c : StatementError} : ¬ p.Fault size origin .fields index c := by
  intro hc
  cases hc with
  | aField hs hocc _ | bField hs hocc _ _ =>
    obtain rfl := Option.some.inj (hget.symm.trans hs)
    simp [s.occupies_of_equ he] at hocc

include hs hs'

/-- Evaluating the fields of an instruction fails with its fault, A before B. -/
theorem Placed.cell_reportsAt (ht : t.Settled p size origin p.body.length)
    (hget : p.body[index]? = some q.statement) (hocc : q.statement.occupies = true)
    (ha : q.address.toNat = p.addressOf size origin index) (hindex : q.index = index) :
    ReportsAt (p.Fault size origin .fields) index (q.cell t) := by
  have hok {e : Expression} {v : Field} : t.evaluate q.address e = .ok v ↔ _ :=
    ht.evaluate_eq_ok_at hs hs' ha
  have herror {e : Expression} {err : SymbolError} : t.evaluate q.address e = .error err ↔ _ :=
    ht.evaluate_eq_error_at hs hs' ha
  have hcases {c : StatementError} (hc : p.Fault size origin .fields index c) :
      (∃ err, t.evaluate q.address q.statement.aField = .error err ∧ c = .symbol err) ∨
        (∃ v, t.evaluate q.address q.statement.aField = .ok v) ∧
          ∃ err, t.evaluate q.address q.statement.bField = .error err ∧ c = .symbol err := by
    cases hc with
    | aField hs _ hf =>
      obtain rfl := Option.some.inj (hget.symm.trans hs)
      exact .inl ⟨_, herror.mpr hf, rfl⟩
    | bField hs _ hv hf =>
      obtain rfl := Option.some.inj (hget.symm.trans hs)
      exact .inr ⟨⟨_, hok.mpr hv⟩, _, herror.mpr hf, rfl⟩
  unfold Placed.cell
  cases hevalA : t.evaluate q.address q.statement.aField with
  | error err =>
    refine ⟨hindex, fun c => ⟨fun hc => ?_, ?_⟩⟩
    · rcases hcases hc with ⟨err', herr', rfl⟩ | ⟨⟨v, hv⟩, -⟩
      · rw [hevalA] at herr'
        rw [Except.error.inj herr']
      · simp [hevalA] at hv
    · rintro rfl
      exact .aField hget hocc (herror.mp hevalA)
  | ok v =>
    cases hevalB : t.evaluate q.address q.statement.bField with
    | error err =>
      refine ⟨hindex, fun c => ⟨fun hc => ?_, ?_⟩⟩
      · rcases hcases hc with ⟨err', herr', -⟩ | ⟨-, err', herr', rfl⟩
        · simp [hevalA] at herr'
        · rw [hevalB] at herr'
          rw [Except.error.inj herr']
      · rintro rfl
        exact .bField hget hocc (hok.mp hevalA) (herror.mp hevalB)
    | ok w =>
      intro c hc
      rcases hcases hc with ⟨err', herr', -⟩ | ⟨-, err', herr', -⟩
      · simp [hevalA] at herr'
      · simp [hevalB] at herr'

/-- **The fields are evaluated in order, and the first fault among them is reported.** -/
theorem Outlined.fields_report {here : Address} {t₀ : SymbolTable} {rest : Program} {r : Outline}
    (ht : t.Settled p size origin p.body.length) (h : Outlined size index here t₀ rest r) :
    p.Reached size origin index here rest →
      Reports (p.Fault size origin .fields) index (r.instructions.mapM (Placed.cell t)) := by
  induction h with
  | nil => exact fun hr => reports_ok_of_drop hr.body _
  | @op index here t₀ u₀ s rest r o ho _ _ ih =>
    intro hr
    obtain ⟨hget, -⟩ := Program.drop_body_cons hr.body (by simp [ho])
    have hat := Placed.cell_reportsAt (q := ⟨index, here, o, s⟩) hs hs' ht hget
      (s.occupies_of_op ho) hr.here rfl
    rw [List.mapM_cons]
    refine Reports.bind hat fun c _ => ?_
    have hrest := Reports.map (g := (c :: ·)) (ih (hr.op hs hs' ho))
    cases hcells : r.instructions.mapM (Placed.cell t) with
    | error e =>
      rw [hcells] at hrest
      exact hrest
    | ok cells =>
      rw [hcells] at hrest
      exact hrest
  | @equ index here t₀ s rest r name he _ _ ih =>
    intro hr
    obtain ⟨hget, -⟩ := Program.drop_body_cons hr.body (by simp [he])
    exact Reports.skip (fun c => not_fields_of_equ hget he) (ih (hr.equ hs he))
  | @finish index here t₀ s rest hf =>
    intro hr
    exact reports_ok_of_drop (by rw [hr.body, Program.body_of_finish hf]) _

end Fields

/-! ### The whole program -/

/-- One phase comes in front of the other, and in a phase one statement in front of the other. -/
def Phase.Before (a b : Phase × Nat) : Prop := a.1.number < b.1.number ∨ a.1 = b.1 ∧ a.2 < b.2

/-- The fault that a phase reports is the first of all when the phases before are clear. -/
theorem first_of_reports {p : Program} {size origin k : Nat} {c : StatementError} {phase : Phase}
    {α : Type} {x : Except LinkFailure α} (h : Reports (p.Fault size origin phase) 0 x)
    (hx : x = .error (k, c))
    (hclear : ∀ phase', phase'.number < phase.number →
      ∀ k' c', ¬ p.Fault size origin phase' k' c') :
    First Phase.Before (fun check => p.Fault size origin check.1 check.2) (phase, k) c := by
  subst hx
  obtain ⟨-, honly, hbefore⟩ := h
  refine ⟨honly, ?_⟩
  rintro ⟨phase', k'⟩ (hlt | ⟨rfl, hlt⟩)
  · exact hclear phase' hlt k'
  · exact hbefore k' ⟨Nat.zero_le _, hlt⟩

section Link

variable {size : Nat} (hs : 0 < size) (hs' : size < 2 ^ 63) {p : Program} {origin : Address}
  (ho : origin.toNat < size)

theorem outline_names {x : Except LinkFailure Outline} (hx : outline size 0 origin .empty p = x) :
    Reports (p.Fault size origin.toNat .names) 0 x := by
  subst hx
  exact outline_reports p rfl fun name => by simp [SymbolTable.empty, SymbolTable.find?]

include hs hs' ho

/-- The labels of the whole program are known before the constants are bound. -/
theorem Outlined.settled {r : Outline} (h : Outlined size 0 origin .empty p r) :
    r.labels.Settled p size origin.toNat 0 := by
  refine ⟨fun name b => ?_, by simp⟩
  rw [h.find?_labels hs hs' ho]
  cases b <;> simp [SymbolTable.empty, SymbolTable.find?, Program.Binds]

/-- What linking reports once the walk has gone through. -/
theorem outline_constants {r : Outline} (h : outline size 0 origin .empty p = .ok r) :
    Reports (p.Fault size origin.toNat .constants) 0 (r.constants.foldlM Definition.bind r.labels) ∧
      ∀ t, r.constants.foldlM Definition.bind r.labels = .ok t →
        t.Settled p size origin.toNat p.body.length ∧
          Reports (p.Fault size origin.toNat .fields) 0 (r.instructions.mapM (Placed.cell t)) := by
  have hwalk := outlined h
  have hstart := Program.Reached.start (p := p) ho
  obtain ⟨hconstants, hsettled⟩ := hwalk.constants_report hs hs' hstart (Nat.zero_le _)
    (hwalk.settled hs hs' ho)
  refine ⟨hconstants, fun t ht => ⟨hsettled t ht, ?_⟩⟩
  exact hwalk.fields_report hs hs' (hsettled t ht) hstart

theorem not_fault_of_link {image : Image} (h : link size p origin = .ok image) :
    ∀ phase k c, ¬ p.Fault size origin.toNat phase k c := by
  obtain ⟨r, hr, h⟩ := bind_eq_ok.mp h
  obtain ⟨t, ht, h⟩ := bind_eq_ok.mp h
  obtain ⟨cells, hcells, -⟩ := map_eq_ok.mp h
  have hnames := outline_names hr
  obtain ⟨hconstants, hfields⟩ := outline_constants hs hs' ho hr
  have hfields := (hfields t ht).2
  rw [ht] at hconstants
  rw [hcells] at hfields
  intro phase k
  cases phase with
  | names => exact hnames k (Nat.zero_le k)
  | constants => exact hconstants k (Nat.zero_le k)
  | fields => exact hfields k (Nat.zero_le k)

/-- **A failure of linking is the first fault of the program.** -/
theorem first_fault_of_link {k : Nat} {c : StatementError}
    (h : link size p origin = .error (k, c)) :
    ∃ phase, First Phase.Before (fun check => p.Fault size origin.toNat check.1 check.2)
      (phase, k) c := by
  rcases bind_eq_error.mp h with hr | ⟨r, hr, h⟩
  · refine ⟨.names, first_of_reports (outline_names hr) rfl fun phase' hlt => ?_⟩
    exact absurd hlt (Nat.not_lt_zero _)
  have hnames := outline_names hr
  obtain ⟨hconstants, hfields⟩ := outline_constants hs hs' ho hr
  rcases bind_eq_error.mp h with ht | ⟨t, ht, h⟩
  · refine ⟨.constants, first_of_reports hconstants ht fun phase' hlt => ?_⟩
    cases phase' with
    | names => exact fun k' => hnames k' (Nat.zero_le k')
    | constants | fields => simp [Phase.number] at hlt
  · refine ⟨.fields, first_of_reports (hfields t ht).2 (map_eq_error.mp h) fun phase' hlt => ?_⟩
    rw [ht] at hconstants
    cases phase' with
    | names => exact fun k' => hnames k' (Nat.zero_le k')
    | constants => exact fun k' => hconstants k' (Nat.zero_le k')
    | fields => simp [Phase.number] at hlt

theorem valued_of_link {image : Image} (h : link size p origin = .ok image) :
    ∀ k name e, p.Equates k name e →
      ∃ v, p.Denotes size origin.toNat k (p.addressOf size origin.toNat k) e v := by
  obtain ⟨r, hr, h⟩ := bind_eq_ok.mp h
  obtain ⟨t, ht, -⟩ := bind_eq_ok.mp h
  have hsettled := ((outline_constants hs hs' ho hr).2 t ht).1
  exact fun k name e he => hsettled.valued k he.lt name e he

end Link

/-! ### Every name is bound once -/

namespace Program

/-- Every name is the label of at most one instruction or the name of at most one constant. -/
structure Distinct (p : Program) : Prop where
  labels : ∀ name j j', p.Labels name j → p.Labels name j' → j = j'
  constants : ∀ name k k' e e', p.Equates k name e → p.Equates k' name e' → k = k'
  apart : ∀ name j k e, p.Labels name j → ¬ p.Equates k name e

/-- Where an entry that is kept by a filter comes from. -/
theorem getElem?_of_filter {α : Type} {keep : α → Bool} : ∀ {xs : List α} {j : Nat} {x : α},
    (xs.filter keep)[j]? = some x →
      ∃ k, xs[k]? = some x ∧ keep x = true ∧ (xs.take k).countP keep = j
  | [], j, x, h => by simp at h
  | y :: xs, j, x, h => by
    cases hy : keep y with
    | false =>
      rw [List.filter_cons_of_neg (by simp [hy])] at h
      obtain ⟨k, hk, hx, hcount⟩ := getElem?_of_filter h
      exact ⟨k + 1, hk, hx, by simp [hy, hcount]⟩
    | true =>
      rw [List.filter_cons_of_pos hy] at h
      cases j with
      | zero =>
        obtain rfl : y = x := by simpa using h
        exact ⟨0, rfl, hy, rfl⟩
      | succ j =>
        obtain ⟨k, hk, hx, hcount⟩ := getElem?_of_filter h
        exact ⟨k + 1, hk, hx, by simp [hy, hcount]⟩

theorem Labels.marks {p : Program} {name : String} {j : Nat} (h : p.Labels name j) :
    ∃ k, p.Marks k name ∧ p.cellsBefore k = j := by
  obtain ⟨s, hs, hl⟩ := h
  obtain ⟨k, hk, hocc, hcount⟩ := getElem?_of_filter hs
  exact ⟨k, ⟨s, hk, hocc, hl⟩, hcount⟩

end Program

theorem distinct_of_link {size : Nat} (hs : 0 < size) (hs' : size < 2 ^ 63) {p : Program}
    {origin : Address} (ho : origin.toNat < size) {image : Image}
    (h : link size p origin = .ok image) : p.Distinct := by
  have hclear := not_fault_of_link hs hs' ho h
  have hvalued := valued_of_link hs hs' ho h
  refine ⟨fun name j j' hj hj' => ?_, fun name k k' e e' he he' => ?_, fun name j k e hj he => ?_⟩
  · obtain ⟨k, hk, rfl⟩ := hj.marks
    obtain ⟨k', hk', rfl⟩ := hj'.marks
    rcases Nat.lt_trichotomy k k' with hlt | rfl | hlt
    · exact absurd (.repeated hk' hlt hk) (hclear .names k' _)
    · rfl
    · exact absurd (.repeated hk hlt hk') (hclear .names k _)
  · obtain ⟨v, hv⟩ := hvalued k name e he
    obtain ⟨v', hv'⟩ := hvalued k' name e' he'
    rcases Nat.lt_trichotomy k k' with hlt | rfl | hlt
    · exact absurd (.taken he' hv' (.inr ⟨k, hlt, e, he⟩)) (hclear .constants k' _)
    · rfl
    · exact absurd (.taken he hv (.inr ⟨k', hlt, e', he'⟩)) (hclear .constants k _)
  · obtain ⟨v, hv⟩ := hvalued k name e he
    exact hclear .constants k _ (.taken he hv (.inl ⟨j, hj⟩))

end CoreWar
