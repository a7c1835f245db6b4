/-
# Evaluation is arithmetic modulo a word

The nodes of an expression come in the order in which they are evaluated:
operands in front of their operation, left before right. A node can fail for
two reasons of its own, a name without a binding and a quotient by an operand
that is zero, and evaluation fails with the first fault in this order; without
a fault there is a value (`SymbolTable.failure?_evaluate`).

Where nothing is divided and every name is bound, the expression has a value
over the integers (`SymbolTable.integer?`), and evaluation gives the signed
word congruent to it (`SymbolTable.evaluate_of_integer?`): it makes no
difference whether every operation wraps or the whole value at the end.
Quotients do not go along with wrapping, and they need not: of two words the
quotient toward zero is a word, with one exception (`quotient_toInt`). Names
stand for their integers as they are while addresses are below `2 ^ 63`.

Key definitions: `Expression.nodes`, `SymbolTable.fault?`, `failure?`,
`Binding.integer`, `SymbolTable.integer?`.
Key theorems: `SymbolTable.failure?_evaluate`,
`SymbolTable.evaluate_of_integer?`, `quotient_toInt`,
`SymbolTable.evaluate_exact`.
-/
import CoreWar.Proofs.Landing

namespace CoreWar

/-- The nodes in the order of evaluation: operands in front of their operation, left before
right. -/
def Expression.nodes : Expression → List Expression
  | literal v => [literal v]
  | symbol name => [symbol name]
  | binary op left right => left.nodes ++ right.nodes ++ [binary op left right]

/-- The failure of a computation, if it fails. -/
def failure? {ε α : Type} : Except ε α → Option ε
  | .ok _ => none
  | .error e => some e

@[simp] theorem failure?_ok {ε α : Type} (a : α) : failure? (.ok a : Except ε α) = none := rfl

@[simp] theorem failure?_error {ε α : Type} (e : ε) :
    failure? (.error e : Except ε α) = some e := rfl

theorem failure?_eq_none_iff {ε α : Type} {x : Except ε α} :
    failure? x = none ↔ ∃ a, x = .ok a := by
  cases x <;> simp [failure?]

theorem failure?_eq_some_iff {ε α : Type} {x : Except ε α} {e : ε} :
    failure? x = some e ↔ x = .error e := by
  cases x <;> simp [failure?]

namespace SymbolTable

/-! ### The first fault -/

/-- What is wrong with a node itself: a name that is not bound, or a quotient by an operand whose
value is zero. -/
def fault? (t : SymbolTable) (here : Address) : Expression → Option SymbolError
  | .literal _ => none
  | .symbol name => if t.find? name = none then some (.unresolved name) else none
  | .binary op _ right =>
    if op = .divide ∧ t.evaluate here right = .ok 0 then some .divisionByZero else none

variable {t : SymbolTable} {here : Address}

/-- When both operands have values, the operation fails for its own fault or not at all. -/
theorem failure?_binary {op : Operator} {left right : Expression} {x y : Field}
    (hx : t.evaluate here left = .ok x) (hy : t.evaluate here right = .ok y) :
    failure? (t.evaluate here (.binary op left right)) = t.fault? here (.binary op left right) := by
  simp only [evaluate_binary_eq, hx, hy, fault?, Except.bind, Except.ok.injEq]
  cases hv : op.eval? x y with
  | none =>
    rw [if_pos (Operator.eval?_eq_none.mp hv)]
    rfl
  | some v =>
    rw [if_neg fun hfault => by simp [Operator.eval?_eq_none.mpr hfault] at hv]
    rfl

/-- **Evaluation fails with the first fault,** and only if there is one. -/
theorem failure?_evaluate (t : SymbolTable) (here : Address) : ∀ e : Expression,
    failure? (t.evaluate here e) = e.nodes.findSome? (t.fault? here)
  | .literal v => rfl
  | .symbol name => by
    simp only [evaluate_symbol_eq, Expression.nodes, List.findSome?_singleton, fault?]
    cases t.find? name <;> rfl
  | .binary op left right => by
    simp only [Expression.nodes, List.findSome?_append, List.findSome?_singleton,
      ← failure?_evaluate t here left, ← failure?_evaluate t here right]
    cases hx : t.evaluate here left with
    | error e => simp [evaluate_binary_eq, hx, Except.bind]
    | ok x =>
      cases hy : t.evaluate here right with
      | error e => simp [evaluate_binary_eq, hx, hy, Except.bind]
      | ok y => simp [failure?_binary hx hy]

theorem fault?_eq_none_iff {n : Expression} : t.fault? here n = none ↔
    (∀ name, n = .symbol name → (t.find? name).isSome = true) ∧
      ∀ left right, n = .binary .divide left right → t.evaluate here right ≠ .ok 0 := by
  cases n with
  | literal v => simp [fault?]
  | symbol name => simp [fault?, Option.isSome_iff_ne_none]
  | binary op left right => cases op <;> simp [fault?]

theorem evaluate_ok_iff {e : Expression} : (∃ v, t.evaluate here e = .ok v) ↔
    (∀ name, .symbol name ∈ e.nodes → (t.find? name).isSome = true) ∧
      ∀ left right, .binary .divide left right ∈ e.nodes → t.evaluate here right ≠ .ok 0 := by
  rw [← failure?_eq_none_iff, failure?_evaluate, List.findSome?_eq_none_iff]
  simp only [fault?_eq_none_iff]
  constructor
  · intro h
    exact ⟨fun name hname => (h _ hname).1 name rfl,
      fun left right hdivide => (h _ hdivide).2 left right rfl⟩
  · rintro ⟨hnames, hdivisors⟩ n hn
    exact ⟨fun name he => hnames name (he ▸ hn), fun left right he =>
      hdivisors left right (he ▸ hn)⟩

end SymbolTable

/-! ### Values over the integers -/

/-- What a binding stands for at the address `here`, as an integer. -/
def Binding.integer (here : Address) : Binding → Int
  | label a => (a.toNat : Int) - here.toNat
  | constant v => v.toInt

theorem Binding.value_toInt (here : Address) (b : Binding) :
    (b.value here).toInt = (b.integer here).bmod (2 ^ 64) := by
  cases b with
  | label a =>
    show (a.toInt64 - here.toInt64).toInt = ((a.toNat : Int) - here.toNat).bmod (2 ^ 64)
    rw [Int64.toInt_sub, toInt_toInt64, toInt_toInt64, Int.bmod_sub_bmod, Int.sub_bmod_bmod]
  | constant v => exact (Int64.toInt_bmod v).symm

/-- The word of a binding is its integer, when addresses are not negative. -/
theorem Binding.value_toInt_of_lt {here : Address} (hh : here.toNat < 2 ^ 63) {b : Binding}
    (hb : ∀ a, b = .label a → a.toNat < 2 ^ 63) : (b.value here).toInt = b.integer here := by
  cases b with
  | label a => exact (SymbolTable.value_label_eq (hb a rfl) hh).mp rfl
  | constant v => rfl

/-- The quotient of two words is the quotient toward zero, except that of the least word by
`-1`. -/
theorem quotient_toInt (x y : Field) : (x / y).toInt =
    if x.toInt = -2 ^ 63 ∧ y.toInt = -1 then -2 ^ 63 else x.toInt.tdiv y.toInt := by
  split
  · rename_i h
    rw [Int64.toInt_div, h.1, h.2]
    decide
  · rename_i h
    have hleast : (Int64.minValue : Field).toInt = -2 ^ 63 := rfl
    have hminus : (-1 : Field).toInt = -1 := rfl
    by_cases hx : x = Int64.minValue
    · refine Int64.toInt_div_of_ne_right x y fun hy => h ?_
      rw [hx, hy]
      exact ⟨hleast, hminus⟩
    · exact Int64.toInt_div_of_ne_left x y hx

namespace SymbolTable

/-- The value over the integers of an expression in which nothing is divided and every name is
bound. -/
def integer? (t : SymbolTable) (here : Address) : Expression → Option Int
  | .literal v => some v.toInt
  | .symbol name => (t.find? name).map (Binding.integer here)
  | .binary op left right =>
    (t.integer? here left).bind fun x => (t.integer? here right).bind fun y => op.onIntegers x y

variable {t : SymbolTable} {here : Address}

theorem exists_integer? : ∀ {e : Expression},
    (∀ name, .symbol name ∈ e.nodes → (t.find? name).isSome = true) →
    (∀ left right, .binary .divide left right ∉ e.nodes) → ∃ n, t.integer? here e = some n
  | .literal v, _, _ => ⟨v.toInt, rfl⟩
  | .symbol name, hnames, _ => by
    obtain ⟨b, hb⟩ := Option.isSome_iff_exists.mp (hnames name (by simp [Expression.nodes]))
    exact ⟨b.integer here, by simp [integer?, hb]⟩
  | .binary op left right, hnames, hwhole => by
    simp only [Expression.nodes, List.mem_append, List.mem_singleton] at hnames hwhole
    obtain ⟨x, hx⟩ := exists_integer? (e := left) (fun name h => hnames name (.inl (.inl h)))
      fun l r h => hwhole l r (.inl (.inl h))
    obtain ⟨y, hy⟩ := exists_integer? (e := right) (fun name h => hnames name (.inl (.inr h)))
      fun l r h => hwhole l r (.inl (.inr h))
    simp only [integer?, hx, hy, Option.bind_some]
    cases op with
    | add => exact ⟨x + y, rfl⟩
    | subtract => exact ⟨x - y, rfl⟩
    | multiply => exact ⟨x * y, rfl⟩
    | divide => exact absurd (.inr rfl) (hwhole left right)

/-- **Evaluation gives the word of the value over the integers.** -/
theorem evaluate_of_integer? : ∀ {e : Expression} {n : Int}, t.integer? here e = some n →
    ∃ v, t.evaluate here e = .ok v ∧ v.toInt = n.bmod (2 ^ 64)
  | .literal v, n, h => by
    obtain rfl : v.toInt = n := by simpa [integer?] using h
    exact ⟨v, rfl, (Int64.toInt_bmod v).symm⟩
  | .symbol name, n, h => by
    obtain ⟨b, hb, rfl⟩ := Option.map_eq_some_iff.mp h
    exact ⟨b.value here, evaluate_symbol.mpr ⟨b, hb, rfl⟩, b.value_toInt here⟩
  | .binary op left right, n, h => by
    obtain ⟨X, hX, h⟩ := Option.bind_eq_some_iff.mp h
    obtain ⟨Y, hY, h⟩ := Option.bind_eq_some_iff.mp h
    obtain ⟨x, hx, hxX⟩ := evaluate_of_integer? hX
    obtain ⟨y, hy, hyY⟩ := evaluate_of_integer? hY
    -- an operation with a value over the integers divides nothing
    have hop : op ≠ .divide := by
      rintro rfl
      cases h
    obtain ⟨v, hv⟩ : ∃ v, op.eval? x y = some v := by
      rw [← Option.ne_none_iff_exists']
      exact fun hnone => hop (Operator.eval?_eq_none.mp hnone).1
    obtain ⟨Z, hZ, hvZ⟩ := Operator.onIntegers_of_eval? hop hxX hyY hv
    obtain rfl : Z = n := Option.some.inj (hZ.symm.trans h)
    exact ⟨v, evaluate_binary.mpr ⟨x, y, hx, hy, hv⟩, hvZ⟩

theorem toInt_modEq_iff {v w : Field} {n : Int} (hv : v.toInt = n.bmod (2 ^ 64)) :
    w.toInt ≡ n [ZMOD 2 ^ 64] ↔ w = v := by
  constructor
  · intro h
    apply Int64.toInt_inj.mp
    calc w.toInt = w.toInt.bmod (2 ^ 64) := (Int64.toInt_bmod w).symm
      _ = (w.toInt % 2 ^ 64).bmod (2 ^ 64) := (Int.emod_bmod _ _).symm
      _ = (n % 2 ^ 64).bmod (2 ^ 64) := by rw [h]
      _ = n.bmod (2 ^ 64) := Int.emod_bmod _ _
      _ = v.toInt := hv.symm
  · rintro rfl
    rw [hv]
    exact Int.bmod_emod

/-- **Evaluation is arithmetic modulo `2 ^ 64`.** An expression has a value when every name is
bound and nothing is divided by zero, and otherwise fails with the first fault of its nodes. If
nothing is divided, the value is the one word congruent to that over the integers. A quotient goes
toward zero, but the least word divided by `-1` is itself. And where addresses are below `2 ^ 63`,
names stand for their integers. -/
theorem evaluate_exact (t : SymbolTable) (here : Address) :
    (∀ e, (∃ v, t.evaluate here e = .ok v) ↔
      (∀ name, .symbol name ∈ e.nodes → (t.find? name).isSome = true) ∧
        ∀ left right, .binary .divide left right ∈ e.nodes → t.evaluate here right ≠ .ok 0) ∧
    (∀ e err, t.evaluate here e = .error err ↔ e.nodes.findSome? (t.fault? here) = some err) ∧
    (∀ e, (∀ name, .symbol name ∈ e.nodes → (t.find? name).isSome = true) →
      (∀ left right, .binary .divide left right ∉ e.nodes) →
      ∃ n v, t.integer? here e = some n ∧ t.evaluate here e = .ok v ∧
        v.toInt = n.bmod (2 ^ 64) ∧ ∀ w : Field, w.toInt ≡ n [ZMOD 2 ^ 64] ↔ w = v) ∧
    (∀ left right x y, t.evaluate here left = .ok x → t.evaluate here right = .ok y → y ≠ 0 →
      ∃ q, t.evaluate here (.binary .divide left right) = .ok q ∧ q.toInt =
        if x.toInt = -2 ^ 63 ∧ y.toInt = -1 then -2 ^ 63 else x.toInt.tdiv y.toInt) ∧
    ((∀ name a, t.find? name = some (.label a) → a.toNat < 2 ^ 63) → here.toNat < 2 ^ 63 →
      ∀ name b, t.find? name = some b →
        ∃ v, t.evaluate here (.symbol name) = .ok v ∧ v.toInt = b.integer here) := by
  refine ⟨fun e => evaluate_ok_iff, fun e err => ?_, fun e hnames hwhole => ?_,
    fun left right x y hx hy hne => ?_, fun hlabels hh name b hb => ?_⟩
  · rw [← failure?_evaluate, failure?_eq_some_iff]
  · obtain ⟨n, hn⟩ := @exists_integer? t here e hnames hwhole
    obtain ⟨v, hv, hvn⟩ := evaluate_of_integer? hn
    exact ⟨n, v, hn, hv, hvn, fun w => toInt_modEq_iff hvn⟩
  · refine ⟨x / y, evaluate_binary.mpr ⟨x, y, hx, hy, ?_⟩, quotient_toInt x y⟩
    simp [Operator.eval?, hne]
  · refine ⟨b.value here, evaluate_symbol.mpr ⟨b, hb, rfl⟩, Binding.value_toInt_of_lt hh ?_⟩
    rintro a rfl
    exact hlabels name a hb

/-- A label four cells in front of the address 9, and a constant. -/
def signpost : SymbolTable := ⟨[("top", .label 5), ("step", .constant (-1))]⟩

/-- The product is past the range of words, and so is the quotient. -/
theorem evaluate_exact_signpost :
    signpost.integer? 9 (.binary .multiply (.symbol "top") (.literal Int64.maxValue)) =
      some (-4 * (2 ^ 63 - 1)) ∧
    signpost.evaluate 9 (.binary .multiply (.symbol "top") (.literal Int64.maxValue)) = .ok 4 ∧
    (∀ w : Field, w.toInt ≡ -4 * (2 ^ 63 - 1) [ZMOD 2 ^ 64] ↔ w = 4) ∧
    (∃ q, signpost.evaluate 9 (.binary .divide (.literal Int64.minValue) (.symbol "step")) = .ok q ∧
      q.toInt = -2 ^ 63) ∧
    ∃ v, signpost.evaluate 9 (.symbol "top") = .ok v ∧ v.toInt = -4 := by
  obtain ⟨-, -, hvalue, hquotient, hnames⟩ := evaluate_exact signpost 9
  have hinteger : signpost.integer? 9
      (.binary .multiply (.symbol "top") (.literal Int64.maxValue)) =
    some (-4 * (2 ^ 63 - 1)) := by decide
  have hword : signpost.evaluate 9 (.binary .multiply (.symbol "top") (.literal Int64.maxValue)) =
    .ok 4 := by decide
  have hlabels : ∀ name a, signpost.find? name = some (.label a) → a.toNat < 2 ^ 63 := by
    intro name a hfind
    obtain ⟨before, behind, hbindings, -⟩ := List.lookup_eq_some_iff.mp hfind
    have hmem : (name, Binding.label a) ∈ signpost.bindings := by
      rw [hbindings]
      exact List.mem_append_right _ List.mem_cons_self
    obtain ⟨-, rfl⟩ : name = "top" ∧ a = 5 := by simpa [signpost] using hmem
    decide
  refine ⟨hinteger, hword, ?_, ?_, hnames hlabels (by decide) "top" (.label 5) rfl⟩
  · have hbound : ∀ name, .symbol name ∈ (Expression.binary .multiply (.symbol "top")
        (.literal Int64.maxValue)).nodes → (signpost.find? name).isSome = true := by
      intro name hname
      obtain rfl : name = "top" := by simpa [Expression.nodes] using hname
      rfl
    obtain ⟨n, v, hn, hv, -, hunique⟩ := hvalue _ hbound (by simp [Expression.nodes])
    obtain rfl := Option.some.inj (hinteger.symm.trans hn)
    obtain rfl := Except.ok.inj (hword.symm.trans hv)
    exact hunique
  · exact hquotient (.literal Int64.minValue) (.symbol "step") _ _ rfl rfl (by decide)

end SymbolTable
end CoreWar
