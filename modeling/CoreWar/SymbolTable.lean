/-
# Symbol tables

A name is bound once, to a label (the address of an instruction) or to a
constant. In an expression a constant stands for its value and a label for its
distance from the address at which the expression is evaluated.

Key definitions: `Binding`, `SymbolTable`, `SymbolTable.define`,
`SymbolTable.resolve?`, `SymbolTable.evaluate`.
-/
import CoreWar.Address
import CoreWar.Expression

namespace CoreWar

/-- What a name stands for. -/
inductive Binding
  | label (a : Address)
  | constant (value : Field)
  deriving DecidableEq

/-- What a binding stands for at the address `here`. -/
def Binding.value (here : Address) : Binding → Field
  | label a => a.toInt64 - here.toInt64
  | constant v => v

/-- Why a name cannot be bound or an expression has no value. -/
inductive SymbolError
  | unresolved (name : String)
  | divisionByZero
  | duplicate (name : String)
  deriving DecidableEq

def SymbolError.message : SymbolError → String
  | unresolved name => "unresolved symbol: " ++ name
  | divisionByZero => "division by zero"
  | duplicate name => "symbol defined twice: " ++ name

/-- The names bound so far. -/
structure SymbolTable where
  bindings : List (String × Binding)

namespace SymbolTable

def empty : SymbolTable := ⟨[]⟩

def find? (t : SymbolTable) (name : String) : Option Binding := t.bindings.lookup name

def label? (t : SymbolTable) (name : String) : Option Address :=
  match t.find? name with
  | some (.label a) => some a
  | _ => none

def constant? (t : SymbolTable) (name : String) : Option Field :=
  match t.find? name with
  | some (.constant v) => some v
  | _ => none

/-- Bind a name that is not bound yet. -/
def define (t : SymbolTable) (name : String) (b : Binding) : Except SymbolError SymbolTable :=
  if (t.find? name).isSome then .error (.duplicate name) else .ok ⟨(name, b) :: t.bindings⟩

/-- What a name stands for at the address `here`. -/
def resolve? (t : SymbolTable) (name : String) (here : Address) : Option Field :=
  (t.find? name).map (Binding.value here)

/-- The value of an expression at the address `here`. Operands are evaluated
left to right, and the first failure is reported. -/
def evaluate (t : SymbolTable) (here : Address) : Expression → Except SymbolError Field
  | .literal v => .ok v
  | .symbol name =>
    match t.resolve? name here with
    | some v => .ok v
    | none => .error (.unresolved name)
  | .binary op left right =>
    match t.evaluate here left with
    | .error e => .error e
    | .ok x =>
      match t.evaluate here right with
      | .error e => .error e
      | .ok y =>
        match op.eval? x y with
        | some v => .ok v
        | none => .error .divisionByZero

theorem evaluate_symbol_eq (t : SymbolTable) (here : Address) (name : String) :
    t.evaluate here (.symbol name) =
      (t.find? name).elim (.error (.unresolved name)) fun b => .ok (b.value here) := by
  rw [evaluate, resolve?]
  cases t.find? name <;> rfl

/-- The operands come first, left before right, and their failures before that of the operation. -/
theorem evaluate_binary_eq (t : SymbolTable) (here : Address) (op : Operator)
    (left right : Expression) : t.evaluate here (.binary op left right) =
      (t.evaluate here left).bind fun x => (t.evaluate here right).bind fun y =>
        (op.eval? x y).elim (.error .divisionByZero) .ok := by
  rw [evaluate]
  cases t.evaluate here left with
  | error e => rfl
  | ok x =>
    cases t.evaluate here right with
    | error e => rfl
    | ok y => cases h : op.eval? x y <;> simp [Except.bind, h]

end SymbolTable

end CoreWar
