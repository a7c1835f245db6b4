/-
# Field expressions

Before loading, a field is an expression over numbers and names. Its value is
computed in signed 64-bit arithmetic that wraps around; division goes toward
zero and has no value when the divisor is zero.

Key definitions: `Operator`, `Expression`, `Operator.eval?`.
-/
import CoreWar.Instruction

namespace CoreWar

inductive Operator
  | add | subtract | multiply | divide
  deriving DecidableEq

namespace Operator

/-- Every operator. -/
def all : List Operator := [add, subtract, multiply, divide]

def name : Operator → String
  | add => "add"
  | subtract => "subtract"
  | multiply => "multiply"
  | divide => "divide"

/-- The value of an operation; a quotient by zero has none. -/
def eval? (op : Operator) (x y : Field) : Option Field :=
  match op with
  | add => some (x + y)
  | subtract => some (x - y)
  | multiply => some (x * y)
  | divide => if y = 0 then none else some (x / y)

end Operator

inductive Expression
  | literal (value : Field)
  | symbol (name : String)
  | binary (operator : Operator) (left right : Expression)
  deriving DecidableEq

namespace Expression

instance : Inhabited Expression := ⟨literal 0⟩

/-- The name, if the expression is nothing but a name. -/
def symbol? : Expression → Option String
  | symbol name => some name
  | _ => none

end Expression

end CoreWar
