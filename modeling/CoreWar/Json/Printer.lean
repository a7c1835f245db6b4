/-
# Printing JSON

A value is printed by printing its tokens. The compact form puts nothing
between them. The indented form starts a new line behind each opening bracket
and each comma and before each closing bracket, indented by two blanks for
every array or object that is open there, and puts a blank behind a colon; an
empty array or object stays `[]` or `{}`.

Key definitions: `Value.compact`, `Value.indented`.
-/
import CoreWar.Json.Value

namespace CoreWar.Json

namespace Token

def isOpening : Token → Bool
  | openArray | openObject => true
  | _ => false

def isClosing : Token → Bool
  | closeArray | closeObject => true
  | _ => false

end Token

/-- A line end and the indentation of `depth` levels. -/
def newLine (depth : Nat) : List Char := '\n' :: List.replicate (2 * depth) ' '

/-- The blanks between two tokens when `depth` arrays and objects are open. -/
def gap (depth : Nat) (previous t : Token) : List Char :=
  if previous.isOpening then (if t.isClosing then [] else newLine depth)
  else if t.isClosing then newLine (depth - 1)
  else match previous with
    | .comma => newLine depth
    | .colon => [' ']
    | _ => []

/-- How many arrays and objects are open behind a token. -/
def depthAfter (depth : Nat) (t : Token) : Nat :=
  if t.isOpening then depth + 1 else if t.isClosing then depth - 1 else depth

/-- The indented tokens `ts` behind the token `previous`, appended to the
reversed text `done`. -/
def indentOnto (done : List Char) (depth : Nat) (previous : Token) : List Token → List Char
  | [] => done.reverse
  | t :: ts =>
    indentOnto ((gap depth previous t ++ t.chars).reverse ++ done) (depthAfter depth t) t ts

/-- The indented form of a sequence of tokens. -/
def indent : List Token → List Char
  | [] => []
  | t :: ts => indentOnto t.chars.reverse (depthAfter 0 t) t ts

namespace Value

/-- The compact form. -/
def compact (v : Value) : String := String.ofList (v.tokens.flatMap Token.chars)

/-- The indented form. -/
def indented (v : Value) : String := String.ofList (indent v.tokens)

end Value

end CoreWar.Json
