/-
# JSON values

A value keeps numbers and strings as they were written, so whoever takes it
apart decides what is checked: a value that is only skipped may hold a number
of any size and a string without text. The fields of an object keep their
order and may repeat.

Building a value from tokens is a left fold of `Builder.step`: a stack of the
open arrays and objects, and what may come next. `Value.tokens` goes back.

Key definitions: `Value`, `Builder.step`, `Value.ofTokens?`, `Value.parse?`,
`Value.tokens`.
-/
import CoreWar.Json.Token

namespace CoreWar.Json

inductive Value
  | null
  | bool (b : Bool)
  | number (n : Numeral)
  | string (s : Literal)
  | array (items : List Value)
  | object (fields : List (Literal × Value))

instance : Inhabited Value := ⟨.null⟩

namespace Builder

/-- An open array or object: what it holds so far, last one first; an object
also has the key whose value comes next. -/
inductive Frame
  | array (reversed : List Value)
  | object (reversed : List (Literal × Value)) (key : Literal)

/-- What may come next. -/
inductive Expect
  /-- A value. -/
  | value
  /-- The first item of an array, or its end. -/
  | item
  /-- The first key of an object, or its end. -/
  | field (reversed : List (Literal × Value))
  /-- A further key of an object. -/
  | key (reversed : List (Literal × Value))
  /-- The colon behind a key. -/
  | colon (reversed : List (Literal × Value)) (key : Literal)
  /-- A comma, or the end of the innermost open array or object. -/
  | more
  /-- Nothing: the value is complete. -/
  | nothing (v : Value)

structure State where
  stack : List Frame
  expect : Expect

def start : State := ⟨[], .value⟩

/-- Put a complete value where it belongs. -/
def complete (v : Value) : List Frame → State
  | [] => ⟨[], .nothing v⟩
  | .array reversed :: stack => ⟨.array (v :: reversed) :: stack, .more⟩
  | .object reversed key :: stack => ⟨.object ((key, v) :: reversed) key :: stack, .more⟩

/-- The first token of a value. -/
def begin (stack : List Frame) : Token → Option State
  | .null => some (complete .null stack)
  | .bool b => some (complete (.bool b) stack)
  | .number n => some (complete (.number n) stack)
  | .string s => some (complete (.string s) stack)
  | .openArray => some ⟨.array [] :: stack, .item⟩
  | .openObject => some ⟨stack, .field []⟩
  | _ => none

/-- Take in one token. -/
def step (s : State) (t : Token) : Option State :=
  match s.expect with
  | .value => begin s.stack t
  | .item =>
    match t, s.stack with
    | .closeArray, .array _ :: stack => some (complete (.array []) stack)
    | t, stack => begin stack t
  | .field reversed =>
    match t with
    | .closeObject => some (complete (.object []) s.stack)
    | .string key => some ⟨s.stack, .colon reversed key⟩
    | _ => none
  | .key reversed =>
    match t with
    | .string key => some ⟨s.stack, .colon reversed key⟩
    | _ => none
  | .colon reversed key =>
    match t with
    | .colon => some ⟨.object reversed key :: s.stack, .value⟩
    | _ => none
  | .more =>
    match t, s.stack with
    | .comma, .array reversed :: stack => some ⟨.array reversed :: stack, .value⟩
    | .closeArray, .array reversed :: stack => some (complete (.array reversed.reverse) stack)
    | .comma, .object reversed _ :: stack => some ⟨stack, .key reversed⟩
    | .closeObject, .object reversed _ :: stack => some (complete (.object reversed.reverse) stack)
    | _, _ => none
  | .nothing _ => none

/-- The value when the tokens end here. -/
def finish (s : State) : Option Value :=
  match s.expect with
  | .nothing v => some v
  | _ => none

end Builder

namespace Value

/-- The value that a sequence of tokens spells. -/
def ofTokens? (ts : List Token) : Option Value :=
  (ts.foldlM Builder.step Builder.start).bind Builder.finish

/-- Read a text. -/
def parse? (text : String) : Option Value := (tokens? text.toList).bind ofTokens?

mutual

/-- The tokens that spell a value. -/
def tokens : Value → List Token
  | null => [.null]
  | bool b => [.bool b]
  | number n => [.number n]
  | string s => [.string s]
  | array [] => [.openArray, .closeArray]
  | array (v :: vs) => .openArray :: v.tokens ++ itemTokens vs ++ [.closeArray]
  | object [] => [.openObject, .closeObject]
  | object ((k, v) :: fs) =>
    .openObject :: .string k :: .colon :: v.tokens ++ fieldTokens fs ++ [.closeObject]

/-- The items of an array behind the first. -/
def itemTokens : List Value → List Token
  | [] => []
  | v :: vs => .comma :: v.tokens ++ itemTokens vs

/-- The fields of an object behind the first. -/
def fieldTokens : List (Literal × Value) → List Token
  | [] => []
  | (k, v) :: fs => .comma :: .string k :: .colon :: v.tokens ++ fieldTokens fs

end

end Value

end CoreWar.Json
