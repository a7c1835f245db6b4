/-
# Records in JSON

How records, tags and numbers are laid out in JSON.

* A record is an object with a key for each field, or an array of the fields
  in order. In an object other keys are skipped and a field may not come twice;
  every key must be a text. An array may end early.
* A tag is a string, or an object whose only key is the tag with the value
  null; a variant with data is an object whose only key is its name.
* An integer must be written as one and lie in the range of its type.

Values that are kept are checked in full: `Value.isSound room` says that
everything inside is readable (texts, finite numbers) and that at most `room`
arrays and objects are open at once.

Key definitions: `Value.record?`, `Value.tag?`, `Value.variant?`,
`Value.word?`, `Value.field?`, `Value.isSound`.
-/
import CoreWar.Instruction
import CoreWar.Json.Printer

namespace CoreWar.Json

/-- How many arrays and objects may be open at once. -/
def depthLimit : Nat := 127

namespace Value

/-- Is everything in the value readable, with at most `room` arrays and objects
open at once? -/
def isSound : Nat → Value → Bool
  | _, null => true
  | _, bool _ => true
  | _, number n => n.isFinite
  | _, string s => s.isSome
  | 0, array _ => false
  | 0, object _ => false
  | room + 1, array items => items.all (isSound room)
  | room + 1, object fields => fields.all fun f => f.1.isSome && isSound room f.2

/-- The values given for the fields `names` of an object. -/
def fields? (names : List String) (fields : List (Literal × Value)) :
    Option (List (Option Value)) :=
  if fields.all (·.1.isSome) && names.all (fun n => fields.countP (·.1 == some n) ≤ 1) then
    some (names.map fun n => fields.lookup (some n))
  else none

/-- The values given for the fields `names` of a record. -/
def record? (names : List String) : Value → Option (List (Option Value))
  | array items =>
    if items.length ≤ names.length then
      some (items.map some ++ List.replicate (names.length - items.length) none)
    else none
  | object fields => fields? names fields
  | _ => none

/-- The name of a variant without data. -/
def tag? : Value → Option String
  | string s => s
  | object [(some s, null)] => some s
  | _ => none

/-- The name and content of a variant with data. -/
def variant? : Value → Option (String × Value)
  | object [(some s, v)] => some (s, v)
  | _ => none

def bool? : Value → Option Bool
  | bool b => some b
  | _ => none

def text? : Value → Option String
  | string s => s
  | _ => none

def integer? : Value → Option Int
  | number n => n.integer?
  | _ => none

/-- An unsigned 64-bit number. -/
def word? (v : Value) : Option UInt64 :=
  v.integer?.bind fun i => if 0 ≤ i ∧ i < UInt64.size then some (UInt64.ofNat i.toNat) else none

/-- A signed 64-bit number. -/
def field? (v : Value) : Option Field :=
  v.integer?.bind fun i =>
    if Int64.minValue.toInt ≤ i ∧ i ≤ Int64.maxValue.toInt then some (Int64.ofInt i) else none

/-- The items of an array, each read by `f`. -/
def listOf? (f : Value → Option α) : Value → Option (List α)
  | array items => items.mapM f
  | _ => none

/-- Null, or a value read by `f`. -/
def nullable? (f : Value → Option α) : Value → Option (Option α)
  | null => some none
  | v => (f v).map some

def ofInt (i : Int) : Value := number (.ofInt i)

def ofWord (n : UInt64) : Value := ofInt n.toNat

def ofField (f : Field) : Value := ofInt f.toInt

def ofText (s : String) : Value := string (some s)

def ofList (f : α → Value) (xs : List α) : Value := array (xs.map f)

def ofOption (f : α → Value) : Option α → Value
  | none => null
  | some x => f x

/-- A record with the given fields. -/
def ofRecord (fields : List (String × Value)) : Value :=
  object (fields.map fun f => (some f.1, f.2))

/-- A variant with data. -/
def ofVariant (name : String) (content : Value) : Value := object [(some name, content)]

end Value

/-- A field that must be given. -/
def required (f : Value → Option α) (v : Option Value) : Option α := v.bind f

/-- A field that has the value `x` when it is not given. -/
def optional (x : α) (f : Value → Option α) : Option Value → Option α
  | none => some x
  | some v => f v

end CoreWar.Json
