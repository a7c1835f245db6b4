/-
# Numerals

A JSON number as it is written: a sign, the digits of the whole part, the
digits behind the point and the exponent. `ofChars?` accepts exactly the JSON
grammar: the whole part has no leading zero unless it is `0`, and a point or
an exponent mark is followed by a digit.

A numeral is an integer when it has neither point nor exponent and is not
`-0`. `isFinite` tells whether a reader that turns numbers into 64-bit
floating point keeps it finite: the significand is the longest run of leading
digits below `2 ^ 64`, it and the power of ten are each rounded to 53 bits,
and their product must not round up to `2 ^ 1024`.

Key definitions: `Numeral`, `Numeral.ofChars?`, `Numeral.ofInt`,
`Numeral.chars`, `Numeral.integer?`, `Numeral.isFinite`.
-/

namespace CoreWar.Json

/-- A number as it is written. -/
structure Numeral where
  negative : Bool
  /-- The digits of the whole part. -/
  whole : List Char
  /-- The digits behind the point; none when there is no point. -/
  fraction : List Char
  exponent : Option Int
  deriving DecidableEq

namespace Numeral

/-- An optional sign and at least one digit. -/
def signed? (cs : List Char) : Option Int :=
  let (negative, digits) := match cs with
    | '-' :: ds => (true, ds)
    | '+' :: ds => (false, ds)
    | ds => (false, ds)
  if digits ≠ [] ∧ digits.all Char.isDigit then
    let n : Int := Nat.ofDigitChars 10 digits 0
    some (if negative then -n else n)
  else none

/-- The end of a numeral: nothing, or an exponent. -/
def exponent? : List Char → Option (Option Int)
  | [] => some none
  | c :: cs => if c = 'e' ∨ c = 'E' then (signed? cs).map some else none

/-- What follows the whole part: a point with digits, an exponent, or both. -/
def tail? : List Char → Option (List Char × Option Int)
  | '.' :: cs =>
    if (cs.takeWhile Char.isDigit).isEmpty then none
    else (exponent? (cs.dropWhile Char.isDigit)).map (cs.takeWhile Char.isDigit, ·)
  | cs => (exponent? cs).map ([], ·)

/-- The digits of a whole part: at least one, and no leading zero but `0` itself. -/
def isWhole : List Char → Bool
  | [] => false
  | ['0'] => true
  | c :: _ => c ≠ '0'

/-- Read a numeral without its sign. -/
def unsigned? (negative : Bool) (cs : List Char) : Option Numeral :=
  let whole := cs.takeWhile Char.isDigit
  if isWhole whole then
    (tail? (cs.dropWhile Char.isDigit)).map fun (fraction, exponent) =>
      ⟨negative, whole, fraction, exponent⟩
  else none

/-- Read a numeral. -/
def ofChars? : List Char → Option Numeral
  | '-' :: cs => unsigned? true cs
  | cs => unsigned? false cs

/-- The numeral of an integer. -/
def ofInt (i : Int) : Numeral :=
  ⟨decide (i < 0), Nat.toDigits 10 i.natAbs, [], none⟩

/-- The exponent as it is printed. -/
def exponentChars : Option Int → List Char
  | none => []
  | some e => 'e' :: (if e < 0 then '-' :: Nat.toDigits 10 e.natAbs else Nat.toDigits 10 e.natAbs)

/-- The numeral as it is printed. -/
def chars (n : Numeral) : List Char :=
  (if n.negative then ['-'] else []) ++ n.whole ++
    (if n.fraction.isEmpty then [] else '.' :: n.fraction) ++ exponentChars n.exponent

/-- The integer a numeral stands for, if it is written as one. -/
def integer? (n : Numeral) : Option Int :=
  let value := Nat.ofDigitChars 10 n.whole 0
  if n.fraction ≠ [] ∨ n.exponent ≠ none ∨ (n.negative ∧ value = 0) then none
  else some (if n.negative then -(value : Int) else value)

/-- Append digits to a significand while it stays below `2 ^ 64`; what is left
over follows. -/
def absorb (significand : Nat) : List Char → Nat × List Char
  | [] => (significand, [])
  | d :: ds =>
    let longer := Nat.ofDigitChars 10 [d] significand
    if longer < UInt64.size then absorb longer ds else (significand, d :: ds)

/-- Round to 53 significant bits, a half going to the even neighbour. -/
def round53 (n : Nat) : Nat :=
  let shift := n.log2 + 1 - 53
  let unit := 1 <<< shift
  let q := n / unit
  let r := n % unit
  if unit < 2 * r ∨ (unit = 2 * r ∧ q % 2 = 1) then (q + 1) * unit else q * unit

/-- Does the number stay finite in 64-bit floating point? -/
def isFinite (n : Numeral) : Bool :=
  let (s, dropped) := absorb 0 n.whole
  let (s, unused) := absorb s n.fraction
  let exponent : Int := dropped.length - (n.fraction.length - unused.length : Nat) + n.exponent.getD 0
  s = 0 ∨ exponent < 0 ∨
    (exponent ≤ 308 ∧ round53 s * round53 (Nat.pow 10 exponent.toNat) < 1 <<< 1024 - 1 <<< 970)

end Numeral

end CoreWar.Json
