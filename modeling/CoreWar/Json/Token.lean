/-
# Tokens

A JSON text is a sequence of tokens with blanks between them. Reading is a
left fold of `Lexer.step` over the characters, so reading two texts one after
the other is reading their concatenation. A bare word runs until a blank, a
quote or a punctuation mark and must then be a numeral, `true`, `false` or
`null`.

In a string literal a control character is refused, and so is any escape
outside the JSON grammar. `\u` escapes of surrogates must pair up to give a
character; a literal in which they do not is still grammatical, but has no
text.

Key definitions: `Token`, `Lexer.step`, `tokens?`, `Token.chars`.
-/
import CoreWar.Json.Numeral

namespace CoreWar.Json

/-- The text of a string literal; `none` when an escaped surrogate in it has no
partner. -/
abbrev Literal := Option String

inductive Token
  | openArray | closeArray | openObject | closeObject | comma | colon
  | null
  | bool (b : Bool)
  | number (n : Numeral)
  | string (s : Literal)
  deriving DecidableEq

/-- The blanks between tokens. -/
def isBlank (c : Char) : Bool := c = ' ' ∨ c = '\t' ∨ c = '\n' ∨ c = '\r'

/-- The token of a punctuation mark. -/
def punctuation? : Char → Option Token
  | '[' => some .openArray
  | ']' => some .closeArray
  | '{' => some .openObject
  | '}' => some .closeObject
  | ',' => some .comma
  | ':' => some .colon
  | _ => none

/-- The token of a bare word. -/
def word? (cs : List Char) : Option Token :=
  if cs = ['n', 'u', 'l', 'l'] then some .null
  else if cs = ['t', 'r', 'u', 'e'] then some (.bool true)
  else if cs = ['f', 'a', 'l', 's', 'e'] then some (.bool false)
  else (Numeral.ofChars? cs).map .number

/-- A string literal as far as it has been read. -/
structure OpenLiteral where
  /-- The characters so far, last one first. -/
  reversed : List Char
  /-- A leading surrogate that waits for its partner. -/
  leading : Option Nat
  /-- Has a surrogate stayed alone? -/
  broken : Bool

namespace OpenLiteral

def empty : OpenLiteral := ⟨[], none, false⟩

/-- Add a character. -/
def char (p : OpenLiteral) (c : Char) : OpenLiteral :=
  ⟨c :: p.reversed, none, p.broken || p.leading.isSome⟩

def isLeading (n : Nat) : Bool := 0xD800 ≤ n ∧ n ≤ 0xDBFF

def isTrailing (n : Nat) : Bool := 0xDC00 ≤ n ∧ n ≤ 0xDFFF

/-- The character of a surrogate pair. -/
def pair (leading trailing : Nat) : Char :=
  Char.ofNat (0x10000 + (leading - 0xD800) * 0x400 + (trailing - 0xDC00))

/-- Add the 16-bit code of a `\u` escape. -/
def code (p : OpenLiteral) (n : Nat) : OpenLiteral :=
  if isLeading n then ⟨p.reversed, some n, p.broken || p.leading.isSome⟩
  else if isTrailing n then
    match p.leading with
    | some m => ⟨pair m n :: p.reversed, none, p.broken⟩
    | none => ⟨p.reversed, none, true⟩
  else p.char (Char.ofNat n)

/-- The literal that ends here. -/
def close (p : OpenLiteral) : Literal :=
  if p.broken || p.leading.isSome then none else some (String.ofList p.reversed.reverse)

end OpenLiteral

/-- Where in a string literal the reader stands. -/
inductive Escape
  /-- Not in an escape. -/
  | outside
  /-- Behind a backslash. -/
  | backslash
  /-- Behind `\u` and some of its four digits: how many are missing, and their value. -/
  | hex (missing value : Nat)

/-- The character of a one-letter escape. -/
def escaped? : Char → Option Char
  | '"' => some '"'
  | '\\' => some '\\'
  | '/' => some '/'
  | 'b' => some '\x08'
  | 'f' => some '\x0c'
  | 'n' => some '\n'
  | 'r' => some '\r'
  | 't' => some '\t'
  | _ => none

def hexDigit? (c : Char) : Option Nat :=
  if '0' ≤ c ∧ c ≤ '9' then some (c.toNat - '0'.toNat)
  else if 'a' ≤ c ∧ c ≤ 'f' then some (c.toNat - 'a'.toNat + 10)
  else if 'A' ≤ c ∧ c ≤ 'F' then some (c.toNat - 'A'.toNat + 10)
  else none

namespace Lexer

/-- What the reader is in the middle of. -/
inductive Inside
  | nothing
  | word (reversed : List Char)
  | literal (p : OpenLiteral) (e : Escape)

/-- The tokens so far, last one first, and the unfinished one. -/
structure State where
  done : List Token
  inside : Inside

def start : State := ⟨[], .nothing⟩

/-- One character between tokens. -/
def between (done : List Token) (c : Char) : State :=
  if isBlank c then ⟨done, .nothing⟩
  else match punctuation? c with
    | some t => ⟨t :: done, .nothing⟩
    | none => ⟨done, if c = '"' then .literal .empty .outside else .word [c]⟩

/-- Does the character end a bare word? -/
def endsWord (c : Char) : Bool := isBlank c || (punctuation? c).isSome || c = '"'

/-- One character of a string literal. -/
def inLiteral (done : List Token) (p : OpenLiteral) (c : Char) : Escape → Option State
  | .outside =>
    if c = '"' then some ⟨.string p.close :: done, .nothing⟩
    else if c = '\\' then some ⟨done, .literal p .backslash⟩
    else if c.toNat < 0x20 then none
    else some ⟨done, .literal (p.char c) .outside⟩
  | .backslash =>
    if c = 'u' then some ⟨done, .literal p (.hex 4 0)⟩
    else (escaped? c).map fun d => ⟨done, .literal (p.char d) .outside⟩
  | .hex missing value =>
    (hexDigit? c).map fun d =>
      if missing ≤ 1 then ⟨done, .literal (p.code (16 * value + d)) .outside⟩
      else ⟨done, .literal p (.hex (missing - 1) (16 * value + d))⟩

/-- Take in one character. -/
def step (s : State) (c : Char) : Option State :=
  match s.inside with
  | .nothing => some (between s.done c)
  | .word reversed =>
    if endsWord c then (word? reversed.reverse).map fun t => between (t :: s.done) c
    else some ⟨s.done, .word (c :: reversed)⟩
  | .literal p e => inLiteral s.done p c e

/-- The tokens when the text ends here. -/
def finish (s : State) : Option (List Token) :=
  match s.inside with
  | .nothing => some s.done.reverse
  | .word reversed => (word? reversed.reverse).map fun t => (t :: s.done).reverse
  | .literal _ _ => none

end Lexer

/-- The tokens of a text. -/
def tokens? (cs : List Char) : Option (List Token) :=
  (cs.foldlM Lexer.step Lexer.start).bind Lexer.finish

/-- The last two hexadecimal digits of a code. -/
def hexPair (n : Nat) : List Char := [Nat.digitChar (n / 16 % 16), Nat.digitChar (n % 16)]

/-- A character inside a printed string literal. -/
def escapeChar (c : Char) : List Char :=
  if c = '"' then ['\\', '"']
  else if c = '\\' then ['\\', '\\']
  else if c = '\x08' then ['\\', 'b']
  else if c = '\t' then ['\\', 't']
  else if c = '\n' then ['\\', 'n']
  else if c = '\x0c' then ['\\', 'f']
  else if c = '\r' then ['\\', 'r']
  else if c.toNat < 0x20 then ['\\', 'u', '0', '0'] ++ hexPair c.toNat
  else [c]

/-- A printed string literal. -/
def quote (s : String) : List Char := '"' :: s.toList.flatMap escapeChar ++ ['"']

/-- A token as it is printed. A literal without text is printed as the escape
of a lone surrogate. -/
def Token.chars : Token → List Char
  | .openArray => ['[']
  | .closeArray => [']']
  | .openObject => ['{']
  | .closeObject => ['}']
  | .comma => [',']
  | .colon => [':']
  | .null => ['n', 'u', 'l', 'l']
  | .bool true => ['t', 'r', 'u', 'e']
  | .bool false => ['f', 'a', 'l', 's', 'e']
  | .number n => n.chars
  | .string (some s) => quote s
  | .string none => ['"', '\\', 'u', 'd', '8', '0', '0', '"']

end CoreWar.Json
