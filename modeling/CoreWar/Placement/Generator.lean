/-
# Drawing a place

A number below a bound is drawn from a seed in three steps. A linear
congruential generator spreads the seed over eight 32-bit words, each a
permuted part of its state. The words fill the four 64-bit words of a
xoshiro256++ generator. A draw is multiplied by the bound, and the high half
of the 128-bit product is the number; draws whose low half lies above the
largest multiple of the bound's scaled width are thrown away, so that every
number is equally likely.

Key definitions: `Generator`, `Generator.ofSeed`, `Generator.next`,
`Generator.below`.
-/

namespace CoreWar.Placement

/-- The state of a xoshiro256++ generator. -/
structure Generator where
  s0 : UInt64
  s1 : UInt64
  s2 : UInt64
  s3 : UInt64

namespace Generator

/-- One step of the generator that spreads the seed. -/
def spread (state : UInt64) : UInt64 := state * 6364136223846793005 + 11634580027462260723

/-- The 32-bit word that a spreading state shows. -/
def shown (state : UInt64) : UInt64 :=
  let x := (((state >>> 18) ^^^ state) >>> 27).toUInt32
  let r := (state >>> 59).toUInt32
  ((x >>> r) ||| (x <<< (32 - r))).toUInt64

/-- A 64-bit word from the two words shown after `state`, and the state behind them. -/
def word (state : UInt64) : UInt64 × UInt64 :=
  let low := spread state
  let high := spread low
  (shown low ||| (shown high <<< 32), high)

def ofSeed (seed : UInt64) : Generator :=
  let (s0, state) := word seed
  let (s1, state) := word state
  let (s2, state) := word state
  let (s3, _) := word state
  ⟨s0, s1, s2, s3⟩

def rotateLeft (x k : UInt64) : UInt64 := (x <<< k) ||| (x >>> (64 - k))

/-- Draw 64 bits. -/
def next (g : Generator) : UInt64 × Generator :=
  let drawn := rotateLeft (g.s0 + g.s3) 23 + g.s0
  let s2 := g.s2 ^^^ g.s0
  let s3 := g.s3 ^^^ g.s1
  (drawn, ⟨g.s0 ^^^ s3, g.s1 ^^^ s2, s2 ^^^ (g.s1 <<< 17), rotateLeft s3 45⟩)

/-- Low halves up to here are kept: the bound, shifted until its top bit is set,
less one. -/
def zone (bound : UInt64) : Nat := bound.toNat <<< (63 - bound.toNat.log2) - 1

/-- Draw a number below `bound`, throwing away at most `fuel` draws. More than
half of all draws are kept, so a moderate `fuel` never runs out in practice. -/
def below (bound : UInt64) : Nat → Generator → UInt64
  | 0, g => UInt64.ofNat (g.next.1.toNat * bound.toNat / UInt64.size)
  | fuel + 1, g =>
    let (drawn, g) := g.next
    let product := drawn.toNat * bound.toNat
    if product % UInt64.size ≤ zone bound then UInt64.ofNat (product / UInt64.size)
    else below bound fuel g

end Generator

end CoreWar.Placement
