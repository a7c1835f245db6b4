/-
# Ranges of characters

A class of characters is given by the ranges of their codes.

Key definitions: `Text.Range`, `Text.within`.
-/

namespace CoreWar.Text

/-- The first and the last code of a range. -/
abbrev Range := Nat × Nat

/-- Does the character lie in one of the ranges? -/
def within (ranges : List Range) (c : Char) : Bool :=
  ranges.any fun r => r.1 ≤ c.toNat && c.toNat ≤ r.2

end CoreWar.Text
