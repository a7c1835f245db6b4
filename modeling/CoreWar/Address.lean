/-
# Addresses

An address is an unsigned 64-bit number. A core of `size` cells is a ring, so
an address names the cell at its remainder. Displacements are signed: `offset`
adds one to an address in 64-bit two's complement and takes the remainder that
lies in `[0, size)`. The sum is taken before the remainder, so an address of
`2 ^ 63` or more counts as negative there.

Key definitions: `Address`, `wrap`, `offset`.
-/
import CoreWar.Instruction

namespace CoreWar

/-- A place in the core, not necessarily reduced to its size. -/
abbrev Address := UInt64

/-- The cell that the signed number `a` names in a ring of `size` cells. -/
def wrap (size : Nat) (a : Int64) : Address :=
  UInt64.ofNat (a.toInt % (size : Int)).toNat

/-- The cell `delta` away from `base` in a ring of `size` cells. -/
def offset (size : Nat) (base : Address) (delta : Field) : Address :=
  wrap size (base.toInt64 + delta)

end CoreWar
