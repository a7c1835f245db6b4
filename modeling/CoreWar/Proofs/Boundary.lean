/-
# Where address arithmetic is exact

A displaced address is computed as the signed number of 64 bits that base plus
displacement is congruent to, and reduced to the ring after that. The sum of
an address and a displacement is at least `-2 ^ 63` and at most one turn of
64 bits too large, so exactly when it comes to `2 ^ 63` or more, `2 ^ 64` is
lost (`offset_toNat_of_le`). In a ring whose size divides `2 ^ 64` the loss is
a number of whole rounds and is not seen; in every other ring it leads to
another cell (`offset_toNat_iff`).

Reading and writing reduce the address as it is, without a sign. They use one
cell (`Core.uses_iff`), and no displacement leads to it exactly when the
address is no negative number or the ring does not tell the two apart
(`Core.offset_exact`).

Key definitions: `Core.Uses`.
Key theorems: `offset_toNat_of_le`, `offset_toNat_iff`, `Core.uses_iff`,
`Core.offset_exact`.
-/
import Mathlib.Data.Int.ModEq
import CoreWar.Proofs.Stepping

namespace CoreWar

theorem add_bounds (base : Address) (delta : Field) :
    -2 ^ 63 ≤ (base.toNat : Int) + delta.toInt ∧
      (base.toNat : Int) + delta.toInt - 2 ^ 64 < 2 ^ 63 := by
  have hbase := base.toNat_lt
  have hle := delta.le_toInt
  have hlt := delta.toInt_lt
  omega

theorem offset_toNat_of_le {size : Nat} (hs : 0 < size) (hs' : size < 2 ^ 64) (base : Address)
    (delta : Field) (hhi : 2 ^ 63 ≤ (base.toNat : Int) + delta.toInt) :
    ((offset size base delta).toNat : Int) =
      ((base.toNat : Int) + delta.toInt - 2 ^ 64) % size := by
  obtain ⟨-, hlt⟩ := add_bounds base delta
  have hbmod : ((base.toNat : Int) + delta.toInt).bmod (2 ^ 64) =
      (base.toNat : Int) + delta.toInt - 2 ^ 64 := by
    rw [← Int.sub_bmod_right]
    exact Int.bmod_eq_of_le_mul_two (by omega) (by omega)
  rw [offset_toNat hs hs', hbmod]

theorem sub_emod_eq_iff {size : Nat} (x : Int) :
    (x - 2 ^ 64) % (size : Int) = x % size ↔ size ∣ 2 ^ 64 := by
  have hcast : ((2 ^ 64 : Nat) : Int) = 2 ^ 64 := rfl
  calc (x - 2 ^ 64) % (size : Int) = x % size
      ↔ (size : Int) ∣ x - (x - 2 ^ 64) := Int.modEq_iff_dvd
    _ ↔ (size : Int) ∣ 2 ^ 64 := by rw [sub_sub_cancel]
    _ ↔ size ∣ 2 ^ 64 := by rw [← hcast, Int.natCast_dvd_natCast]

/-- **The remainder is that of the sum itself as long as the sum fits,** and beyond that in rings
whose size divides `2 ^ 64`. -/
theorem offset_toNat_iff {size : Nat} (hs : 0 < size) (hs' : size < 2 ^ 64) (base : Address)
    (delta : Field) :
    ((offset size base delta).toNat : Int) = ((base.toNat : Int) + delta.toInt) % size ↔
      (base.toNat : Int) + delta.toInt < 2 ^ 63 ∨ size ∣ 2 ^ 64 := by
  rcases lt_or_ge ((base.toNat : Int) + delta.toInt) (2 ^ 63) with hlt | hge
  · obtain ⟨hlo, -⟩ := add_bounds base delta
    exact iff_of_true (offset_toNat_of_fits hs hs' base delta hlo hlt) (.inl hlt)
  · rw [offset_toNat_of_le hs hs' base delta hge, sub_emod_eq_iff]
    exact ⟨.inr, fun h => h.resolve_left (Int.not_lt.mpr hge)⟩

namespace Core

/-- Reading, writing and changing at `a` use cell number `k`: what is read is what is in it, and
what is written or changed is this cell and no other. -/
structure Uses (core : Core) (a : Address) (k : Nat) : Prop where
  read : core.cells[k]? = some (core.read a)
  write : ∀ i, (core.write a i).cells = core.cells.setIfInBounds k i
  modify : ∀ f, (core.modify a f).cells = core.cells.modify k f

variable {core : Core} {a : Address} {k : Nat}

theorem uses_iff (hs : 0 < core.size) : core.Uses a k ↔ k = core.index a := by
  constructor
  · intro h
    by_contra hne
    -- a write that goes to `k` would not be seen at the remainder
    have hsame (i : Instruction) : i = core.read a := by
      have hself : (core.write a i).cells[core.index a]? = some i :=
        Array.getElem?_setIfInBounds_self_of_lt (index_lt hs a)
      rw [h.write i, Array.getElem?_setIfInBounds_ne hne, cells_index hs] at hself
      exact (Option.some.inj hself).symm
    have htwo : Instruction.neutral = { Instruction.neutral with aField := 1 } :=
      (hsame _).trans (hsame _).symm
    exact absurd htwo (by decide)
  · rintro rfl
    exact ⟨cells_index hs a, fun i => rfl, fun f => rfl⟩

/-- **Address arithmetic is exact precisely where 64 bits allow it.** A displaced address lies in
the ring; it is the remainder of the sum unless `2 ^ 64` is lost and missed; and going nowhere
from an address leads to the cell that reading and writing use under the same condition. -/
theorem offset_exact (h0 : 0 < core.size) (h : core.size < 2 ^ 63) :
    (∀ base delta, (core.offset base delta).toNat < core.size ∧
      (((core.offset base delta).toNat : Int) =
          ((base.toNat : Int) + delta.toInt) % core.size ↔
        (base.toNat : Int) + delta.toInt < 2 ^ 63 ∨ core.size ∣ 2 ^ 64) ∧
      (2 ^ 63 ≤ (base.toNat : Int) + delta.toInt → ((core.offset base delta).toNat : Int) =
        ((base.toNat : Int) + delta.toInt - 2 ^ 64) % core.size)) ∧
    ∀ a, core.Uses a (core.offset a 0).toNat ↔ a.toNat < 2 ^ 63 ∨ core.size ∣ 2 ^ 64 := by
  have hword : core.size < 2 ^ 64 := by omega
  refine ⟨fun base delta => ⟨offset_lt h0 hword base delta, offset_toNat_iff h0 hword base delta,
    offset_toNat_of_le h0 hword base delta⟩, fun a => ?_⟩
  have hiff := offset_toNat_iff h0 hword a 0
  have hzero : (0 : Field).toInt = 0 := rfl
  rw [hzero, Int.add_zero] at hiff
  rw [uses_iff h0, ← Int.natCast_inj, Core.offset, index, Int.natCast_mod, hiff]
  omega

/-- In a ring of three cells the last address that is exact is `2 ^ 63 - 1`: the one behind it is
read and written in cell 2, but going nowhere from it leads to cell 1. -/
theorem offset_exact_three :
    0 < (blank 3).size ∧ (blank 3).size < 2 ^ 63 ∧
    (blank 3).Uses 0x7fffffffffffffff ((blank 3).offset 0x7fffffffffffffff 0).toNat ∧
    (((blank 3).offset 0x8000000000000000 0).toNat : Int) = (2 ^ 63 - 2 ^ 64) % 3 ∧
    ¬ (blank 3).Uses 0x8000000000000000 ((blank 3).offset 0x8000000000000000 0).toNat ∧
    (((blank 3).offset 0x8000000000000000 (-1)).toNat : Int) = (2 ^ 63 - 1) % 3 := by
  have h0 : 0 < (blank 3).size := by decide
  have h : (blank 3).size < 2 ^ 63 := by decide
  obtain ⟨hoffset, huses⟩ := @offset_exact (blank 3) h0 h
  exact ⟨h0, h, (huses _).mpr (.inl (by decide)), (hoffset 0x8000000000000000 0).2.2 (by decide),
    fun hsame => absurd ((huses _).mp hsame) (by decide),
    (hoffset 0x8000000000000000 (-1)).2.1.mpr (.inl (by decide))⟩

end Core
end CoreWar
