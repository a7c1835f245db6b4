/-
# Addresses in the ring

`offset` adds in 64-bit two's complement and then takes the remainder. Read
as numbers, it is the remainder of the balanced residue modulo `2 ^ 64` of
base plus displacement (`offset_toNat`), so it lies below the size
(`offset_lt`), and it is the remainder of the sum itself whenever the sum is
a signed 64-bit number (`offset_toNat_of_fits`), as it is for the next cell
(`offset_one_toNat`).

Key theorems: `offset_toNat`, `offset_lt`, `offset_toNat_of_fits`,
`offset_eq_of_add`, `offset_one_toNat`.
-/
import Mathlib.Algebra.Group.Int.Defs
import Mathlib.Algebra.Group.Nat.Defs
import CoreWar.Address

namespace CoreWar

/-- Read as signed, a word is the balanced residue of its value. -/
theorem toInt_toInt64 (a : Address) : a.toInt64.toInt = (a.toNat : Int).bmod (2 ^ 64) := by
  show a.toBitVec.toInt = _
  rw [BitVec.toInt_eq_toNat_bmod]
  rfl

theorem exists_address_of_lt {n : Nat} (h : n < 2 ^ 64) : ∃ a : Address, a.toNat = n :=
  ⟨.ofNat n, UInt64.toNat_ofNat_of_lt' h⟩

theorem wrap_toNat {size : Nat} (hs : 0 < size) (hs' : size < 2 ^ 64) (a : Int64) :
    ((wrap size a).toNat : Int) = a.toInt % size := by
  have h0 : 0 ≤ a.toInt % (size : Int) := Int.emod_nonneg _ (by omega)
  have h1 : a.toInt % (size : Int) < size := Int.emod_lt_of_pos _ (by omega)
  have h2 : (wrap size a).toNat = (a.toInt % (size : Int)).toNat :=
    UInt64.toNat_ofNat_of_lt' (by simp only [UInt64.size]; omega)
  rw [h2]
  omega

theorem offset_toNat {size : Nat} (hs : 0 < size) (hs' : size < 2 ^ 64) (base : Address)
    (delta : Field) :
    ((offset size base delta).toNat : Int) =
      ((base.toNat : Int) + delta.toInt).bmod (2 ^ 64) % size := by
  unfold offset
  rw [wrap_toNat hs hs', Int64.toInt_add, toInt_toInt64, Int.bmod_add_bmod]

theorem offset_lt {size : Nat} (hs : 0 < size) (hs' : size < 2 ^ 64) (base : Address)
    (delta : Field) : (offset size base delta).toNat < size := by
  have h := offset_toNat hs hs' base delta
  have h1 := Int.emod_lt_of_pos (((base.toNat : Int) + delta.toInt).bmod (2 ^ 64))
    (show (0 : Int) < size by omega)
  omega

/-- The sum is exact while it is a signed 64-bit number. -/
theorem offset_toNat_of_fits {size : Nat} (hs : 0 < size) (hs' : size < 2 ^ 64) (base : Address)
    (delta : Field) (hlo : -2 ^ 63 ≤ (base.toNat : Int) + delta.toInt)
    (hhi : (base.toNat : Int) + delta.toInt < 2 ^ 63) :
    ((offset size base delta).toNat : Int) = ((base.toNat : Int) + delta.toInt) % size := by
  rw [offset_toNat hs hs', Int.bmod_eq_of_le_mul_two (by omega) (by omega)]

/-- A sum that lies in the ring is where the displacement leads. -/
theorem offset_eq_of_add {size : Nat} (hs' : size < 2 ^ 63) {a b : Address} {delta : Field}
    (hb : b.toNat < size) (h : (a.toNat : Int) + delta.toInt = b.toNat) :
    offset size a delta = b := by
  have hpos : 0 < size := by omega
  have hsum := offset_toNat_of_fits hpos (by omega) a delta (by omega) (by omega)
  rw [h] at hsum
  have hmod : (offset size a delta).toNat = b.toNat % size := by exact_mod_cast hsum
  exact UInt64.toNat_inj.mp (hmod.trans (Nat.mod_eq_of_lt hb))

theorem offset_one_toNat {size : Nat} (hs : 0 < size) (hs' : size < 2 ^ 63) {a : Address}
    (ha : a.toNat < size) : (offset size a 1).toNat = (a.toNat + 1) % size := by
  have hone : (1 : Field).toInt = 1 := rfl
  have h := offset_toNat_of_fits hs (by omega) a 1 (by rw [hone]; omega) (by rw [hone]; omega)
  rw [hone] at h
  exact_mod_cast h

end CoreWar
