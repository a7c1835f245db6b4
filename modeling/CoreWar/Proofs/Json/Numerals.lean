/-
# The numerals of integers

An integer survives being printed: the numeral of an integer is read back as
the same numeral (`ofChars?_ofInt`) and stands for the same integer
(`integer?_ofInt`). Below `2 ^ 64` all its digits fit the significand, so it
stays finite in floating point (`isFinite_ofInt`).

Key theorems: `Numeral.ofChars?_ofInt`, `Numeral.integer?_ofInt`,
`Numeral.isFinite_ofInt`.
-/
import Mathlib.Data.List.Basic
import Mathlib.Data.List.TakeWhile
import Mathlib.Tactic.IntervalCases
import CoreWar.Json.Numeral

namespace CoreWar.Json.Numeral

/-! ### Reading back -/

theorem head?_toDigits_ne (n : Nat) (hn : n ≠ 0) : (Nat.toDigits 10 n).head? ≠ some '0' := by
  induction n using Nat.strong_induction_on with
  | _ n ih =>
    by_cases h : n < 10
    · rw [Nat.toDigits_of_lt_base h]
      interval_cases n <;> simp_all [Nat.digitChar]
    · have hdigits := Nat.toDigits_of_base_le (b := 10) (n := n) (by omega) (by omega)
      rw [hdigits, List.head?_append_of_ne_nil _ Nat.toDigits_ne_nil]
      exact ih (n / 10) (by omega) (by omega)

theorem isWhole_toDigits (n : Nat) : isWhole (Nat.toDigits 10 n) = true := by
  by_cases hn : n = 0
  · subst hn
    rfl
  · have hhead := head?_toDigits_ne n hn
    have hne := Nat.toDigits_ne_nil (n := n) (b := 10)
    cases hd : Nat.toDigits 10 n with
    | nil => exact absurd hd hne
    | cons d ds =>
      rw [hd] at hhead
      have hd0 : d ≠ '0' := by simpa using hhead
      unfold isWhole
      split <;> simp_all

theorem isDigit_toDigits {n : Nat} : ∀ c ∈ Nat.toDigits 10 n, c.isDigit = true :=
  fun _ => Nat.isDigit_of_mem_toDigits (by omega) (by omega)

theorem unsigned?_toDigits (negative : Bool) (n : Nat) :
    unsigned? negative (Nat.toDigits 10 n) = some ⟨negative, Nat.toDigits 10 n, [], none⟩ := by
  have htake := List.takeWhile_eq_self_iff.mpr (isDigit_toDigits (n := n))
  have hdrop := List.dropWhile_eq_nil_iff.mpr (isDigit_toDigits (n := n))
  unfold unsigned?
  rw [htake, hdrop, if_pos (isWhole_toDigits n)]
  rfl

/-- The sign and the digits. -/
theorem chars_ofInt (i : Int) :
    (ofInt i).chars = (if i < 0 then ['-'] else []) ++ Nat.toDigits 10 i.natAbs := by
  simp [chars, ofInt, exponentChars]

/-- The numeral of an integer is read back. -/
theorem ofChars?_ofInt (i : Int) : ofChars? (ofInt i).chars = some (ofInt i) := by
  have hread := unsigned?_toDigits (decide (i < 0)) i.natAbs
  rw [chars_ofInt]
  by_cases hi : i < 0
  · rw [decide_eq_true hi] at hread
    rw [if_pos hi, ofInt, decide_eq_true hi]
    exact hread
  · rw [decide_eq_false hi] at hread
    rw [if_neg hi, List.nil_append]
    unfold ofChars?
    split
    · -- a digit is no sign
      rename_i cs hcs
      have hsign := isDigit_toDigits '-' (hcs ▸ List.mem_cons_self)
      exact absurd hsign (by decide)
    · rw [ofInt, decide_eq_false hi]
      exact hread

theorem integer?_ofInt (i : Int) : (ofInt i).integer? = some i := by
  have hsigned : (if i < 0 then -(i.natAbs : Int) else i.natAbs) = i := by
    split <;> omega
  simp only [integer?, ofInt, Nat.ofDigitChars_ten_toDigits, decide_eq_true_eq]
  split
  · rename_i hbad
    rcases hbad with h | h | ⟨hneg, hzero⟩
    · exact absurd rfl h
    · exact absurd rfl h
    · omega
  · rw [hsigned]

/-! ### Finite numbers -/

theorem le_ofDigitChars (ds : List Char) (s : Nat) : s ≤ Nat.ofDigitChars 10 ds s := by
  induction ds generalizing s with
  | nil => simp
  | cons d ds ih =>
    rw [Nat.ofDigitChars_cons]
    exact le_trans (by omega) (ih _)

/-- Digits whose value fits are all taken in. -/
theorem absorb_eq {ds : List Char} {s : Nat} (h : Nat.ofDigitChars 10 ds s < UInt64.size) :
    absorb s ds = (Nat.ofDigitChars 10 ds s, []) := by
  induction ds generalizing s with
  | nil => simp [absorb]
  | cons d ds ih =>
    have hcons : Nat.ofDigitChars 10 (d :: ds) s =
        Nat.ofDigitChars 10 ds (Nat.ofDigitChars 10 [d] s) := by
      simp [Nat.ofDigitChars_cons]
    rw [hcons] at h ⊢
    have hfits := lt_of_le_of_lt (le_ofDigitChars ds _) h
    unfold absorb
    rw [if_pos hfits, ih h]

/-- Rounding adds less than one unit of the last place. -/
theorem round53_le (n : Nat) : round53 n ≤ n + 1 <<< (n.log2 + 1 - 53) := by
  have hfloor := Nat.div_mul_le_self n (1 <<< (n.log2 + 1 - 53))
  simp only [round53]
  split
  · rw [Nat.add_mul]
    omega
  · omega

theorem round53_lt {n : Nat} (hn : n < UInt64.size) : round53 n < 2 ^ 65 := by
  have hlog : n.log2 < 64 := by
    by_cases h0 : n = 0
    · simp [h0]
    · exact (Nat.log2_lt h0).mpr hn
  have hunit : 1 <<< (n.log2 + 1 - 53) ≤ 2 ^ 11 := by
    rw [Nat.one_shiftLeft]
    exact Nat.pow_le_pow_right (by omega) (by omega)
  have hround := round53_le n
  have hsize : n < 2 ^ 64 := hn
  omega

/-- An integer below `2 ^ 64` stays finite. -/
theorem isFinite_ofInt {i : Int} (hi : i.natAbs < UInt64.size) : (ofInt i).isFinite = true := by
  have habsorb := absorb_eq (Nat.ofDigitChars_ten_toDigits.trans_lt hi)
  have hround := round53_lt hi
  have hlimit : 2 ^ 65 ≤ 1 <<< 1024 - 1 <<< 970 := by decide
  have hsmall : round53 i.natAbs * round53 (Nat.pow 10 0) < 1 <<< 1024 - 1 <<< 970 := by
    have hone : round53 (Nat.pow 10 0) = 1 := by decide
    rw [hone, Nat.mul_one]
    exact lt_of_lt_of_le hround hlimit
  unfold isFinite ofInt
  simp only [habsorb, Nat.ofDigitChars_ten_toDigits, absorb, decide_eq_true_eq]
  exact Or.inr (Or.inr ⟨by decide, hsmall⟩)

end CoreWar.Json.Numeral
