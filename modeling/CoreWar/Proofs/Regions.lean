/-
# Programs that do not meet

A region covers the cells from its origin on, around the ring. Two regions
that the overlap test lets pass have no cell in common
(`Placement.Region.apart_of_overlap`). Programs that are laid out one behind
the other take up consecutive stretches from the base: number `i` begins
behind the lengths of those in front of it and `i` gaps
(`Placement.toNat_layOut`), and as all the lengths and gaps together are no
longer than the ring, none reaches into another. So whichever way places are
found, the programs have room and are apart (`place_apart`).

Key definitions: `Placement.Region.Covers`, `Placement.Region.Apart`,
`Placement.row`, `Placement.distance`.
Key theorems: `Placement.Region.index_unique`,
`Placement.Region.apart_of_overlap`, `Placement.toNat_layOut`, `place_apart`.
-/
import Mathlib.Algebra.Order.BigOperators.Group.List
import Mathlib.Algebra.Order.Group.Nat
import Mathlib.Data.Nat.ModEq
import CoreWar.Proofs.Arena

namespace CoreWar

namespace Placement

/-! ### Cells in common -/

/-- The cell `x` of a ring of `size` cells belongs to the region. -/
def Region.Covers (size : Nat) (r : Region) (x : Nat) : Prop :=
  ∃ k < r.length.toNat, x = (r.origin.toNat + k) % size

/-- No cell belongs to both regions. -/
def Region.Apart (size : Nat) (p q : Region) : Prop :=
  ∀ x, p.Covers size x → ¬ q.Covers size x

theorem Region.index_unique {size x : Nat} {regions : List Region}
    (h : regions.Pairwise (Region.Apart size)) {i j : Nat} {p q : Region}
    (hp : regions[i]? = some p) (hq : regions[j]? = some q) (hpx : p.Covers size x)
    (hqx : q.Covers size x) : i = j := by
  obtain ⟨hi, rfl⟩ := List.getElem?_eq_some_iff.mp hp
  obtain ⟨hj, rfl⟩ := List.getElem?_eq_some_iff.mp hq
  rw [List.pairwise_iff_getElem] at h
  rcases Nat.lt_trichotomy i j with hij | hij | hij
  · exact absurd hqx (h i j hi hj hij x hpx)
  · exact hij
  · exact absurd hpx (h j i hj hi hij x hqx)

theorem toNat_ahead {size : UInt64} (hs : size.toNat ≤ 2 ^ 63) {a b : Address}
    (ha : a.toNat < size.toNat) (hb : b.toNat < size.toNat) :
    (ahead size a b).toNat = (b.toNat + size.toNat - a.toNat) % size.toNat := by
  have hsum : (b + size).toNat = b.toNat + size.toNat := by
    rw [UInt64.toNat_add]
    exact Nat.mod_eq_of_lt (by omega)
  have hle : a ≤ b + size := by
    rw [UInt64.le_iff_toNat_le, hsum]
    omega
  rw [ahead, UInt64.toNat_mod, UInt64.toNat_sub_of_le _ _ hle, hsum]

/-- When the `k`-th cell from `a` is the `m`-th cell from `b` and `m ≤ k`, then `b` lies at
most `k - m` cells ahead of `a`. -/
theorem ahead_le {size : UInt64} (hs : size.toNat ≤ 2 ^ 63) {a b : Address}
    (ha : a.toNat < size.toNat) (hb : b.toNat < size.toNat) {k m : Nat} (hm : m ≤ k)
    (h : (a.toNat + k) % size.toNat = (b.toNat + m) % size.toNat) :
    (ahead size a b).toNat ≤ k - m := by
  have hcong : b.toNat + size.toNat - a.toNat ≡ k - m [MOD size.toNat] := by
    apply Nat.ModEq.add_right_cancel' (a.toNat + m)
    calc b.toNat + size.toNat - a.toNat + (a.toNat + m)
        = b.toNat + m + size.toNat := by omega
      _ ≡ b.toNat + m [MOD size.toNat] := Nat.add_mod_right _ _
      _ ≡ a.toNat + k [MOD size.toNat] := h.symm
      _ = k - m + (a.toNat + m) := by omega
  rw [toNat_ahead hs ha hb, hcong]
  exact Nat.mod_le _ _

/-- Regions that pass the test have no cell in common. -/
theorem Region.apart_of_overlap {size : UInt64} (hs : size.toNat ≤ 2 ^ 63) {p q : Region}
    (hp : p.origin.toNat < size.toNat) (hq : q.origin.toNat < size.toNat)
    (h : overlap size p q = false) : p.Apart size.toNat q := by
  rintro x ⟨k, hk, rfl⟩ ⟨m, hm, hx⟩
  simp only [overlap, Bool.or_eq_false_iff, decide_eq_false_iff_not, UInt64.lt_iff_toNat_lt] at h
  -- of the two regions, the one that comes to the cell with fewer steps begins in the other
  rcases Nat.le_total m k with hle | hle
  · have := ahead_le hs hp hq hle hx
    omega
  · have := ahead_le hs hq hp hle hx.symm
    omega

/-- The first region behind number `i` that shares a cell with `p`, with the pair of numbers. -/
def row (size : UInt64) (regions : List Region) (p : Region) (i : Nat) : Option (Nat × Nat) :=
  (regions.zipIdx.drop (i + 1)).findSome? fun (q, j) =>
    if overlap size p q then some (i, j) else none

theorem firstOverlap?_eq_findSome? (size : UInt64) (regions : List Region) :
    firstOverlap? size regions = regions.zipIdx.findSome? fun (p, i) => row size regions p i := rfl

theorem getElem?_drop_zipIdx (regions : List Region) (i m : Nat) :
    (regions.zipIdx.drop (i + 1))[m]? = regions[i + 1 + m]?.map fun q => (q, i + 1 + m) := by
  rw [List.getElem?_drop, List.getElem?_zipIdx, Nat.zero_add]

theorem overlap_of_row_eq_none {size : UInt64} {regions : List Region} {p q : Region} {i j : Nat}
    (h : row size regions p i = none) (hij : i < j) (hq : regions[j]? = some q) :
    overlap size p q = false := by
  have hmem : (q, j) ∈ regions.zipIdx.drop (i + 1) := by
    apply List.mem_of_getElem? (i := j - (i + 1))
    rw [getElem?_drop_zipIdx, Nat.add_sub_cancel' hij, hq]
    rfl
  simpa using List.findSome?_eq_none_iff.mp h _ hmem

theorem firstOverlap?_eq_none {size : UInt64} {regions : List Region}
    (h : firstOverlap? size regions = none) :
    regions.Pairwise fun p q => overlap size p q = false := by
  rw [List.pairwise_iff_getElem]
  intro i j hi hj hij
  have hrow : row size regions regions[i] i = none :=
    List.findSome?_eq_none_iff.mp h (regions[i], i)
      (List.mk_mem_zipIdx_iff_getElem?.mpr (List.getElem?_eq_getElem hi))
  exact overlap_of_row_eq_none hrow hij (List.getElem?_eq_getElem hj)

/-! ### Programs laid out in a row -/

/-- How far behind the base program number `i` begins. -/
def distance (gap : Nat) (lengths : List Nat) (i : Nat) : Nat := (lengths.take i).sum + i * gap

theorem distance_succ (gap length : Nat) (lengths : List Nat) (i : Nat) :
    distance gap (length :: lengths) (i + 1) = length + gap + distance gap lengths i := by
  simp only [distance, List.take_succ_cons, List.sum_cons, Nat.succ_mul]
  omega

/-- A program ends a gap before the next one begins. -/
theorem distance_add_le (gap : Nat) : ∀ {lengths : List Nat} {i j l : Nat}, i < j →
    j ≤ lengths.length → lengths[i]? = some l →
      distance gap lengths i + l + gap ≤ distance gap lengths j
  | [], i, j, l, _, _, hl => by simp at hl
  | length :: lengths, i, j + 1, l, hij, hj, hl => by
    rw [distance_succ]
    cases i with
    | zero =>
      obtain rfl : length = l := by simpa using hl
      simp [distance]
    | succ i =>
      have ih := distance_add_le gap (Nat.lt_of_succ_lt_succ hij) (Nat.le_of_succ_le_succ hj) hl
      rw [distance_succ]
      omega

theorem toNat_layOut {size gap : UInt64} (hs : size.toNat ≤ 2 ^ 63) :
    ∀ (lengths : List UInt64) (base : Address) {i : Nat} {o : Address},
      distance gap.toNat (lengths.map UInt64.toNat) lengths.length ≤ size.toNat → 0 < size.toNat →
      (layOut size gap base lengths)[i]? = some o →
      o.toNat = (base.toNat + distance gap.toNat (lengths.map UInt64.toNat) i) % size.toNat
  | [], base, i, o, _, _, ho => by simp [layOut] at ho
  | length :: lengths, base, i, o, hfit, h0, ho => by
    rw [List.map_cons, List.length_cons, distance_succ] at hfit
    cases i with
    | zero =>
      obtain rfl : base % size = o := by simpa [layOut] using ho
      simp [distance]
    | succ i =>
      have hlt : base.toNat % size.toNat < size.toNat := Nat.mod_lt _ h0
      -- the next base is below twice the size, so it is a word
      have hnext : (base % size + length + gap).toNat =
          base.toNat % size.toNat + length.toNat + gap.toNat := by
        simp only [UInt64.toNat_add, UInt64.toNat_mod]
        omega
      rw [toNat_layOut hs lengths _ (by omega) h0 ho, hnext, List.map_cons, distance_succ]
      simp only [Nat.add_assoc, Nat.mod_add_mod]

theorem add_mod_inj {size base d e : Nat} (hd : d < size) (he : e < size)
    (h : (base + d) % size = (base + e) % size) : d = e := by
  have hcong : d ≡ e [MOD size] := Nat.ModEq.add_left_cancel' base h
  rw [Nat.ModEq, Nat.mod_eq_of_lt hd, Nat.mod_eq_of_lt he] at hcong
  exact hcong

theorem pairwise_layOut {size gap : UInt64} (hs : size.toNat ≤ 2 ^ 63) (h0 : 0 < size.toNat)
    (base : Address) {lengths : List UInt64}
    (hfit : distance gap.toNat (lengths.map UInt64.toNat) lengths.length ≤ size.toNat) :
    ((layOut size gap base lengths).zipWith Region.mk lengths).Pairwise
      (Region.Apart size.toNat) := by
  rw [List.pairwise_iff_getElem]
  intro i j hi hj hij
  rw [List.getElem_zipWith, List.getElem_zipWith]
  have horigin (n : Nat) (hn : n < (layOut size gap base lengths).length) :
      (layOut size gap base lengths)[n].toNat =
        (base.toNat + distance gap.toNat (lengths.map UInt64.toNat) n) % size.toNat :=
    toNat_layOut hs lengths base hfit h0 (List.getElem?_eq_getElem hn)
  rintro x ⟨k, hk, rfl⟩ ⟨m, hm, hx⟩
  simp only [horigin, Nat.mod_add_mod, Nat.add_assoc] at hx hk hm
  rw [List.length_zipWith, length_layOut, Nat.min_self] at hi hj
  -- the first ends where the second begins or before, and the second ends inside the ring
  have hfirst := distance_add_le gap.toNat hij (by simp; omega)
    (List.getElem?_eq_getElem (show i < (lengths.map UInt64.toNat).length by simpa using hi))
  have hsecond := distance_add_le gap.toNat hj (by simp)
    (List.getElem?_eq_getElem (show j < (lengths.map UInt64.toNat).length by simpa using hj))
  rw [List.getElem_map] at hfirst hsecond
  have := add_mod_inj (by omega) (by omega) hx
  omega

end Placement

/-! ### Both ways of finding places -/

open Placement

/-- There are no more positive numbers than their sum. -/
theorem length_le_sum_map {α : Type} {f : α → Nat} {xs : List α} (h : ∀ x ∈ xs, 0 < f x) :
    xs.length ≤ (xs.map f).sum := by
  rw [← List.length_map f]
  refine List.length_le_sum_of_one_le _ fun n hn => ?_
  obtain ⟨x, hx, rfl⟩ := List.mem_map.mp hn
  exact h x hx

theorem toNat_foldl_add : ∀ {lengths : List UInt64} {n : UInt64},
    n.toNat + (lengths.map UInt64.toNat).sum < 2 ^ 64 →
      (lengths.foldl (· + ·) n).toNat = n.toNat + (lengths.map UInt64.toNat).sum
  | [], n, _ => by simp
  | l :: lengths, n, h => by
    rw [List.map_cons, List.sum_cons] at h
    have hadd : (n + l).toNat = n.toNat + l.toNat := by
      rw [UInt64.toNat_add]
      exact Nat.mod_eq_of_lt (by omega)
    rw [List.foldl_cons, toNat_foldl_add (by omega), hadd, List.map_cons, List.sum_cons]
    omega

theorem toNat_foldl_add_zero {lengths : List UInt64}
    (h : (lengths.map UInt64.toNat).sum < 2 ^ 64) :
    (lengths.foldl (· + ·) 0).toNat = (lengths.map UInt64.toNat).sum := by
  rw [toNat_foldl_add (by simpa using h), UInt64.toNat_zero, Nat.zero_add]

theorem toNat_gap {size needed : UInt64} (h : needed ≤ size) {count : Nat}
    (hcount : count < 2 ^ 64) :
    ((size - needed) / UInt64.ofNat count).toNat = (size.toNat - needed.toNat) / count := by
  rw [UInt64.toNat_div, UInt64.toNat_sub_of_le _ _ h, UInt64.toNat_ofNat_of_lt' hcount]

/-- Wherever programs are placed, they have room and no two of them meet. -/
theorem place_apart {lengths : List UInt64} {s : Settings} {positions : List Address}
    (hs : s.coreSize.toNat ≤ 2 ^ 63) (hn : lengths.length < 2 ^ 64)
    (hsum : (lengths.map UInt64.toNat).sum < 2 ^ 64) (h : place lengths s = .ok positions) :
    (lengths.map UInt64.toNat).sum ≤ s.coreSize.toNat ∧
      (positions.zipWith Region.mk lengths).Pairwise (Region.Apart s.coreSize.toNat) := by
  obtain ⟨hsize, hne, hroom, hways⟩ := place_cases h
  have hneeded := toNat_foldl_add_zero hsum
  have hfit : (lengths.map UInt64.toNat).sum ≤ s.coreSize.toNat :=
    hneeded ▸ UInt64.le_iff_toNat_le.mp hroom
  refine ⟨hfit, ?_⟩
  rcases hways with ⟨chosen, -, -, -, hnone⟩ | ⟨-, rfl⟩
  · -- chosen by hand: every pair has passed the test
    refine (firstOverlap?_eq_none hnone).imp_of_mem fun {p q} hp hq hpq => ?_
    have hlt (r : Region) (hr : r ∈ positions.zipWith Region.mk lengths) :
        r.origin.toNat < s.coreSize.toNat := by
      obtain ⟨i, hi, rfl⟩ := List.getElem_of_mem hr
      rw [List.getElem_zipWith]
      exact (place_lt h).2 _ (List.getElem_mem _)
    exact Region.apart_of_overlap hs (hlt p hp) (hlt q hq) hpq
  · -- laid out in a row: the gaps are what is left over, divided
    have h0 : 0 < s.coreSize.toNat := Nat.pos_of_ne_zero fun h0 => hsize (UInt64.toNat_inj.mp h0)
    refine pairwise_layOut hs h0 _ ?_
    have hgaps := Nat.mul_div_le (s.coreSize.toNat - (lengths.map UInt64.toNat).sum) lengths.length
    rw [toNat_gap hroom hn, hneeded, distance, List.take_of_length_le (by simp)]
    omega

end CoreWar
