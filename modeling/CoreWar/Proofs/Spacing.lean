/-
# Programs spread over the ring

Programs for which no places are chosen are laid out from a base: the gap
behind each is an equal share of the free cells, and what does not divide
evenly comes behind the last one. Each program begins where the one in front
of it and its gap end, so the whole row is known from the distances to the
base, and the row with the remainder behind it is exactly as long as the ring
(`Placement.spread_layOut`). The layout does not depend on where the base
comes from; a base that is drawn lies in the ring whatever the seed
(`Placement.Generator.below_lt`).

Nothing checks such a layout for overlaps, and nothing needs to: the check
would let it pass (`place_spread`).

Key definitions: `Placement.Region.Precedes`, `Placement.Spread`.
Key theorems: `Placement.Generator.below_lt`, `Placement.not_covers_behind`,
`Placement.spread_layOut`, `place_spread`.
-/
import CoreWar.Proofs.Overlaps

namespace CoreWar

namespace Placement

/-! ### The base -/

theorem toNat_highHalf_lt {bound : UInt64} (h : 0 < bound.toNat) (drawn : UInt64) :
    (UInt64.ofNat (drawn.toNat * bound.toNat / UInt64.size)).toNat < bound.toNat := by
  have hlt : drawn.toNat * bound.toNat / UInt64.size < bound.toNat := by
    apply Nat.div_lt_of_lt_mul
    exact Nat.mul_lt_mul_of_pos_right drawn.toNat_lt h
  rw [UInt64.toNat_ofNat_of_lt' (Nat.lt_trans hlt bound.toNat_lt)]
  exact hlt

theorem Generator.below_lt {bound : UInt64} (h : 0 < bound.toNat) :
    ∀ (fuel : Nat) (g : Generator), (below bound fuel g).toNat < bound.toNat
  | 0, g => toNat_highHalf_lt h g.next.1
  | fuel + 1, g => by
    unfold below
    simp only
    split
    · exact toNat_highHalf_lt h g.next.1
    · exact below_lt h fuel g.next.2

theorem base_lt {s : Settings} (h : 0 < s.coreSize.toNat) : (base s).toNat < s.coreSize.toNat := by
  unfold base
  split
  · exact Generator.below_lt h _ _
  · rw [UInt64.toNat_mod]
    exact Nat.mod_lt _ h

/-! ### Rows of programs -/

/-- Behind the last cell of `p` come `free` cells that belong to no region, and then `q`
begins. -/
structure Region.Precedes (size : Nat) (regions : List Region) (free : Nat) (p q : Region) :
    Prop where
  begins : (p.origin.toNat + p.length.toNat + free) % size = q.origin.toNat
  unused : ∀ k < free, ∀ r ∈ regions,
    ¬ r.Covers size ((p.origin.toNat + p.length.toNat + k) % size)

theorem distance_add_one (gap : Nat) {lengths : List Nat} {i l : Nat} (h : lengths[i]? = some l) :
    distance gap lengths (i + 1) = distance gap lengths i + l + gap := by
  unfold distance
  rw [List.take_add_one, List.sum_append, h, Nat.succ_mul]
  simp only [Option.toList_some, List.sum_singleton]
  omega

section Row

variable {size gap : UInt64} {base : Address} {lengths : List UInt64}
  (hs : size.toNat ≤ 2 ^ 63) (h0 : 0 < size.toNat)
  (hfit : distance gap.toNat (lengths.map UInt64.toNat) lengths.length ≤ size.toNat)

include hs h0 hfit

theorem region_layOut {i : Nat} {r : Region}
    (hr : ((layOut size gap base lengths).zipWith Region.mk lengths)[i]? = some r) :
    i < lengths.length ∧ (lengths.map UInt64.toNat)[i]? = some r.length.toNat ∧
      r.origin.toNat =
        (base.toNat + distance gap.toNat (lengths.map UInt64.toNat) i) % size.toNat := by
  obtain ⟨o, l, ho, hl, rfl⟩ := List.getElem?_zipWith_eq_some.mp hr
  refine ⟨(List.getElem?_eq_some_iff.mp hl).1, by simp [hl], ?_⟩
  exact toNat_layOut hs lengths base hfit h0 ho

/-- The cells behind a program belong to no other, up to where the next one begins and once
round the ring at most. -/
theorem not_covers_behind {i free : Nat} {p : Region}
    (hp : ((layOut size gap base lengths).zipWith Region.mk lengths)[i]? = some p)
    (hring : distance gap.toNat (lengths.map UInt64.toNat) i + p.length.toNat + free ≤ size.toNat)
    (hnext : ∀ j, i < j → j < lengths.length →
      distance gap.toNat (lengths.map UInt64.toNat) i + p.length.toNat + free ≤
        distance gap.toNat (lengths.map UInt64.toNat) j) :
    ∀ k < free, ∀ r ∈ (layOut size gap base lengths).zipWith Region.mk lengths,
      ¬ r.Covers size.toNat ((p.origin.toNat + p.length.toNat + k) % size.toNat) := by
  rintro k hk r hr ⟨m, hm, hcell⟩
  obtain ⟨j, hj⟩ := List.mem_iff_getElem?.mp hr
  obtain ⟨hi, hlp, hop⟩ := region_layOut hs h0 hfit hp
  obtain ⟨hjn, hlr, hor⟩ := region_layOut hs h0 hfit hj
  have hend := distance_add_le gap.toNat hjn (by simp) hlr
  rw [hop, hor] at hcell
  simp only [Nat.mod_add_mod, Nat.add_assoc] at hcell
  have hsame := add_mod_inj (by omega) (by omega) hcell
  rcases Nat.lt_trichotomy j i with hji | rfl | hij
  · -- a program in front ends before this one begins
    have hfront := distance_add_le gap.toNat hji (by simpa using Nat.le_of_lt hi) hlr
    omega
  · have hlength : p.length.toNat = r.length.toNat := Option.some.inj (hlp.symm.trans hlr)
    omega
  · have hbehind := hnext j hij hjn
    omega

theorem precedes_next {i : Nat} {p q : Region}
    (hp : ((layOut size gap base lengths).zipWith Region.mk lengths)[i]? = some p)
    (hq : ((layOut size gap base lengths).zipWith Region.mk lengths)[i + 1]? = some q) :
    p.Precedes size.toNat ((layOut size gap base lengths).zipWith Region.mk lengths)
      gap.toNat q := by
  obtain ⟨hi, hlp, hop⟩ := region_layOut hs h0 hfit hp
  obtain ⟨-, -, hoq⟩ := region_layOut hs h0 hfit hq
  have hend := distance_add_le gap.toNat hi (by simp) hlp
  constructor
  · rw [hop, hoq, distance_add_one _ hlp]
    simp only [Nat.mod_add_mod, Nat.add_assoc]
  · apply not_covers_behind hs h0 hfit hp (by omega)
    intro j hij hj
    exact distance_add_le gap.toNat hij (by simpa using Nat.le_of_lt hj) hlp

omit hfit in
theorem precedes_first {rest : Nat}
    (hwhole : distance gap.toNat (lengths.map UInt64.toNat) lengths.length + rest = size.toNat)
    {p q : Region}
    (hp : ((layOut size gap base lengths).zipWith Region.mk lengths).getLast? = some p)
    (hq : ((layOut size gap base lengths).zipWith Region.mk lengths).head? = some q) :
    p.Precedes size.toNat ((layOut size gap base lengths).zipWith Region.mk lengths)
      (gap.toNat + rest) q := by
  have hfit : distance gap.toNat (lengths.map UInt64.toNat) lengths.length ≤ size.toNat := by omega
  rw [List.getLast?_eq_getElem?, List.length_zipWith, length_layOut, Nat.min_self] at hp
  rw [List.head?_eq_getElem?] at hq
  obtain ⟨hlast, hlp, hop⟩ := region_layOut hs h0 hfit hp
  obtain ⟨-, -, hoq⟩ := region_layOut hs h0 hfit hq
  have hlen : lengths.length - 1 + 1 = lengths.length := by omega
  have hend := distance_add_one gap.toNat hlp
  rw [hlen] at hend
  constructor
  · have hround : base.toNat + (distance gap.toNat (lengths.map UInt64.toNat) (lengths.length - 1) +
        (p.length.toNat + (gap.toNat + rest))) = base.toNat + size.toNat := by omega
    rw [hop, hoq]
    simp only [Nat.mod_add_mod, Nat.add_assoc]
    rw [hround, Nat.add_mod_right]
    simp [distance]
  · apply not_covers_behind hs h0 hfit hp (by omega)
    intro j hij hj
    omega

end Row

/-- Programs of the given lengths are spread over a ring of `size` cells from `base` on. -/
structure Spread (size base : Nat) (lengths : List UInt64) (positions : List Address) : Prop where
  /-- Each program has a position, -/
  length : positions.length = lengths.length
  /-- the first one the base, -/
  first : positions.head?.map UInt64.toNat = some base
  /-- and every one in the ring. -/
  below : ∀ p ∈ positions, p.toNat < size
  /-- No two programs share a cell. -/
  apart : (positions.zipWith Region.mk lengths).Pairwise (Region.Apart size)
  /-- Between each program and the next lies an equal share of the free cells, -/
  between : ∀ i p q, (positions.zipWith Region.mk lengths)[i]? = some p →
    (positions.zipWith Region.mk lengths)[i + 1]? = some q →
    p.Precedes size (positions.zipWith Region.mk lengths)
      ((size - (lengths.map UInt64.toNat).sum) / lengths.length) q
  /-- and between the last and the first a share and what is left over. -/
  around : ∀ p q, (positions.zipWith Region.mk lengths).getLast? = some p →
    (positions.zipWith Region.mk lengths).head? = some q →
    p.Precedes size (positions.zipWith Region.mk lengths)
      ((size - (lengths.map UInt64.toNat).sum) / lengths.length +
        (size - (lengths.map UInt64.toNat).sum) % lengths.length) q

/-- **Programs in a row are spread over the ring,** wherever it begins. -/
theorem spread_layOut {size gap : UInt64} (hs : size.toNat ≤ 2 ^ 63) {lengths : List UInt64}
    (hroom : HasRoom lengths size)
    (hgap : gap.toNat = (size.toNat - (lengths.map UInt64.toNat).sum) / lengths.length)
    {base : Address} (hbase : base.toNat < size.toNat) :
    Spread size.toNat base.toNat lengths (layOut size gap base lengths) := by
  have h0 := hroom.size_pos
  have hwhole : distance gap.toNat (lengths.map UInt64.toNat) lengths.length +
      (size.toNat - (lengths.map UInt64.toNat).sum) % lengths.length = size.toNat := by
    have hsum := hroom.sum_le
    have hdiv := Nat.div_add_mod (size.toNat - (lengths.map UInt64.toNat).sum) lengths.length
    rw [distance, List.take_of_length_le (by simp), hgap]
    omega
  have hfit : distance gap.toNat (lengths.map UInt64.toNat) lengths.length ≤ size.toNat := by omega
  refine ⟨length_layOut size gap lengths base, ?_, layOut_lt hroom.size_ne_zero gap lengths base,
    pairwise_layOut hs h0 base hfit, fun i p q hp hq => ?_, fun p q hp hq => ?_⟩
  · obtain ⟨l, ls, rfl⟩ := List.exists_cons_of_ne_nil hroom.nonempty
    simp [layOut, Nat.mod_eq_of_lt hbase]
  · rw [← hgap]
    exact precedes_next hs h0 hfit hp hq
  · rw [← hgap]
    exact precedes_first hs h0 hwhole hp hq

end Placement

open Placement

/-- **Placement without chosen positions spreads the programs over the ring.** It always
succeeds; the base is the offset asked for, reduced to the ring, or what is drawn with the seed;
and the check for overlaps, which it does not make, would let the places pass. -/
theorem place_spread {lengths : List UInt64} {s : Settings} (hroom : HasRoom lengths s.coreSize)
    (hs : s.coreSize.toNat ≤ 2 ^ 63) (hauto : s.startPositions = none) :
    ∃ positions, place lengths s = .ok positions ∧
      Spread s.coreSize.toNat (base s).toNat lengths positions ∧
      (s.seed = none → (base s).toNat = s.baseOffset.toNat % s.coreSize.toNat) ∧
      (∀ seed, s.seed = some seed → base s = Generator.below s.coreSize patience (.ofSeed seed)) ∧
      firstOverlap? s.coreSize (positions.zipWith Region.mk lengths) = none := by
  have hcount : lengths.length < 2 ^ 64 := by
    have h1 := hroom.length_le
    have h2 := hroom.sum_le
    omega
  have hgap := toNat_gap hroom.needed_le hcount
  rw [hroom.toNat_needed] at hgap
  have hspread := spread_layOut hs hroom hgap (base_lt hroom.size_pos)
  refine ⟨_, place_eq_layOut hroom hauto, hspread, fun hseed => ?_, fun seed hseed => ?_, ?_⟩
  · simp [base, hseed]
  · simp [base, hseed]
  · rw [firstOverlap?_eq_none_iff hs]
    · exact hspread.apart
    · exact fun r hr => (hroom.regions hspread.below hr).1
    · exact fun r hr => (hroom.regions hspread.below hr).2

/-- Programs of 3, 4 and 2 cells in a ring of 13 leave 4 cells free: one behind each, and one
more behind the last. The first goes past the end of the ring. -/
theorem place_spread_thirteen :
    place [3, 4, 2] { coreSize := 13, baseOffset := 24 } = .ok [11, 2, 7] ∧
    Spread 13 11 [3, 4, 2] [11, 2, 7] ∧
    (⟨7, 2⟩ : Region).Precedes 13 [⟨11, 3⟩, ⟨2, 4⟩, ⟨7, 2⟩] 2 ⟨11, 3⟩ := by
  have hroom : HasRoom [3, 4, 2] 13 := ⟨by decide, by simp, by decide⟩
  have hplace : place [3, 4, 2] { coreSize := 13, baseOffset := 24 } = .ok [11, 2, 7] := by decide
  obtain ⟨positions, hfound, hspread, -⟩ := @place_spread [3, 4, 2]
    { coreSize := 13, baseOffset := 24 } hroom (by decide) rfl
  obtain rfl : [11, 2, 7] = positions := by simpa [hplace] using hfound
  exact ⟨hplace, hspread, hspread.around _ _ rfl rfl⟩

end CoreWar
