/-
# The first overlap

The overlap test does not look at cells: it asks how many cells lie ahead
from one origin to the other and compares that with a length, once in each
direction. When no region is empty this is the same as sharing a cell
(`Placement.overlap_iff`): if one region begins inside the other, its first
cell is shared, and if they share a cell, one of them begins inside the
other. It holds for regions that go past the end of the ring, for a region
inside another and for equal origins alike.

The search goes through the pairs of regions row by row, so what it finds is
the first pair in this order (`Placement.firstMeeting_of_firstOverlap?`).
Hence places chosen by hand are taken exactly when no two programs would
share a cell, and otherwise the first pair that would is named
(`place_chosen`).

Key definitions: `Placement.Meet`, `Placement.FirstMeeting`.
Key theorems: `Placement.overlap_iff`, `Placement.firstOverlap?_eq_none_iff`,
`Placement.firstMeeting_of_firstOverlap?`, `firstOverlap?_chosen`,
`place_chosen`.
-/
import CoreWar.Proofs.Regions

namespace CoreWar

namespace Placement

/-! ### Two regions -/

/-- A region that is not empty covers its own origin. -/
theorem Region.covers_self {size : Nat} {r : Region} (hr : r.origin.toNat < size)
    (hpos : 0 < r.length.toNat) : r.Covers size r.origin.toNat :=
  ⟨0, hpos, (Nat.mod_eq_of_lt hr).symm⟩

/-- A region covers an origin that lies fewer cells ahead than the region is long. -/
theorem Region.covers_of_ahead_lt {size : UInt64} (hs : size.toNat ≤ 2 ^ 63) {r : Region}
    {a : Address} (hr : r.origin.toNat < size.toNat) (ha : a.toNat < size.toNat)
    (h : ahead size r.origin a < r.length) : r.Covers size.toNat a.toNat := by
  refine ⟨(ahead size r.origin a).toNat, UInt64.lt_iff_toNat_lt.mp h, ?_⟩
  rw [toNat_ahead hs hr ha, Nat.add_mod_mod]
  have hround : r.origin.toNat + (a.toNat + size.toNat - r.origin.toNat) =
      a.toNat + size.toNat := by omega
  rw [hround, Nat.add_mod_right, Nat.mod_eq_of_lt ha]

/-- **The test finds an overlap when there is a cell in common.** -/
theorem overlap_iff {size : UInt64} (hs : size.toNat ≤ 2 ^ 63) {p q : Region}
    (hp : p.origin.toNat < size.toNat) (hq : q.origin.toNat < size.toNat)
    (hlp : 0 < p.length.toNat) (hlq : 0 < q.length.toNat) :
    overlap size p q = true ↔ ∃ x, p.Covers size.toNat x ∧ q.Covers size.toNat x := by
  constructor
  · intro h
    have hcases : ahead size p.origin q.origin < p.length ∨
        ahead size q.origin p.origin < q.length := by simpa [overlap] using h
    rcases hcases with hahead | hbehind
    · -- `q` begins inside `p`
      have hcovers := Region.covers_of_ahead_lt hs hp hq hahead
      exact ⟨q.origin.toNat, hcovers, Region.covers_self hq hlq⟩
    · have hcovers := Region.covers_of_ahead_lt hs hq hp hbehind
      exact ⟨p.origin.toNat, Region.covers_self hp hlp, hcovers⟩
  · rintro ⟨x, hpx, hqx⟩
    by_contra h
    have hapart := Region.apart_of_overlap hs hp hq (Bool.eq_false_iff.mpr h)
    exact hapart x hpx hqx

/-! ### All pairs of regions -/

/-- Regions number `i` and `j` have a cell in common. -/
def Meet (size : Nat) (regions : List Region) (i j : Nat) : Prop :=
  ∃ p q, regions[i]? = some p ∧ regions[j]? = some q ∧ ∃ x, p.Covers size x ∧ q.Covers size x

/-- Of all pairs of regions that have a cell in common, `(i, j)` is the first: no other has a
smaller first number, or the same one and a smaller second number. -/
structure FirstMeeting (size : Nat) (regions : List Region) (i j : Nat) : Prop where
  lt : i < j
  meet : Meet size regions i j
  first : ∀ i' j', i' < j' → Meet size regions i' j' → i < i' ∨ i = i' ∧ j ≤ j'

theorem pairwise_apart_iff {size : Nat} {regions : List Region} :
    regions.Pairwise (Region.Apart size) ↔ ∀ i j, i < j → ¬ Meet size regions i j := by
  rw [List.pairwise_iff_getElem]
  constructor
  · rintro h i j hij ⟨p, q, hp, hq, x, hpx, hqx⟩
    obtain ⟨hi, rfl⟩ := List.getElem?_eq_some_iff.mp hp
    obtain ⟨hj, rfl⟩ := List.getElem?_eq_some_iff.mp hq
    exact h i j hi hj hij x hpx hqx
  · intro h i j hi hj hij x hpx hqx
    exact h i j hij
      ⟨_, _, List.getElem?_eq_getElem hi, List.getElem?_eq_getElem hj, x, hpx, hqx⟩

/-- What a search finds stands behind entries that are passed over. -/
theorem exists_of_findSome? {α β : Type} {f : α → Option β} {xs : List α} {y : β}
    (h : xs.findSome? f = some y) : ∃ (k : Nat) (x : α), xs[k]? = some x ∧ f x = some y ∧
      ∀ m < k, ∀ x', xs[m]? = some x' → f x' = none := by
  obtain ⟨before, x, behind, rfl, hx, hbefore⟩ := List.findSome?_eq_some_iff.mp h
  refine ⟨before.length, x, by simp, hx, fun m hm x' hx' => hbefore x' ?_⟩
  rw [List.getElem?_append_left hm] at hx'
  exact List.mem_of_getElem? hx'

/-- What a row finds is the first region behind number `i` that fails the test. -/
theorem row_eq_some {size : UInt64} {regions : List Region} {p : Region} {i a b : Nat}
    (h : row size regions p i = some (a, b)) :
    a = i ∧ i < b ∧ (∃ q, regions[b]? = some q ∧ overlap size p q = true) ∧
      ∀ j q, i < j → j < b → regions[j]? = some q → overlap size p q = false := by
  obtain ⟨k, ⟨q, n⟩, hk, htest, hbefore⟩ := exists_of_findSome? h
  rw [getElem?_drop_zipIdx, Option.map_eq_some_iff] at hk
  obtain ⟨q', hq, he⟩ := hk
  obtain ⟨rfl, rfl⟩ := Prod.mk.inj he
  have hfound : overlap size p q' = true ∧ i = a ∧ i + 1 + k = b := by simpa using htest
  obtain ⟨hoverlap, rfl, rfl⟩ := hfound
  refine ⟨rfl, by omega, ⟨q', hq, hoverlap⟩, fun j q hij hjb hj => ?_⟩
  have hpassed := hbefore (j - (i + 1)) (by omega) (q, j) (by
    rw [getElem?_drop_zipIdx, Nat.add_sub_cancel' hij, hj]
    rfl)
  simpa using hpassed

section Search

variable {size : UInt64} {regions : List Region} (hs : size.toNat ≤ 2 ^ 63)
  (hlt : ∀ r ∈ regions, r.origin.toNat < size.toNat) (hpos : ∀ r ∈ regions, 0 < r.length.toNat)

include hs hlt hpos

theorem overlap_iff_of_getElem? {i j : Nat} {p q : Region} (hp : regions[i]? = some p)
    (hq : regions[j]? = some q) :
    overlap size p q = true ↔ ∃ x, p.Covers size.toNat x ∧ q.Covers size.toNat x := by
  have hpm := List.mem_of_getElem? hp
  have hqm := List.mem_of_getElem? hq
  exact overlap_iff hs (hlt p hpm) (hlt q hqm) (hpos p hpm) (hpos q hqm)

/-- **The search finds the first pair that meets.** -/
theorem firstMeeting_of_firstOverlap? {i j : Nat} (h : firstOverlap? size regions = some (i, j)) :
    FirstMeeting size.toNat regions i j := by
  rw [firstOverlap?_eq_findSome?] at h
  obtain ⟨k, ⟨p, n⟩, hk, hrow, hbefore⟩ := exists_of_findSome? h
  rw [List.getElem?_zipIdx, Option.map_eq_some_iff] at hk
  obtain ⟨p', hp, he⟩ := hk
  obtain ⟨rfl, rfl⟩ := Prod.mk.inj he
  rw [Nat.zero_add] at hrow
  obtain ⟨rfl, hij, ⟨q, hq, hoverlap⟩, hpassed⟩ := row_eq_some hrow
  have hmeet := (overlap_iff_of_getElem? hs hlt hpos hp hq).mp hoverlap
  refine ⟨hij, ⟨p', q, hp, hq, hmeet⟩, ?_⟩
  rintro i' j' hij' ⟨r, t, hr, ht, hshare⟩
  have htest := (overlap_iff_of_getElem? hs hlt hpos hr ht).mpr hshare
  rcases Nat.lt_trichotomy i' i with hless | rfl | hmore
  · -- an earlier row would have found something
    have hnone := hbefore i' hless (r, i') (by
      rw [List.getElem?_zipIdx, hr, Nat.zero_add]
      rfl)
    have hclear := overlap_of_row_eq_none hnone hij' ht
    rw [htest] at hclear
    cases hclear
  · -- an earlier entry of the same row would have been found
    refine .inr ⟨rfl, Nat.le_of_not_lt fun hj' => ?_⟩
    obtain rfl : p' = r := Option.some.inj (hp.symm.trans hr)
    have hclear := hpassed j' t hij' hj' ht
    rw [htest] at hclear
    cases hclear
  · exact .inl hmore

/-- Nothing is found when no two regions meet. -/
theorem firstOverlap?_eq_none_iff :
    firstOverlap? size regions = none ↔ regions.Pairwise (Region.Apart size.toNat) := by
  constructor
  · intro h
    refine (firstOverlap?_eq_none h).imp_of_mem fun {p q} hp hq hpq => ?_
    exact Region.apart_of_overlap hs (hlt p hp) (hlt q hq) hpq
  · intro h
    cases hfound : firstOverlap? size regions with
    | none => rfl
    | some pair =>
      have hfirst := firstMeeting_of_firstOverlap? hs hlt hpos hfound
      exact absurd hfirst.meet (pairwise_apart_iff.mp h _ _ hfirst.lt)

end Search

/-- The region with its origin reduced to the ring. -/
def Region.reduce (size : UInt64) (r : Region) : Region := ⟨r.origin % size, r.length⟩

/-- Reducing the origin changes no cell. -/
theorem Region.covers_reduce {size : UInt64} {r : Region} {x : Nat} :
    (r.reduce size).Covers size.toNat x ↔ r.Covers size.toNat x := by
  simp only [Region.Covers, Region.reduce, UInt64.toNat_mod, Nat.mod_add_mod]

theorem meet_map_reduce {size : UInt64} {regions : List Region} {i j : Nat} :
    Meet size.toNat (regions.map (Region.reduce size)) i j ↔ Meet size.toNat regions i j := by
  unfold Meet
  constructor
  · rintro ⟨p, q, hp, hq, x, hpx, hqx⟩
    rw [List.getElem?_map, Option.map_eq_some_iff] at hp hq
    obtain ⟨p', hp, rfl⟩ := hp
    obtain ⟨q', hq, rfl⟩ := hq
    exact ⟨p', q', hp, hq, x, Region.covers_reduce.mp hpx, Region.covers_reduce.mp hqx⟩
  · rintro ⟨p, q, hp, hq, x, hpx, hqx⟩
    refine ⟨p.reduce size, q.reduce size, by simp [hp], by simp [hq], x, ?_, ?_⟩
    · exact Region.covers_reduce.mpr hpx
    · exact Region.covers_reduce.mpr hqx

theorem zipWith_reduce (size : UInt64) (chosen : List Address) (lengths : List UInt64) :
    (chosen.map (· % size)).zipWith Region.mk lengths =
      (chosen.zipWith Region.mk lengths).map (Region.reduce size) := by
  rw [List.zipWith_map_left, List.map_zipWith]
  rfl

end Placement

/-! ### Places chosen by hand -/

open Placement

/-- The programs have room: there is one, none is empty, and together they are no longer than
the ring. -/
structure HasRoom (lengths : List UInt64) (size : UInt64) : Prop where
  nonempty : lengths ≠ []
  pos : ∀ l ∈ lengths, 0 < l.toNat
  sum_le : (lengths.map UInt64.toNat).sum ≤ size.toNat

namespace HasRoom

variable {lengths : List UInt64} {size : UInt64} (h : HasRoom lengths size)

include h

theorem length_le : lengths.length ≤ (lengths.map UInt64.toNat).sum := length_le_sum_map h.pos

theorem length_pos : 0 < lengths.length := List.length_pos_of_ne_nil h.nonempty

theorem size_pos : 0 < size.toNat := by
  have h1 := h.length_pos
  have h2 := h.length_le
  have h3 := h.sum_le
  omega

/-- The lengths add up without an overflow. -/
theorem toNat_needed : (lengths.foldl (· + ·) 0).toNat = (lengths.map UInt64.toNat).sum :=
  toNat_foldl_add_zero (Nat.lt_of_le_of_lt h.sum_le size.toNat_lt)

theorem needed_le : lengths.foldl (· + ·) 0 ≤ size := by
  rw [UInt64.le_iff_toNat_le, h.toNat_needed]
  exact h.sum_le

/-! Placement goes past its first three checks. -/

theorem size_ne_zero : size ≠ 0 := by
  intro h0
  have hpos := h.size_pos
  simp [h0] at hpos

theorem not_isEmpty : ¬ lengths.isEmpty = true := by
  simpa using h.nonempty

theorem not_tooLarge : ¬ size < lengths.foldl (· + ·) 0 := UInt64.not_lt.mpr h.needed_le

end HasRoom

section Room

variable {lengths : List UInt64} {s : Settings} (hroom : HasRoom lengths s.coreSize)

include hroom

theorem place_eq_layOut (hauto : s.startPositions = none) :
    place lengths s = .ok (layOut s.coreSize
      ((s.coreSize - lengths.foldl (· + ·) 0) / UInt64.ofNat lengths.length) (base s) lengths) := by
  unfold place
  simp only [if_neg hroom.size_ne_zero, if_neg hroom.not_isEmpty, if_neg hroom.not_tooLarge, hauto]

section Chosen

variable {chosen : List Address} (hchosen : s.startPositions = some chosen)
  (hlen : chosen.length = lengths.length)

include hchosen hlen

theorem place_eq_chosen (h : firstOverlap? s.coreSize
    ((chosen.map (· % s.coreSize)).zipWith Region.mk lengths) = none) :
    place lengths s = .ok (chosen.map (· % s.coreSize)) := by
  unfold place
  simp only [if_neg hroom.size_ne_zero, if_neg hroom.not_isEmpty, if_neg hroom.not_tooLarge,
    hchosen, if_neg (not_not.mpr hlen), h]

theorem place_eq_overlap {first second : Nat} (h : firstOverlap? s.coreSize
    ((chosen.map (· % s.coreSize)).zipWith Region.mk lengths) = some (first, second)) :
    place lengths s = .error (.overlap first second) := by
  unfold place
  simp only [if_neg hroom.size_ne_zero, if_neg hroom.not_isEmpty, if_neg hroom.not_tooLarge,
    hchosen, if_neg (not_not.mpr hlen), h]

end Chosen

end Room

/-- The regions of programs with room, at places in the ring, are in the ring and not empty. -/
theorem HasRoom.regions {lengths : List UInt64} {size : UInt64} (h : HasRoom lengths size)
    {positions : List Address} (hlt : ∀ p ∈ positions, p.toNat < size.toNat) {r : Region}
    (hr : r ∈ positions.zipWith Region.mk lengths) :
    r.origin.toNat < size.toNat ∧ 0 < r.length.toNat := by
  obtain ⟨i, hi⟩ := List.mem_iff_getElem?.mp hr
  obtain ⟨p, l, hp, hl, rfl⟩ := List.getElem?_zipWith_eq_some.mp hi
  exact ⟨hlt p (List.mem_of_getElem? hp), h.pos l (List.mem_of_getElem? hl)⟩

/-- The search for an overlap, seen from the positions as they were chosen. -/
theorem firstOverlap?_chosen {lengths : List UInt64} {size : UInt64} (hroom : HasRoom lengths size)
    (hs : size.toNat ≤ 2 ^ 63) {chosen : List Address} {found : Option (Nat × Nat)}
    (h : firstOverlap? size ((chosen.map (· % size)).zipWith Region.mk lengths) = found) :
    match found with
    | none => ∀ i j, i < j → ¬ Meet size.toNat (chosen.zipWith Region.mk lengths) i j
    | some (i, j) => FirstMeeting size.toNat (chosen.zipWith Region.mk lengths) i j := by
  have hmod : ∀ p ∈ chosen.map (· % size), p.toNat < size.toNat := by
    intro p hp
    obtain ⟨a, -, rfl⟩ := List.mem_map.mp hp
    exact mod_lt hroom.size_ne_zero a
  have hlt := fun r hr => (hroom.regions hmod (r := r) hr).1
  have hpos := fun r hr => (hroom.regions hmod (r := r) hr).2
  -- the programs meet at the chosen places when they do at the reduced ones
  have hmeet (i j : Nat) : Meet size.toNat ((chosen.map (· % size)).zipWith Region.mk lengths) i j ↔
      Meet size.toNat (chosen.zipWith Region.mk lengths) i j := by
    rw [zipWith_reduce, meet_map_reduce]
  cases found with
  | none =>
    have hapart := pairwise_apart_iff.mp ((firstOverlap?_eq_none_iff hs hlt hpos).mp h)
    exact fun i j hij hm => hapart i j hij ((hmeet i j).mpr hm)
  | some pair =>
    have hfirst := firstMeeting_of_firstOverlap? hs hlt hpos h
    exact ⟨hfirst.lt, (hmeet _ _).mp hfirst.meet,
      fun i j hij hm => hfirst.first i j hij ((hmeet i j).mpr hm)⟩

/-- **Places chosen by hand are taken exactly when no two programs share a cell.** Otherwise the
first pair of programs that do is named. -/
theorem place_chosen {lengths : List UInt64} {s : Settings} {chosen : List Address}
    (hroom : HasRoom lengths s.coreSize) (hs : s.coreSize.toNat ≤ 2 ^ 63)
    (hchosen : s.startPositions = some chosen) (hlen : chosen.length = lengths.length) :
    (place lengths s = .ok (chosen.map (· % s.coreSize)) ↔
      (chosen.zipWith Region.mk lengths).Pairwise (Region.Apart s.coreSize.toNat)) ∧
    (¬ (chosen.zipWith Region.mk lengths).Pairwise (Region.Apart s.coreSize.toNat) →
      ∃ first second, place lengths s = .error (.overlap first second) ∧
        FirstMeeting s.coreSize.toNat (chosen.zipWith Region.mk lengths) first second) := by
  rw [pairwise_apart_iff]
  cases hfound : firstOverlap? s.coreSize
      ((chosen.map (· % s.coreSize)).zipWith Region.mk lengths) with
  | none =>
    have hplace := place_eq_chosen hroom hchosen hlen hfound
    have hapart := firstOverlap?_chosen hroom hs hfound
    exact ⟨iff_of_true hplace hapart, fun h => absurd hapart h⟩
  | some pair =>
    have hplace := place_eq_overlap hroom hchosen hlen hfound
    have hfirst := firstOverlap?_chosen hroom hs hfound
    refine ⟨iff_of_false ?_ ?_, fun _ => ⟨pair.1, pair.2, hplace, hfirst⟩⟩
    · rw [hplace]
      exact nofun
    · intro hapart
      exact hapart pair.1 pair.2 hfirst.lt hfirst.meet

/-- Programs of 3, 4 and 2 cells in a ring of 10. The first goes past the end of the ring; the
last has a place of its own at 5, but at 9 it meets the first. -/
theorem place_chosen_wrapping :
    place [3, 4, 2] { coreSize := 10, startPositions := some [18, 1, 5] } = .ok [8, 1, 5] ∧
    ([18, 1, 5].zipWith Region.mk [3, 4, 2]).Pairwise (Region.Apart 10) ∧
    place [3, 4, 2] { coreSize := 10, startPositions := some [18, 1, 9] } =
      .error (.overlap 0 2) ∧
    FirstMeeting 10 ([18, 1, 9].zipWith Region.mk [3, 4, 2]) 0 2 := by
  have hroom : HasRoom [3, 4, 2] 10 := ⟨by decide, by simp, by decide⟩
  have haccepted : place [3, 4, 2] { coreSize := 10, startPositions := some [18, 1, 5] } =
    .ok [8, 1, 5] := by decide
  have hrefused : place [3, 4, 2] { coreSize := 10, startPositions := some [18, 1, 9] } =
    .error (.overlap 0 2) := by decide
  obtain ⟨htaken, -⟩ := @place_chosen [3, 4, 2]
    { coreSize := 10, startPositions := some [18, 1, 5] } _ hroom (by decide) rfl rfl
  obtain ⟨htaken', hnamed⟩ := @place_chosen [3, 4, 2]
    { coreSize := 10, startPositions := some [18, 1, 9] } _ hroom (by decide) rfl rfl
  refine ⟨haccepted, htaken.mp haccepted, hrefused, ?_⟩
  obtain ⟨first, second, hplace, hfirst⟩ := hnamed fun hapart => by
    have hplace := htaken'.mpr hapart
    rw [hrefused] at hplace
    cases hplace
  obtain ⟨rfl, rfl⟩ : 0 = first ∧ 2 = second := by simpa [hrefused] using hplace
  exact hfirst

end CoreWar
