/-
# Placement does not overflow

What an operation on words does when its result is no word is a matter of how
the program is built: it stops, or it goes on with the result wrapped around;
a division by zero stops it either way. `Arithmetic` is such a way of carrying
operations out, and the functions that place programs are told again here over
any of them, with every operation they make, in order. In a core of at most
`2 ^ 63` cells, and when the lengths add up to a word, no operation comes to
its limits, so every arithmetic that is right within them gives the places of
`place` (`Arithmetic.Exact.place`), and the two ways of building agree
(`place_in_range`).

Three bounds carry this. Positions are reduced before they are compared, so
`position + size` stays below twice the size. The lengths were added up
without an overflow and compared with the size, so the free cells are a word.
And a program is no longer than what is needed, its gap no longer than what is
free, so `origin + length + gap` stays below twice the size again
(`Arithmetic.Exact.layOut`).

Key definitions: `Arithmetic`, `Arithmetic.checked`, `Arithmetic.wrapping`,
`Arithmetic.place`, `Arithmetic.Exact`.
Key theorems: `Arithmetic.Exact.ahead`, `Arithmetic.Exact.firstOverlap?`,
`Arithmetic.Exact.layOut`, `Arithmetic.Exact.place`, `place_in_range`.
-/
import CoreWar.Proofs.Spacing

namespace CoreWar

open Placement

/-- A way of carrying out operations on words. An operation without a result stops the program. -/
structure Arithmetic where
  add : UInt64 → UInt64 → Option UInt64
  sub : UInt64 → UInt64 → Option UInt64
  div : UInt64 → UInt64 → Option UInt64
  mod : UInt64 → UInt64 → Option UInt64

namespace Arithmetic

/-- A result that is no word stops the program. -/
def checked : Arithmetic where
  add x y := if x.toNat + y.toNat < UInt64.size then some (x + y) else none
  sub x y := if y ≤ x then some (x - y) else none
  div x y := if y = 0 then none else some (x / y)
  mod x y := if y = 0 then none else some (x % y)

/-- A sum or a difference that is no word wraps around. -/
def wrapping : Arithmetic where
  add x y := some (x + y)
  sub x y := some (x - y)
  div x y := if y = 0 then none else some (x / y)
  mod x y := if y = 0 then none else some (x % y)

/-! ### Placement, operation by operation -/

variable (A : Arithmetic)

/-- How many cells lie from `a` forward to `b`. -/
def ahead (size : UInt64) (a b : Address) : Option UInt64 := do
  let round ← A.add b size
  let distance ← A.sub round a
  A.mod distance size

/-- Do two regions share a cell? Both distances are computed before they are looked at. -/
def overlap (size : UInt64) (p q : Region) : Option Bool := do
  let ahead ← A.ahead size p.origin q.origin
  let behind ← A.ahead size q.origin p.origin
  return ahead < p.length || behind < q.length

/-- The first pair of regions that share a cell. The number of the next region is computed too. -/
def firstOverlap? (size : UInt64) (regions : List Region) : Option (Option (Nat × Nat)) :=
  regions.zipIdx.findSomeM? fun (p, i) => do
    let next ← A.add (.ofNat i) 1
    (regions.zipIdx.drop next.toNat).findSomeM? fun (q, j) => do
      let meet ← A.overlap size p q
      return if meet then some (i, j) else none

/-- Programs laid out from `base`. The place behind the last one is computed too. -/
def layOut (size gap : UInt64) (base : Address) : List UInt64 → Option (List Address)
  | [] => some []
  | length :: lengths => do
    let origin ← A.mod base size
    let behind ← A.add origin length
    let next ← A.add behind gap
    let origins ← layOut size gap next lengths
    return origin :: origins

/-- Where the first program goes when no positions are chosen by hand. -/
def base (s : Settings) : Option Address :=
  match s.seed with
  | some seed => some (Generator.below s.coreSize patience (.ofSeed seed))
  | none => A.mod s.baseOffset s.coreSize

/-- Positions chosen by hand are reduced, and then compared in pairs. -/
def placeChosen (size : UInt64) (lengths : List UInt64) (chosen : List Address) :
    Option (Except PlacementError (List Address)) := do
  let positions ← chosen.mapM fun p => A.mod p size
  let found ← A.firstOverlap? size (positions.zipWith Region.mk lengths)
  return match found with
    | some (first, second) => .error (.overlap first second)
    | none => .ok positions

/-- Otherwise the cells that are not needed are shared out, and the programs laid out. -/
def placeInRow (lengths : List UInt64) (s : Settings) (needed : UInt64) : Option (List Address) := do
  let free ← A.sub s.coreSize needed
  let gap ← A.div free (.ofNat lengths.length)
  let base ← A.base s
  A.layOut s.coreSize gap base lengths

/-- A position for each program. -/
def place (lengths : List UInt64) (s : Settings) :
    Option (Except PlacementError (List Address)) :=
  if s.coreSize = 0 then some (.error .emptyCore)
  else if lengths.isEmpty then some (.error .noPrograms)
  else do
    let needed ← lengths.foldlM A.add 0
    if s.coreSize < needed then return .error (.tooLarge needed s.coreSize)
    else match s.startPositions with
      | some chosen =>
        if chosen.length ≠ lengths.length then
          return .error (.positionCount lengths.length chosen.length)
        else A.placeChosen s.coreSize lengths chosen
      | none => .ok <$> A.placeInRow lengths s needed

/-! ### Arithmetic that is right within its limits -/

/-- Operations whose result is a word have this result. -/
structure Exact : Prop where
  add : ∀ {x y : UInt64}, x.toNat + y.toNat < 2 ^ 64 → A.add x y = some (x + y)
  sub : ∀ {x y : UInt64}, y ≤ x → A.sub x y = some (x - y)
  div : ∀ {x y : UInt64}, y ≠ 0 → A.div x y = some (x / y)
  mod : ∀ {x y : UInt64}, y ≠ 0 → A.mod x y = some (x % y)

theorem exact_checked : checked.Exact where
  add h := if_pos h
  sub h := if_pos h
  div h := if_neg h
  mod h := if_neg h

theorem exact_wrapping : wrapping.Exact where
  add _ := rfl
  sub _ := rfl
  div h := if_neg h
  mod h := if_neg h

end Arithmetic

/-! ### Sums and lists -/

theorem toNat_add_of_lt {x y : UInt64} (h : x.toNat + y.toNat < 2 ^ 64) :
    (x + y).toNat = x.toNat + y.toNat := by
  rw [UInt64.toNat_add]
  exact Nat.mod_eq_of_lt h

section Lists

variable {α β : Type}

theorem mapM_of_forall {f : α → Option β} {g : α → β} : ∀ {xs : List α},
    (∀ x ∈ xs, f x = some (g x)) → xs.mapM f = some (xs.map g)
  | [], _ => rfl
  | x :: xs, h => by
    rw [List.mapM_cons, h x List.mem_cons_self,
      mapM_of_forall fun y hy => h y (List.mem_cons_of_mem _ hy)]
    rfl

theorem findSomeM?_of_forall {f : α → Option (Option β)} {g : α → Option β} :
    ∀ {xs : List α}, (∀ x ∈ xs, f x = some (g x)) → xs.findSomeM? f = some (xs.findSome? g)
  | [], _ => rfl
  | x :: xs, h => by
    have ih := findSomeM?_of_forall fun y hy => h y (List.mem_cons_of_mem x hy)
    rw [List.findSomeM?, h x List.mem_cons_self, List.findSome?_cons]
    cases g x with
    | none => exact ih
    | some y => rfl

end Lists

namespace Arithmetic.Exact

variable {A : Arithmetic} (h : A.Exact)

include h

theorem foldlM_add : ∀ {lengths : List UInt64} {n : UInt64},
    n.toNat + (lengths.map UInt64.toNat).sum < 2 ^ 64 →
      lengths.foldlM A.add n = some (lengths.foldl (· + ·) n)
  | [], n, _ => rfl
  | l :: lengths, n, hsum => by
    rw [List.map_cons, List.sum_cons] at hsum
    have hfirst : n.toNat + l.toNat < 2 ^ 64 := by omega
    have hadd := toNat_add_of_lt hfirst
    rw [List.foldlM_cons, h.add hfirst, Option.bind_eq_bind, Option.bind_some,
      foldlM_add (by omega), List.foldl_cons]

section Reduced

variable {size : UInt64} (hs : size.toNat ≤ 2 ^ 63)

include hs

/-- Between reduced positions, nothing is added beyond twice the size. -/
theorem ahead {a b : Address} (ha : a.toNat < size.toNat) (hb : b.toNat < size.toNat) :
    A.ahead size a b = some (Placement.ahead size a b) := by
  have hround : b.toNat + size.toNat < 2 ^ 64 := by omega
  have hle : a ≤ b + size := by
    rw [UInt64.le_iff_toNat_le, toNat_add_of_lt hround]
    omega
  have hne : size ≠ 0 := by
    rintro rfl
    exact absurd ha (Nat.not_lt_zero _)
  simp only [Arithmetic.ahead, h.add hround, h.sub hle, h.mod hne, Option.bind_eq_bind,
    Option.bind_some]
  rfl

theorem overlap {p q : Region} (hp : p.origin.toNat < size.toNat)
    (hq : q.origin.toNat < size.toNat) :
    A.overlap size p q = some (Placement.overlap size p q) := by
  simp only [Arithmetic.overlap, h.ahead hs hp hq, h.ahead hs hq hp, Option.bind_eq_bind,
    Option.bind_some]
  rfl

theorem firstOverlap? {regions : List Region} (hcount : regions.length < 2 ^ 64)
    (hlt : ∀ r ∈ regions, r.origin.toNat < size.toNat) :
    A.firstOverlap? size regions = some (Placement.firstOverlap? size regions) := by
  refine findSomeM?_of_forall fun (p, i) hpi => ?_
  have hp : regions[i]? = some p := List.mk_mem_zipIdx_iff_getElem?.mp hpi
  have hi : i < regions.length := (List.getElem?_eq_some_iff.mp hp).1
  have hword : (UInt64.ofNat i).toNat = i := UInt64.toNat_ofNat_of_lt' (Nat.lt_trans hi hcount)
  have hone : (1 : UInt64).toNat = 1 := rfl
  -- the number of the next region is at most the number of regions
  have hfit : (UInt64.ofNat i).toNat + (1 : UInt64).toNat < 2 ^ 64 := by omega
  have hnext : (UInt64.ofNat i + 1).toNat = i + 1 := by rw [toNat_add_of_lt hfit, hword, hone]
  simp only [h.add hfit, Option.bind_eq_bind, Option.bind_some, hnext]
  refine findSomeM?_of_forall fun (q, j) hqj => ?_
  have hq : regions[j]? = some q := List.mk_mem_zipIdx_iff_getElem?.mp (List.mem_of_mem_drop hqj)
  rw [h.overlap hs (hlt p (List.mem_of_getElem? hp)) (hlt q (List.mem_of_getElem? hq))]
  rfl

/-- In a row, no program reaches beyond twice the size with its gap. -/
theorem layOut (h0 : size ≠ 0) {gap : UInt64} : ∀ {lengths : List UInt64} (base : Address),
    (∀ l ∈ lengths, l.toNat + gap.toNat ≤ size.toNat) →
      A.layOut size gap base lengths = some (Placement.layOut size gap base lengths)
  | [], _, _ => rfl
  | l :: lengths, base, hfit => by
    have hl := hfit l List.mem_cons_self
    have horigin := mod_lt h0 base
    have hbehind : (base % size).toNat + l.toNat < 2 ^ 64 := by omega
    have hnext : (base % size + l).toNat + gap.toNat < 2 ^ 64 := by
      rw [toNat_add_of_lt hbehind]
      omega
    have ih := layOut h0 (base % size + l + gap) fun l' hl' => hfit l' (List.mem_cons_of_mem l hl')
    simp only [Arithmetic.layOut, h.mod h0, h.add hbehind, h.add hnext, ih, Option.bind_eq_bind,
      Option.bind_some]
    rfl

end Reduced

theorem base {s : Settings} (h0 : s.coreSize ≠ 0) : A.base s = some (Placement.base s) := by
  unfold Arithmetic.base Placement.base
  cases s.seed with
  | some seed => rfl
  | none => exact h.mod h0

theorem placeChosen {size : UInt64} (hs : size.toNat ≤ 2 ^ 63) (h0 : size ≠ 0)
    {lengths : List UInt64} (hcount : lengths.length < 2 ^ 64) (chosen : List Address) :
    A.placeChosen size lengths chosen =
      some (match Placement.firstOverlap? size
          ((chosen.map (· % size)).zipWith Region.mk lengths) with
        | some (first, second) => .error (.overlap first second)
        | none => .ok (chosen.map (· % size))) := by
  have hpositions : chosen.mapM (fun p => A.mod p size) = some (chosen.map (· % size)) :=
    mapM_of_forall fun p _ => h.mod h0
  have hfound : A.firstOverlap? size ((chosen.map (· % size)).zipWith Region.mk lengths) =
      some (Placement.firstOverlap? size ((chosen.map (· % size)).zipWith Region.mk lengths)) := by
    refine h.firstOverlap? hs ?_ fun r hr => ?_
    · rw [List.length_zipWith]
      omega
    · obtain ⟨i, hi⟩ := List.mem_iff_getElem?.mp hr
      obtain ⟨o, l, ho, -, rfl⟩ := List.getElem?_zipWith_eq_some.mp hi
      obtain ⟨p, -, rfl⟩ := List.mem_map.mp (List.mem_of_getElem? ho)
      exact mod_lt h0 p
  simp only [Arithmetic.placeChosen, hpositions, hfound, Option.bind_eq_bind, Option.bind_some]
  rfl

/-- What is needed and what is free make up the size, and a program with its gap takes no more
than all that is needed and all that is free. -/
theorem placeInRow {lengths : List UInt64} {s : Settings} (hne : lengths ≠ [])
    (hcount : lengths.length < 2 ^ 64) (hsum : (lengths.map UInt64.toNat).sum < 2 ^ 64)
    (hle : lengths.foldl (· + ·) 0 ≤ s.coreSize) (hs : s.coreSize.toNat ≤ 2 ^ 63)
    (h0 : s.coreSize ≠ 0) :
    A.placeInRow lengths s (lengths.foldl (· + ·) 0) = some (Placement.layOut s.coreSize
      ((s.coreSize - lengths.foldl (· + ·) 0) / UInt64.ofNat lengths.length)
      (Placement.base s) lengths) := by
  have hneeded := toNat_foldl_add_zero hsum
  have hroom : (lengths.map UInt64.toNat).sum ≤ s.coreSize.toNat :=
    hneeded ▸ UInt64.le_iff_toNat_le.mp hle
  have hsome : UInt64.ofNat lengths.length ≠ 0 := by
    intro hzero
    have hlength := congrArg UInt64.toNat hzero
    rw [UInt64.toNat_ofNat_of_lt' hcount] at hlength
    exact hne (List.length_eq_zero_iff.mp hlength)
  have hfit : ∀ l ∈ lengths, l.toNat +
      ((s.coreSize - lengths.foldl (· + ·) 0) / UInt64.ofNat lengths.length).toNat ≤
        s.coreSize.toNat := by
    intro l hl
    have hmember : l.toNat ≤ (lengths.map UInt64.toNat).sum :=
      List.le_sum_of_mem (List.mem_map_of_mem hl)
    have hshare := Nat.div_le_self (s.coreSize.toNat - (lengths.map UInt64.toNat).sum)
      lengths.length
    rw [toNat_gap hle hcount, hneeded]
    omega
  simp only [Arithmetic.placeInRow, h.sub hle, h.div hsome, h.base h0, Option.bind_eq_bind,
    Option.bind_some]
  exact h.layOut hs h0 _ hfit

/-- **Placement comes to no limit.** -/
theorem place {lengths : List UInt64} {s : Settings} (hcount : lengths.length < 2 ^ 64)
    (hsum : (lengths.map UInt64.toNat).sum < 2 ^ 64) (hs : s.coreSize.toNat ≤ 2 ^ 63) :
    A.place lengths s = some (CoreWar.place lengths s) := by
  unfold Arithmetic.place CoreWar.place
  simp only [h.foldlM_add (n := 0) (by simpa using hsum), Option.bind_eq_bind, Option.bind_some]
  split
  · rfl
  rename_i h0
  split
  · rfl
  rename_i hne
  split
  · rfl
  rename_i hroom
  cases s.startPositions with
  | some chosen =>
    simp only
    split
    · rfl
    · exact h.placeChosen hs h0 hcount chosen
  | none =>
    rw [h.placeInRow (by simpa using hne) hcount hsum (UInt64.not_lt.mp hroom) hs h0]
    rfl

end Arithmetic.Exact

/-- **Placement arithmetic stays inside a word.** With sums and differences that stop the program
when they are no words, and with such that wrap around, placement is not stopped and gives the
same places or the same error. (A list in memory has a length that is a word.) -/
theorem place_in_range {lengths : List UInt64} {s : Settings} (hcount : lengths.length < 2 ^ 64)
    (hsum : (lengths.map UInt64.toNat).sum < 2 ^ 64) (hs : s.coreSize.toNat ≤ 2 ^ 63) :
    Arithmetic.checked.place lengths s = some (place lengths s) ∧
      Arithmetic.wrapping.place lengths s = some (place lengths s) :=
  ⟨Arithmetic.exact_checked.place hcount hsum hs, Arithmetic.exact_wrapping.place hcount hsum hs⟩

/-- The largest core, with no cell free. In a row the place behind the first program comes to
`2 ^ 64 - 2`, and between chosen positions a distance is taken from `2 ^ 64 - 1`. -/
theorem place_in_range_brim :
    ([0x7fffffffffffffff, 1] : List UInt64).length < 2 ^ 64 ∧
    (([0x7fffffffffffffff, 1] : List UInt64).map UInt64.toNat).sum < 2 ^ 64 ∧
    (0x8000000000000000 : UInt64).toNat ≤ 2 ^ 63 ∧
    Arithmetic.checked.place [0x7fffffffffffffff, 1]
      { coreSize := 0x8000000000000000, baseOffset := 0xffffffffffffffff } =
        some (.ok [0x7fffffffffffffff, 0x7ffffffffffffffe]) ∧
    Arithmetic.checked.place [0x7fffffffffffffff, 1]
      { coreSize := 0x8000000000000000, startPositions := some [0, 0xffffffffffffffff] } =
        some (.ok [0, 0x7fffffffffffffff]) := by
  have hcount : ([0x7fffffffffffffff, 1] : List UInt64).length < 2 ^ 64 := by decide
  have hsum : (([0x7fffffffffffffff, 1] : List UInt64).map UInt64.toNat).sum < 2 ^ 64 := by decide
  have hs : (0x8000000000000000 : UInt64).toNat ≤ 2 ^ 63 := by decide
  have hrow : place [0x7fffffffffffffff, 1]
      { coreSize := 0x8000000000000000, baseOffset := 0xffffffffffffffff } =
        .ok [0x7fffffffffffffff, 0x7ffffffffffffffe] := by decide
  have hchosen : place [0x7fffffffffffffff, 1]
      { coreSize := 0x8000000000000000, startPositions := some [0, 0xffffffffffffffff] } =
        .ok [0, 0x7fffffffffffffff] := by decide
  exact ⟨hcount, hsum, hs, hrow ▸ (place_in_range hcount hsum hs).1,
    hchosen ▸ (place_in_range hcount hsum hs).1⟩

/-- In a core with one cell more the comparison of two positions is stopped. -/
example : Arithmetic.checked.place [1, 1]
    { coreSize := 0x8000000000000001, startPositions := some [0, 0x8000000000000000] } = none := by
  decide

end CoreWar
