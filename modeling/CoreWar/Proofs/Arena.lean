/-
# What loading gives

When loading succeeds there is a program and a cell, the core has the size
asked for, and there is one warrior for each program: its id is the position
of the program, and it has a single process, which starts inside the ring.
The start is the origin of the program, or the address of a label; labels are
addresses that the walk over the program passes, and these begin at the origin
and go on by `offset`.

Key definitions: `SymbolTable.LabelsBelow`.
Key theorems: `place_cases`, `place_lt`, `link_start_lt`, `plan_cases`,
`plan_ok`, `load_ok`.
-/
import Mathlib.Data.List.Forall2
import CoreWar.Loading
import CoreWar.Proofs.Stepping

namespace CoreWar

/-! ### Computations that can fail -/

section Results

variable {ε ε' α β : Type}

theorem bind_eq_ok {x : Except ε α} {f : α → Except ε β} {r : β} :
    x.bind f = .ok r ↔ ∃ a, x = .ok a ∧ f a = .ok r := by
  cases x <;> simp [Except.bind]

theorem map_eq_ok {x : Except ε α} {f : α → β} {r : β} :
    x.map f = .ok r ↔ ∃ a, x = .ok a ∧ f a = r := by
  cases x <;> simp [Except.map]

theorem mapError_eq_ok {x : Except ε α} {f : ε → ε'} {r : α} :
    x.mapError f = .ok r ↔ x = .ok r := by
  cases x <;> simp [Except.mapError]

/-- A computation goes through for a list when it does for each entry. -/
theorem mapM_eq_ok {f : α → Except ε β} : ∀ {xs : List α} {ys : List β},
    xs.mapM f = .ok ys ↔ List.Forall₂ (fun x y => f x = .ok y) xs ys
  | [], ys => by cases ys <;> simp [pure, Except.pure]
  | x :: xs, ys => by
    have ih := @mapM_eq_ok f xs
    rw [List.mapM_cons]
    cases hx : f x with
    | error e => simp [bind, Except.bind, List.forall₂_cons_left_iff, hx]
    | ok y =>
      cases hr : xs.mapM f with
      | error e => simp [bind, Except.bind, List.forall₂_cons_left_iff, ← ih, hr]
      | ok rest =>
        simp [bind, Except.bind, pure, Except.pure, List.forall₂_cons_left_iff, ← ih, hr, hx,
          eq_comm]

theorem exists_mem_of_mapM {f : α → Except ε β} {xs : List α} {ys : List β}
    (h : xs.mapM f = .ok ys) {y : β} (hy : y ∈ ys) : ∃ x ∈ xs, f x = .ok y := by
  induction mapM_eq_ok.mp h with
  | nil => simp at hy
  | @cons x z xs ys hx hr ih =>
    rcases List.mem_cons.mp hy with rfl | hy
    · exact ⟨x, List.mem_cons_self, hx⟩
    · obtain ⟨x', hx', he⟩ := ih (mapM_eq_ok.mpr hr) hy
      exact ⟨x', List.mem_cons_of_mem _ hx', he⟩

/-- Each entry and its result stand at the same position. -/
theorem getElem?_of_mapM {f : α → Except ε β} {xs : List α} {ys : List β}
    (h : xs.mapM f = .ok ys) {k : Nat} {x : α} (hx : xs[k]? = some x) :
    ∃ y, ys[k]? = some y ∧ f x = .ok y := by
  induction mapM_eq_ok.mp h generalizing k with
  | nil => simp at hx
  | @cons x' y' xs ys hf hr ih =>
    cases k with
    | zero =>
      obtain rfl : x' = x := by simpa using hx
      exact ⟨y', rfl, hf⟩
    | succ k => exact ih (mapM_eq_ok.mpr hr) hx

/-- What each step of a fold keeps, the fold keeps. -/
theorem foldlM_ok_induction {P : β → Prop} {f : β → α → Except ε β}
    (hf : ∀ s x t, P s → f s x = .ok t → P t) : ∀ {xs : List α} {s t : β},
    P s → xs.foldlM f s = .ok t → P t
  | [], s, t, hs, h => by
    simp only [List.foldlM_nil, pure, Except.pure, Except.ok.injEq] at h
    exact h ▸ hs
  | x :: xs, s, t, hs, h => by
    rw [List.foldlM_cons] at h
    obtain ⟨u, hu, hrest⟩ := bind_eq_ok.mp h
    exact foldlM_ok_induction hf (hf s x u hs hu) hrest

end Results

/-! ### Places -/

namespace Placement

theorem length_layOut (size gap : UInt64) : ∀ (lengths : List UInt64) (base : Address),
    (layOut size gap base lengths).length = lengths.length
  | [], _ => rfl
  | _ :: lengths, _ => by simp [layOut, length_layOut size gap lengths]

theorem mod_lt {size : UInt64} (hs : size ≠ 0) (a : Address) : (a % size).toNat < size.toNat := by
  rw [UInt64.toNat_mod]
  exact Nat.mod_lt _ (Nat.pos_of_ne_zero fun h => hs (UInt64.toNat_inj.mp h))

theorem layOut_lt {size : UInt64} (hs : size ≠ 0) (gap : UInt64) :
    ∀ (lengths : List UInt64) (base : Address),
      ∀ p ∈ layOut size gap base lengths, p.toNat < size.toNat
  | [], _, p, hp => by simp [layOut] at hp
  | _ :: lengths, base, p, hp => by
    rcases List.mem_cons.mp hp with rfl | hp
    · exact mod_lt hs base
    · exact layOut_lt hs gap lengths _ p hp

end Placement

open Placement in
/-- When places are found, the programs have room, and the places are chosen by hand
without an overlap or laid out in a row. -/
theorem place_cases {lengths : List UInt64} {s : Settings} {positions : List Address}
    (h : place lengths s = .ok positions) :
    s.coreSize ≠ 0 ∧ lengths ≠ [] ∧ lengths.foldl (· + ·) 0 ≤ s.coreSize ∧
      ((∃ chosen, s.startPositions = some chosen ∧ chosen.length = lengths.length ∧
          positions = chosen.map (· % s.coreSize) ∧
          firstOverlap? s.coreSize (positions.zipWith Region.mk lengths) = none) ∨
        (s.startPositions = none ∧ positions = layOut s.coreSize
          ((s.coreSize - lengths.foldl (· + ·) 0) / UInt64.ofNat lengths.length)
          (base s) lengths)) := by
  unfold place at h
  simp only at h
  split at h
  · cases h
  rename_i hsize
  split at h
  · cases h
  rename_i hne
  split at h
  · cases h
  rename_i hroom
  refine ⟨hsize, by simpa using hne, by simpa using hroom, ?_⟩
  split at h
  · rename_i chosen hchosen
    split at h
    · cases h
    rename_i hlen
    split at h
    · cases h
    rename_i hnone
    cases h
    exact .inl ⟨chosen, hchosen, by simpa using hlen, rfl, hnone⟩
  · rename_i hnone
    cases h
    exact .inr ⟨hnone, rfl⟩

/-- Every program gets a place in the ring. -/
theorem place_lt {lengths : List UInt64} {s : Settings} {positions : List Address}
    (h : place lengths s = .ok positions) :
    positions.length = lengths.length ∧ ∀ p ∈ positions, p.toNat < s.coreSize.toNat := by
  obtain ⟨hs, -, -, ⟨chosen, -, hl, rfl, -⟩ | ⟨-, rfl⟩⟩ := place_cases h
  · refine ⟨by simpa using hl, fun p hp => ?_⟩
    obtain ⟨a, -, rfl⟩ := List.mem_map.mp hp
    exact Placement.mod_lt hs a
  · exact ⟨Placement.length_layOut _ _ _ _, Placement.layOut_lt hs _ _ _⟩

/-! ### Labels and starts -/

/-- Every label is an address in a ring of `size` cells. -/
def SymbolTable.LabelsBelow (size : Nat) (t : SymbolTable) : Prop :=
  ∀ name a, (name, Binding.label a) ∈ t.bindings → a.toNat < size

namespace SymbolTable

theorem labelsBelow_empty (size : Nat) : empty.LabelsBelow size := by
  intro name a h
  simp [empty] at h

theorem LabelsBelow.define {size : Nat} {t u : SymbolTable} (ht : t.LabelsBelow size)
    {name : String} {b : Binding} (hb : ∀ a, b = .label a → a.toNat < size)
    (h : t.define name b = .ok u) : u.LabelsBelow size := by
  unfold SymbolTable.define at h
  split at h
  · cases h
  · cases h
    intro n a hm
    rcases List.mem_cons.mp hm with he | hm
    · exact hb a (Prod.mk.inj he).2.symm
    · exact ht n a hm

theorem LabelsBelow.label?_lt {size : Nat} {t : SymbolTable} (ht : t.LabelsBelow size)
    {name : String} {a : Address} (h : t.label? name = some a) : a.toNat < size := by
  unfold label? at h
  split at h
  · rename_i x hf
    cases h
    obtain ⟨before, behind, hb, -⟩ := List.lookup_eq_some_iff.mp hf
    exact ht name a (by simp [hb])
  · cases h

end SymbolTable

theorem atStatement_eq_ok {α : Type} {index : Nat} {r : Except SymbolError α} {a : α} :
    atStatement index r = .ok a ↔ r = .ok a := mapError_eq_ok

theorem bindLabel_labelsBelow {size index : Nat} {here : Address} {t u : SymbolTable}
    (ht : t.LabelsBelow size) (hh : here.toNat < size) :
    ∀ {label : Option String}, bindLabel t index here label = .ok u → u.LabelsBelow size
  | none, h => by
    cases h
    exact ht
  | some name, h =>
    ht.define (fun a ha => by cases ha; exact hh) (atStatement_eq_ok.mp h)

/-- The walk over a program passes addresses in the ring only. -/
theorem outline_labelsBelow {size : Nat} (hs : 0 < size) (hs' : size < 2 ^ 64) :
    ∀ (program : Program) {index : Nat} {here : Address} {t : SymbolTable} {o : Outline},
      here.toNat < size → t.LabelsBelow size → outline size index here t program = .ok o →
      o.labels.LabelsBelow size
  | [], _, _, _, _, _, ht, h => by
    cases h
    exact ht
  | s :: rest, index, here, t, o, hh, ht, h => by
    unfold outline at h
    split at h
    · obtain ⟨u, hu, h⟩ := bind_eq_ok.mp h
      obtain ⟨r, hr, rfl⟩ := map_eq_ok.mp h
      have hu' := bindLabel_labelsBelow ht hh hu
      have hr' := outline_labelsBelow hs hs' rest (offset_lt hs hs' here 1) hu' hr
      exact hr'
    · split at h
      · cases h
      · obtain ⟨r, hr, rfl⟩ := map_eq_ok.mp h
        have hr' := outline_labelsBelow hs hs' rest hh ht hr
        exact hr'
    · cases h
      exact ht

theorem Definition.bind_labelsBelow {size : Nat} {t u : SymbolTable} {d : Definition}
    (ht : t.LabelsBelow size) (h : d.bind t = .ok u) : u.LabelsBelow size := by
  obtain ⟨v, -, hd⟩ := bind_eq_ok.mp h
  exact ht.define (fun a ha => by cases ha) (atStatement_eq_ok.mp hd)

/-- A program that lies in the ring starts in the ring. -/
theorem link_start_lt {size : Nat} (hs : 0 < size) (hs' : size < 2 ^ 64) {program : Program}
    {origin : Address} {image : Image} (ho : origin.toNat < size)
    (h : link size program origin = .ok image) : image.start.toNat < size := by
  obtain ⟨o, hout, h⟩ := bind_eq_ok.mp h
  obtain ⟨t, hfold, h⟩ := bind_eq_ok.mp h
  obtain ⟨cells, -, rfl⟩ := map_eq_ok.mp h
  have h0 := outline_labelsBelow hs hs' program ho (SymbolTable.labelsBelow_empty size) hout
  have ht : t.LabelsBelow size := foldlM_ok_induction
    (fun s d u hs hu => Definition.bind_labelsBelow hs hu) h0 hfold
  show ((o.entry.bind t.label?).getD origin).toNat < size
  cases hf : o.entry.bind t.label? with
  | none => exact ho
  | some a =>
    obtain ⟨name, -, hl⟩ := Option.bind_eq_some_iff.mp hf
    exact ht.label?_lt hl

/-! ### The arena -/

/-- A plan is made when there are programs and cells, every program has an instruction and
places are found. -/
theorem plan_cases {programs : List Program} {s : Settings} {jobs : List Job}
    (h : plan programs s = .ok jobs) :
    programs ≠ [] ∧ 0 < s.coreSize.toNat ∧ (∀ p ∈ programs, 0 < p.footprint) ∧
      ∃ positions, place (programs.map fun p => UInt64.ofNat p.footprint) s = .ok positions ∧
        jobs = (programs.zip positions).zipIdx.map fun ((p, origin), i) => ⟨i, p, origin⟩ := by
  unfold plan at h
  split at h
  · cases h
  rename_i hp
  split at h
  · cases h
  rename_i hs
  split at h
  · cases h
  rename_i hfound
  split at h
  · cases h
  rename_i positions hplace
  cases h
  refine ⟨by simpa using hp, Nat.pos_of_ne_zero fun h0 => hs (UInt64.toNat_inj.mp h0),
    fun p hmem => ?_, positions, hplace, rfl⟩
  have hne := List.findIdx?_eq_none_iff.mp hfound p hmem
  exact Nat.pos_of_ne_zero (by simpa using hne)

/-- The jobs of a plan are the programs in order, each with a place in the ring. -/
theorem plan_ok {programs : List Program} {s : Settings} {jobs : List Job}
    (h : plan programs s = .ok jobs) :
    programs ≠ [] ∧ 0 < s.coreSize.toNat ∧ jobs.length = programs.length ∧
      ∀ j ∈ jobs, j.origin.toNat < s.coreSize.toNat := by
  obtain ⟨hp, hs, -, positions, hplace, rfl⟩ := plan_cases h
  obtain ⟨hl, hlt⟩ := place_lt hplace
  refine ⟨hp, hs, by simp [hl], fun j hj => ?_⟩
  obtain ⟨⟨⟨p, origin⟩, i⟩, hm, rfl⟩ := List.mem_map.mp hj
  exact hlt _ (List.of_mem_zip (List.fst_mem_of_mem_zipIdx hm)).2

@[simp] theorem Core.size_install (core : Core) (image : Image) :
    (core.install image).size = core.size := by
  unfold install
  induction image.cells generalizing core with
  | nil => rfl
  | cons cell cells ih => rw [List.foldl_cons, ih, size_write]

theorem Core.size_installAll (images : List Image) (core : Core) :
    (images.foldl .install core).size = core.size := by
  induction images generalizing core with
  | nil => rfl
  | cons image images ih => rw [List.foldl_cons, ih, size_install]

/-- What is loaded: as many cells as asked for, and for each program a warrior with
one process in the ring. -/
theorem load_ok {programs : List Program} {s : Settings} {arena : Arena}
    (h : load programs s = .ok arena) :
    programs ≠ [] ∧ 0 < s.coreSize.toNat ∧ arena.core.size = s.coreSize.toNat ∧
      ∃ starts : List Address, starts.length = programs.length ∧
        (∀ a ∈ starts, a.toNat < s.coreSize.toNat) ∧
        arena.warriors = starts.zipIdx.map fun (a, i) => .start (UInt64.ofNat i) a := by
  obtain ⟨jobs, hplan, h⟩ := bind_eq_ok.mp h
  obtain ⟨images, himages, rfl⟩ := map_eq_ok.mp h
  obtain ⟨hp, hs, hl, horigin⟩ := plan_ok hplan
  refine ⟨hp, hs, ?_, images.map Image.start, ?_, ?_, ?_⟩
  · rw [Core.size_installAll]
    simp [Core.blank, Core.size]
  · rw [List.length_map, ← (mapM_eq_ok.mp himages).length_eq, hl]
  · intro a ha
    obtain ⟨image, hi, rfl⟩ := List.mem_map.mp ha
    obtain ⟨j, hj, hlink⟩ := exists_mem_of_mapM himages hi
    exact link_start_lt hs s.coreSize.toNat_lt (horigin j hj) (mapError_eq_ok.mp hlink)
  · simp [List.zipIdx_map, Function.comp_def]

end CoreWar
