/-
# Loading reports the first error

Loading makes its checks in a fixed order: there are programs, the core has
a cell, every program has an instruction, the programs have room, there is a
position for each, no two of them meet, and last, program by program, no
statement is at fault. A check is named by what it looks at (`Check`). Checks
of one kind are made in the order of their numbers, compared like words in a
dictionary (`Check.Before`). What makes a check fail, with the error that then
names the warrior, the statement and the name at fault, is said without the
loader (`Objection`).

Loading fails when some check has an objection, and then with the objection
of the first that has one (`load_first_error`). The stages are those of the
loader: `passed_of_plan` and `first_of_plan` for all that comes before
linking, `not_objection_of_load` and `first_of_load` for the whole.

Key definitions: `Check`, `Check.Before`, `Objection`, `Passed`.
Key theorems: `place_eq_error`, `first_of_plan`, `not_objection_of_load`,
`first_of_load`, `load_first_error`.
-/
import Mathlib.Data.List.Lex
import CoreWar.Proofs.LinkFaults
import CoreWar.Proofs.LoadedCells
import CoreWar.Proofs.Overlaps

namespace CoreWar

open Placement

/-! ### The checks and their order -/

/-- What is looked at before programs are loaded. -/
inductive Check
  /-- There is a program. -/
  | programs
  /-- The core has a cell. -/
  | cells
  /-- Program number `i` has an instruction. -/
  | instruction (i : Nat)
  /-- The programs have room. -/
  | room
  /-- There are as many chosen positions as programs. -/
  | count
  /-- Programs number `i` and `j` do not meet at their chosen positions. -/
  | pair (i j : Nat)
  /-- The statement at position `k` of program number `i` is in order, as far as the phase goes. -/
  | statement (i : Nat) (phase : Phase) (k : Nat)

namespace Check

/-- The kind of a check. -/
def stage : Check → Nat
  | programs => 0
  | cells => 1
  | instruction _ => 2
  | room => 3
  | count => 4
  | pair _ _ => 5
  | statement _ _ _ => 6

/-- The place of a check among those of its kind. -/
def detail : Check → List Nat
  | instruction i => [i]
  | pair i j => [i, j]
  | statement i phase k => [i, phase.number, k]
  | programs | cells | room | count => []

/-- One check is made before the other: it is of a kind that comes first, or of the same kind
and first in the order of the dictionary. -/
def Before (c d : Check) : Prop :=
  c.stage < d.stage ∨ c.stage = d.stage ∧ List.Lex (· < ·) c.detail d.detail

theorem eq_of_detail {c d : Check} (hs : c.stage = d.stage) (hd : c.detail = d.detail) : c = d := by
  cases c <;> cases d <;> simp_all [stage, detail]
  exact Phase.number_inj hd.2.1

/-- Statements are looked at program by program, and in a program phase by phase. -/
theorem lex_statement {i i' k k' : Nat} {phase phase' : Phase}
    (h : List.Lex (· < ·) (detail (statement i' phase' k')) (detail (statement i phase k))) :
    i' < i ∨ i' = i ∧ Phase.Before (phase', k') (phase, k) := by
  have hlex : i' < i ∨ i' = i ∧
      (phase'.number < phase.number ∨ phase'.number = phase.number ∧ k' < k) := by
    simpa [detail, List.cons_lt_cons_iff] using h
  rcases hlex with hi | ⟨hi, hphase | ⟨hphase, hk⟩⟩
  · exact .inl hi
  · exact .inr ⟨hi, .inl hphase⟩
  · exact .inr ⟨hi, .inr ⟨Phase.number_inj hphase, hk⟩⟩

theorem eq_of_not_before {c d : Check} (h : ¬ c.Before d) (h' : ¬ d.Before c) : c = d := by
  have hstage : c.stage = d.stage := by
    apply Nat.le_antisymm
    · exact Nat.not_lt.mp fun hlt => h' (.inl hlt)
    · exact Nat.not_lt.mp fun hlt => h (.inl hlt)
  refine eq_of_detail hstage (Std.Trichotomous.trichotomous (r := List.Lex (· < ·)) _ _ ?_ ?_)
  · exact fun hlex => h (.inr ⟨hstage, hlex⟩)
  · exact fun hlex => h' (.inr ⟨hstage.symm, hlex⟩)

end Check

/-- The number of cells of each program, as a word. -/
def lengths (programs : List Program) : List UInt64 :=
  programs.map fun p => UInt64.ofNat p.footprint

/-- What makes a check fail, and the error that says so. -/
inductive Objection (programs : List Program) (s : Settings) : Check → LoadError → Prop
  | noPrograms : programs = [] → Objection programs s .programs (.placement .noPrograms)
  | emptyCore : s.coreSize = 0 → Objection programs s .cells (.placement .emptyCore)
  /-- There is no instruction in front of the first `END`. -/
  | emptyProgram {i : Nat} {p : Program} : programs[i]? = some p → p.instructions = [] →
    Objection programs s (.instruction i) (.emptyProgram i)
  | tooLarge {needed : UInt64} : needed.toNat = (programs.map Program.footprint).sum →
    s.coreSize < needed → Objection programs s .room (.placement (.tooLarge needed s.coreSize))
  | positionCount {chosen : List Address} : s.startPositions = some chosen →
    chosen.length ≠ programs.length →
    Objection programs s .count (.placement (.positionCount programs.length chosen.length))
  /-- The two programs have a cell in common. -/
  | overlap {chosen : List Address} {i j : Nat} : s.startPositions = some chosen → i < j →
    Meet s.coreSize.toNat (chosen.zipWith Region.mk (lengths programs)) i j →
    Objection programs s (.pair i j) (.placement (.overlap i j))
  /-- The statement is at fault where the program is placed. -/
  | statement {origins : List Address} {i k : Nat} {p : Program} {o : Address} {phase : Phase}
    {cause : StatementError} : place (lengths programs) s = .ok origins →
    Located programs origins i p o → p.Fault s.coreSize.toNat o.toNat phase k cause →
    Objection programs s (.statement i phase k) (.statement i k cause)

/-! ### Placement -/

theorem place_eq_error {lengths : List UInt64} {s : Settings} {e : PlacementError}
    (h : place lengths s = .error e) :
    s.coreSize = 0 ∨ lengths = [] ∨
      (s.coreSize < lengths.foldl (· + ·) 0 ∧
        e = .tooLarge (lengths.foldl (· + ·) 0) s.coreSize) ∨
      (lengths.foldl (· + ·) 0 ≤ s.coreSize ∧ ∃ chosen, s.startPositions = some chosen ∧
        ((chosen.length ≠ lengths.length ∧ e = .positionCount lengths.length chosen.length) ∨
          (chosen.length = lengths.length ∧ ∃ i j, firstOverlap? s.coreSize
            ((chosen.map (· % s.coreSize)).zipWith Region.mk lengths) = some (i, j) ∧
            e = .overlap i j))) := by
  unfold place at h
  simp only at h
  split at h
  · exact .inl ‹_›
  split at h
  · rename_i hempty
    exact .inr (.inl (by simpa using hempty))
  split at h
  · rename_i hroom
    cases h
    exact .inr (.inr (.inl ⟨hroom, rfl⟩))
  rename_i hroom
  refine .inr (.inr (.inr ⟨by simpa using hroom, ?_⟩))
  split at h
  · rename_i chosen hchosen
    refine ⟨chosen, hchosen, ?_⟩
    split at h
    · rename_i hlen
      cases h
      exact .inl ⟨hlen, rfl⟩
    rename_i hlen
    split at h
    · rename_i i j hfound
      cases h
      exact .inr ⟨by simpa using hlen, i, j, hfound, rfl⟩
    · cases h
  · cases h

section Lengths

variable {programs : List Program} (hsum : (programs.map Program.footprint).sum < 2 ^ 64)

include hsum

theorem map_toNat_lengths :
    (lengths programs).map UInt64.toNat = programs.map Program.footprint :=
  Program.map_toNat_footprint hsum

theorem toNat_needed_lengths : ((lengths programs).foldl (· + ·) 0).toNat =
    (programs.map Program.footprint).sum := by
  have hmap := map_toNat_lengths hsum
  rw [toNat_foldl_add_zero (by rw [hmap]; exact hsum), hmap]

theorem hasRoom_lengths {size : UInt64} (hne : programs ≠ [])
    (hpos : ∀ p ∈ programs, 0 < p.footprint) (hroom : (lengths programs).foldl (· + ·) 0 ≤ size) :
    HasRoom (lengths programs) size where
  nonempty := by simpa [lengths] using hne
  pos := by
    intro l hl
    have hmem : l.toNat ∈ programs.map Program.footprint := by
      rw [← map_toNat_lengths hsum]
      exact List.mem_map_of_mem hl
    obtain ⟨p, hp, he⟩ := List.mem_map.mp hmem
    exact he ▸ hpos p hp
  sum_le := by
    rw [map_toNat_lengths hsum, ← toNat_needed_lengths hsum]
    exact UInt64.le_iff_toNat_le.mp hroom

end Lengths

/-! ### The stages before linking -/

theorem Program.instructions_eq_nil_iff {p : Program} :
    p.instructions = [] ↔ p.footprint = 0 := by
  rw [← p.length_instructions, List.length_eq_zero_iff]

/-- There is no objection of the first `n` kinds. -/
def Passed (programs : List Program) (s : Settings) (n : Nat) : Prop :=
  ∀ c e, Objection programs s c e → n ≤ c.stage

section Stages

variable {programs : List Program} {s : Settings}

namespace Passed

variable {n : Nat}

theorem zero : Passed programs s 0 := fun _ _ _ => Nat.zero_le _

theorem succ (h : Passed programs s n) (hn : ∀ c e, c.stage = n → ¬ Objection programs s c e) :
    Passed programs s (n + 1) := fun c e hc =>
  Nat.lt_of_le_of_ne (h c e hc) fun hstage => hn c e hstage.symm hc

/-- An objection of the next kind is the first when none of its kind comes before. -/
theorem first (h : Passed programs s n) {c : Check} {e : LoadError} (hn : c.stage = n)
    (hc : Objection programs s c e) (honly : ∀ e', Objection programs s c e' → e' = e)
    (hclear : ∀ c' e', c'.stage = n → List.Lex (· < ·) c'.detail c.detail →
      ¬ Objection programs s c' e') : First Check.Before (Objection programs s) c e := by
  refine ⟨fun e' => ⟨honly e', fun he => he ▸ hc⟩, fun c' hbefore e' hc' => ?_⟩
  rcases hbefore with hlt | ⟨hstage, hlex⟩
  · have hle := h c' e' hc'
    omega
  · exact hclear c' e' (hstage.trans hn) hlex hc'

theorem first_of_single (h : Passed programs s n) {c : Check} {e : LoadError} (hn : c.stage = n)
    (hd : c.detail = []) (hc : Objection programs s c e)
    (honly : ∀ e', Objection programs s c e' → e' = e) :
    First Check.Before (Objection programs s) c e := by
  refine h.first hn hc honly fun c' e' _ hlex => ?_
  rw [hd] at hlex
  exact absurd hlex List.not_lex_nil

theorem of_programs (h : programs ≠ []) : Passed programs s 1 := by
  refine zero.succ fun c e hstage hc => ?_
  cases hc with
  | noPrograms h0 => exact h h0
  | _ => simp [Check.stage] at hstage

theorem cells (hp : Passed programs s 1) (h : s.coreSize ≠ 0) : Passed programs s 2 := by
  refine hp.succ fun c e hstage hc => ?_
  cases hc with
  | emptyCore h0 => exact h h0
  | _ => simp [Check.stage] at hstage

theorem instructions (hp : Passed programs s 2) (h : ∀ p ∈ programs, 0 < p.footprint) :
    Passed programs s 3 := by
  refine hp.succ fun c e hstage hc => ?_
  cases hc with
  | emptyProgram hi h0 =>
    have hpos := h _ (List.mem_of_getElem? hi)
    rw [Program.instructions_eq_nil_iff.mp h0] at hpos
    exact Nat.lt_irrefl 0 hpos
  | _ => simp [Check.stage] at hstage

theorem room (hp : Passed programs s 3) (hsum : (programs.map Program.footprint).sum < 2 ^ 64)
    (h : (lengths programs).foldl (· + ·) 0 ≤ s.coreSize) : Passed programs s 4 := by
  refine hp.succ fun c e hstage hc => ?_
  cases hc with
  | tooLarge hn hlt =>
    rw [UInt64.le_iff_toNat_le, toNat_needed_lengths hsum, ← hn] at h
    exact Nat.not_lt.mpr h (UInt64.lt_iff_toNat_lt.mp hlt)
  | _ => simp [Check.stage] at hstage

theorem count (hp : Passed programs s 4)
    (h : ∀ chosen, s.startPositions = some chosen → chosen.length = programs.length) :
    Passed programs s 5 := by
  refine hp.succ fun c e hstage hc => ?_
  cases hc with
  | positionCount hchosen hlen => exact hlen (h _ hchosen)
  | _ => simp [Check.stage] at hstage

theorem pairs (hp : Passed programs s 5)
    (h : ∀ chosen, s.startPositions = some chosen → ∀ i j, i < j →
      ¬ Meet s.coreSize.toNat (chosen.zipWith Region.mk (lengths programs)) i j) :
    Passed programs s 6 := by
  refine hp.succ fun c e hstage hc => ?_
  cases hc with
  | overlap hchosen hij hmeet => exact h _ hchosen _ _ hij hmeet
  | _ => simp [Check.stage] at hstage

end Passed

variable (hs : s.coreSize.toNat < 2 ^ 63) (hsum : (programs.map Program.footprint).sum < 2 ^ 64)

include hs hsum

/-- Once there is a plan, only statements can be at fault. -/
theorem passed_of_plan {jobs : List Job} (h : plan programs s = .ok jobs) :
    Passed programs s 6 := by
  obtain ⟨hne, hcells, hfoot, origins, hplace, -⟩ := plan_cases h
  obtain ⟨hsize, -, hneeded, hways⟩ := place_cases hplace
  refine (((((Passed.of_programs hne).cells hsize).instructions hfoot).room hsum hneeded).count
    fun chosen hchosen => ?_).pairs fun chosen hchosen => ?_
  · rcases hways with ⟨chosen', hchosen', hlen, -⟩ | ⟨hnone, -⟩
    · obtain rfl := Option.some.inj (hchosen.symm.trans hchosen')
      simpa using hlen
    · simp [hnone] at hchosen
  · rcases hways with ⟨chosen', hchosen', -, rfl, hfound⟩ | ⟨hnone, -⟩
    · obtain rfl := Option.some.inj (hchosen.symm.trans hchosen')
      exact firstOverlap?_chosen (hasRoom_lengths hsum hne hfoot hneeded) (Nat.le_of_lt hs) hfound
    · simp [hnone] at hchosen

/-- Placing programs that have come so far meets the first objection. -/
theorem first_of_place (hp : Passed programs s 3) (hne : programs ≠ []) (hsize : s.coreSize ≠ 0)
    (hfoot : ∀ p ∈ programs, 0 < p.footprint) {e : PlacementError}
    (h : place (lengths programs) s = .error e) :
    ∃ c, First Check.Before (Objection programs s) c (.placement e) := by
  have htotal := toNat_needed_lengths hsum
  rcases place_eq_error h with h0 | h0 | ⟨hlt, rfl⟩ | ⟨hneeded, chosen, hchosen, hcases⟩
  · exact absurd h0 hsize
  · exact absurd (by simpa [lengths] using h0) hne
  · refine ⟨.room, hp.first_of_single rfl rfl (.tooLarge htotal hlt) fun e' ho => ?_⟩
    cases ho with
    | tooLarge hn _ => rw [UInt64.toNat_inj.mp (hn.trans htotal.symm)]
  have hp := hp.room hsum hneeded
  have hlengths : (lengths programs).length = programs.length := by simp [lengths]
  rcases hcases with ⟨hlen, rfl⟩ | ⟨hlen, i, j, hfound, rfl⟩
  · rw [hlengths] at hlen ⊢
    refine ⟨.count, hp.first_of_single rfl rfl (.positionCount hchosen hlen) fun e' ho => ?_⟩
    cases ho with
    | positionCount hchosen' _ => rw [Option.some.inj (hchosen.symm.trans hchosen')]
  · have hp := hp.count fun chosen' hchosen' => by
      rw [← hlengths, ← hlen, Option.some.inj (hchosen.symm.trans hchosen')]
    have hroom := hasRoom_lengths hsum hne hfoot hneeded
    have hfirst := firstOverlap?_chosen hroom (Nat.le_of_lt hs) hfound
    refine ⟨.pair i j, hp.first rfl (.overlap hchosen hfirst.lt hfirst.meet) (fun e' ho => ?_)
      fun c' e' hstage hlex ho => ?_⟩
    · cases ho
      rfl
    · cases ho with
      | @overlap chosen' i' j' hchosen' hij hmeet =>
        obtain rfl := Option.some.inj (hchosen.symm.trans hchosen')
        have hbehind := hfirst.first i' j' hij hmeet
        have hlex : i' < i ∨ i' = i ∧ j' < j := by
          simpa [Check.detail, List.cons_lt_cons_iff] using hlex
        omega
      | _ => simp [Check.stage] at hstage

/-- **A plan that fails has met the first objection.** -/
theorem first_of_plan {e : LoadError} (h : plan programs s = .error e) :
    ∃ c, First Check.Before (Objection programs s) c e := by
  unfold plan at h
  split at h
  · rename_i hempty
    cases h
    have hempty : programs = [] := by simpa using hempty
    refine ⟨.programs, Passed.zero.first_of_single rfl rfl (.noPrograms hempty) fun e' ho => ?_⟩
    cases ho
    rfl
  rename_i hne
  have hne : programs ≠ [] := by simpa using hne
  have hp := Passed.of_programs (s := s) hne
  split at h
  · rename_i hsize
    cases h
    refine ⟨.cells, hp.first_of_single rfl rfl (.emptyCore hsize) fun e' ho => ?_⟩
    cases ho
    rfl
  rename_i hsize
  have hp := hp.cells hsize
  split at h
  · rename_i i hfound
    cases h
    obtain ⟨hlt, hzero, hbefore⟩ := List.findIdx?_eq_some_iff_getElem.mp hfound
    have hempty : programs[i].instructions = [] :=
      Program.instructions_eq_nil_iff.mpr (by simpa using hzero)
    refine ⟨.instruction i, hp.first rfl (.emptyProgram (List.getElem?_eq_getElem hlt) hempty)
      (fun e' ho => ?_) fun c' e' hstage hlex ho => ?_⟩
    · cases ho
      rfl
    · cases ho with
      | @emptyProgram i' p hi' h0 =>
        have hi : i' < i := by simpa [Check.detail, List.cons_lt_cons_iff] using hlex
        obtain ⟨hlt', rfl⟩ := List.getElem?_eq_some_iff.mp hi'
        exact hbefore i' hi (by simpa using Program.instructions_eq_nil_iff.mp h0)
      | _ => simp [Check.stage] at hstage
  rename_i hfound
  have hfoot : ∀ p ∈ programs, 0 < p.footprint := fun p hmem =>
    Nat.pos_of_ne_zero (by simpa using List.findIdx?_eq_none_iff.mp hfound p hmem)
  split at h
  · rename_i e' hplace
    cases h
    exact first_of_place hs hsum (hp.instructions hfoot) hne hsize hfoot hplace
  · cases h

end Stages

/-! ### Linking -/

/-- When a computation fails for a list, it fails for an entry with none before it. -/
theorem mapM_eq_error {ε α β : Type} {f : α → Except ε β} : ∀ {xs : List α} {e : ε},
    xs.mapM f = .error e → ∃ (i : Nat) (x : α), xs[i]? = some x ∧ f x = .error e ∧
      ∀ i' < i, ∀ x', xs[i']? = some x' → ∃ y, f x' = .ok y
  | [], e, h => by cases h
  | x :: xs, e, h => by
    rw [List.mapM_cons] at h
    rcases bind_eq_error.mp h with hx | ⟨y, hy, h⟩
    · exact ⟨0, x, rfl, hx, by simp⟩
    rcases bind_eq_error.mp h with hxs | ⟨ys, -, h⟩
    · obtain ⟨i, x', hx', hf, hbefore⟩ := mapM_eq_error hxs
      refine ⟨i + 1, x', hx', hf, fun i' hi' z hz => ?_⟩
      cases i' with
      | zero =>
        obtain rfl : x = z := by simpa using hz
        exact ⟨y, hy⟩
      | succ i' => exact hbefore i' (by omega) z hz
    · cases h

section Load

variable {programs : List Program} {s : Settings}

theorem plan_job {jobs : List Job} (h : plan programs s = .ok jobs) :
    ∃ origins, place (lengths programs) s = .ok origins ∧
      ∀ i j, jobs[i]? = some j ↔ ∃ p o, Located programs origins i p o ∧ j = ⟨i, p, o⟩ := by
  obtain ⟨-, -, -, origins, hplace, rfl⟩ := plan_cases h
  refine ⟨origins, hplace, fun i j => ?_⟩
  rw [List.getElem?_map, Option.map_eq_some_iff]
  constructor
  · rintro ⟨⟨⟨p, o⟩, n⟩, hn, rfl⟩
    rw [List.getElem?_zipIdx, Option.map_eq_some_iff] at hn
    obtain ⟨q, hq, he⟩ := hn
    obtain ⟨rfl, rfl⟩ := Prod.mk.inj he
    obtain ⟨hp, ho⟩ := List.getElem?_zip_eq_some.mp hq
    exact ⟨p, o, ⟨hp, ho⟩, by simp⟩
  · rintro ⟨p, o, ⟨hp, ho⟩, rfl⟩
    exact ⟨((p, o), i), by simp [List.getElem?_zip_eq_some, hp, ho], rfl⟩

theorem Job.link_eq_error {size : Nat} {j : Job} {e : LoadError} (h : j.link size = .error e) :
    ∃ k cause, CoreWar.link size j.program j.origin = .error (k, cause) ∧
      e = .statement j.warrior k cause := by
  unfold Job.link at h
  cases hl : CoreWar.link size j.program j.origin with
  | ok image => simp [hl, Except.mapError] at h
  | error f =>
    rw [hl] at h
    cases h
    exact ⟨f.1, f.2, rfl, rfl⟩

variable (hs : s.coreSize.toNat < 2 ^ 63) (hsum : (programs.map Program.footprint).sum < 2 ^ 64)

include hs hsum

/-- **Loading that succeeds has met no objection.** -/
theorem not_objection_of_load {arena : Arena} (h : load programs s = .ok arena) {c : Check}
    {e : LoadError} : ¬ Objection programs s c e := by
  intro hc
  obtain ⟨jobs, hplan, h⟩ := bind_eq_ok.mp h
  obtain ⟨images, himages, -⟩ := map_eq_ok.mp h
  have hstage := passed_of_plan hs hsum hplan c e hc
  obtain ⟨-, hsize, -, hlt⟩ := plan_ok hplan
  obtain ⟨origins, hplace, hjobs⟩ := plan_job hplan
  cases hc with
  | @statement origins' i k p o phase cause hplace' hi hfault =>
    obtain rfl := Except.ok.inj (hplace.symm.trans hplace')
    have hjob : jobs[i]? = some ⟨i, p, o⟩ := (hjobs i _).mpr ⟨p, o, hi, rfl⟩
    obtain ⟨image, -, hlink⟩ := getElem?_of_mapM himages hjob
    exact not_fault_of_link hsize hs (hlt _ (List.mem_of_getElem? hjob)) (mapError_eq_ok.mp hlink)
      phase k cause hfault
  | _ => simp [Check.stage] at hstage

/-- **Loading that fails has met the first objection.** -/
theorem first_of_load {e : LoadError} (h : load programs s = .error e) :
    ∃ c, First Check.Before (Objection programs s) c e := by
  rcases bind_eq_error.mp h with hplan | ⟨jobs, hplan, h⟩
  · exact first_of_plan hs hsum hplan
  have hp := passed_of_plan hs hsum hplan
  obtain ⟨-, hsize, -, hlt⟩ := plan_ok hplan
  obtain ⟨origins, hplace, hjobs⟩ := plan_job hplan
  obtain ⟨i, job, hjob, hlink, hbefore⟩ := mapM_eq_error (map_eq_error.mp h)
  obtain ⟨p, o, hi, rfl⟩ := (hjobs i job).mp hjob
  obtain ⟨k, cause, hfails, rfl⟩ := Job.link_eq_error hlink
  obtain ⟨phase, honly, hclear⟩ :=
    first_fault_of_link hsize hs (hlt _ (List.mem_of_getElem? hjob)) hfails
  refine ⟨.statement i phase k, hp.first rfl (.statement hplace hi ((honly cause).mpr rfl))
    (fun e' ho => ?_) fun c' e' hstage hlex ho => ?_⟩
  · cases ho with
    | @statement origins' _ _ p' o' _ cause' hplace' hi' hfault =>
      obtain rfl := Except.ok.inj (hplace.symm.trans hplace')
      obtain rfl := Option.some.inj (hi.program.symm.trans hi'.program)
      obtain rfl := Option.some.inj (hi.origin.symm.trans hi'.origin)
      rw [(honly cause').mp hfault]
  · cases ho with
    | @statement origins' i' k' p' o' phase' cause' hplace' hi' hfault =>
      obtain rfl := Except.ok.inj (hplace.symm.trans hplace')
      rcases Check.lex_statement hlex with hless | ⟨rfl, hbefore'⟩
      · -- an earlier program has been linked
        have hjob' : jobs[i']? = some ⟨i', p', o'⟩ := (hjobs i' _).mpr ⟨p', o', hi', rfl⟩
        obtain ⟨image, hlink'⟩ := hbefore i' hless _ hjob'
        exact not_fault_of_link hsize hs (hlt _ (List.mem_of_getElem? hjob'))
          (mapError_eq_ok.mp hlink') phase' k' cause' hfault
      · obtain rfl := Option.some.inj (hi.program.symm.trans hi'.program)
        obtain rfl := Option.some.inj (hi.origin.symm.trans hi'.origin)
        exact hclear (phase', k') hbefore' cause' hfault
    | _ => simp [Check.stage] at hstage

end Load

/-- **Loading reports the first error.** It fails with an error exactly when that is the objection
of a check and no check before it has one, so it fails exactly when some check has an
objection. By `hsum` the instructions can be counted in a word, as those of any programs held in
a memory can. -/
theorem load_first_error {programs : List Program} {s : Settings}
    (hs : s.coreSize.toNat < 2 ^ 63) (hsum : (programs.map Program.footprint).sum < 2 ^ 64) :
    (∀ e, load programs s = .error e ↔ ∃ c, Objection programs s c e ∧
      ∀ c', c'.Before c → ∀ e', ¬ Objection programs s c' e') ∧
    ((∃ e, load programs s = .error e) ↔ ∃ c e, Objection programs s c e) := by
  -- an objection makes loading fail, and the first objection is the error
  have hfails {c : Check} {e : LoadError} (hc : Objection programs s c e) :
      ∃ e', load programs s = .error e' := by
    cases hload : load programs s with
    | ok arena => exact absurd hc (not_objection_of_load hs hsum hload)
    | error e' => exact ⟨e', rfl⟩
  refine ⟨fun e => ⟨fun h => ?_, ?_⟩, ⟨?_, ?_⟩⟩
  · obtain ⟨c, honly, hclear⟩ := first_of_load hs hsum h
    exact ⟨c, (honly e).mpr rfl, hclear⟩
  · rintro ⟨c, hc, hbefore⟩
    obtain ⟨e', hload⟩ := hfails hc
    obtain ⟨c', honly, hclear⟩ := first_of_load hs hsum hload
    have hcc : c = c' := by
      refine Check.eq_of_not_before (fun hlt => hclear c hlt e hc) fun hlt => ?_
      exact hbefore c' hlt e' ((honly e').mpr rfl)
    rw [hload, (honly e).mp (hcc ▸ hc)]
  · rintro ⟨e, h⟩
    obtain ⟨c, honly, -⟩ := first_of_load hs hsum h
    exact ⟨c, e, (honly e).mpr rfl⟩
  · rintro ⟨c, e, hc⟩
    exact hfails hc

/-- A program that divides by zero in its first instruction and gives a label to a constant in
its last statement. -/
def muddle : Program :=
  [{ mnemonic := .op .mov, label := some "top",
      aField := .binary .divide (.literal 1) (.literal 0) },
    { mnemonic := .op .jmp, aField := .symbol "top" },
    .constant "top" (.symbol "top")]

/-- The constant is reported: it comes behind the division, but it is looked at first. -/
theorem load_first_error_muddle :
    load [walker, muddle] { coreSize := 16 } =
      .error (.statement 1 2 (.symbol (.duplicate "top"))) ∧
    (∃ c, Objection [walker, muddle] { coreSize := 16 } c
        (.statement 1 2 (.symbol (.duplicate "top"))) ∧
      ∀ c', c'.Before c → ∀ e', ¬ Objection [walker, muddle] { coreSize := 16 } c' e') ∧
    Objection [walker, muddle] { coreSize := 16 } (.statement 1 .fields 0)
      (.statement 1 0 (.symbol .divisionByZero)) := by
  have hload : load [walker, muddle] { coreSize := 16 } =
      .error (.statement 1 2 (.symbol (.duplicate "top"))) := rfl
  have hfirst := @load_first_error [walker, muddle] { coreSize := 16 } (by decide) (by decide)
  have hplace : place (lengths [walker, muddle]) { coreSize := 16 } = .ok [0, 7] := rfl
  refine ⟨hload, (hfirst.1 _).mp hload, .statement hplace ⟨rfl, rfl⟩ ?_⟩
  exact .aField rfl rfl (.division (.literal 1) (.literal 0))

end CoreWar
