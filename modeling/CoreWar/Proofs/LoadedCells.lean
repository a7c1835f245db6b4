/-
# The loaded core, cell by cell

When loading succeeds, each program lies where it was placed: its instruction
number `j` is in the cell `j` places behind its origin, around the ring, with
the fields that its expressions mean there. The cells of different programs
are different, so no program writes over another one, and a cell that belongs
to no program is neutral. Warrior number `i` has the id `i` and one process,
where program number `i` starts.

Images are written one after the other, and within an image cell by cell. Of
a cell it is enough to know that some write reaches it and that all writes
that reach it agree (`Core.cells_writes_of_mem`); as places are apart, only
one does.

Key definitions: `Layout`, `Arena.Assembled`, `Arena.Holds`.
Key theorems: `load_cases`, `place_layout`, `load_assembled`,
`Arena.Assembled.cell`, `Arena.Assembled.warrior`, `load_holds`.
-/
import Mathlib.Algebra.BigOperators.Group.List.Basic
import CoreWar.Proofs.Linking
import CoreWar.Proofs.Regions

namespace CoreWar

/-! ### Many writes -/

namespace Core

/-- Write one cell after the other. -/
def writes (core : Core) (cells : List (Address × Instruction)) : Core :=
  cells.foldl (fun core cell => core.write cell.1 cell.2) core

theorem writes_cons (core : Core) (c : Address × Instruction)
    (cells : List (Address × Instruction)) :
    core.writes (c :: cells) = (core.write c.1 c.2).writes cells := rfl

theorem foldl_install (images : List Image) (core : Core) :
    images.foldl .install core = core.writes (images.flatMap Image.cells) := by
  rw [writes, List.foldl_flatMap]
  rfl

theorem index_write (core : Core) (a b : Address) (i : Instruction) :
    (core.write a i).index b = core.index b := by
  simp only [index, size_write]

theorem cells_write_of_ne {core : Core} {a : Address} {x : Nat} (h : core.index a ≠ x)
    (i : Instruction) : (core.write a i).cells[x]? = core.cells[x]? :=
  Array.getElem?_setIfInBounds_ne h

/-- A cell that no write reaches stays as it is. -/
theorem cells_writes_of_forall_ne {x : Nat} :
    ∀ {cells : List (Address × Instruction)} {core : Core},
      (∀ c ∈ cells, core.index c.1 ≠ x) → (core.writes cells).cells[x]? = core.cells[x]?
  | [], core, _ => rfl
  | c :: cells, core, h => by
    have hrest : ∀ d ∈ cells, (core.write c.1 c.2).index d.1 ≠ x := by
      intro d hd
      rw [index_write]
      exact h d (List.mem_cons_of_mem _ hd)
    rw [writes_cons, cells_writes_of_forall_ne hrest]
    exact cells_write_of_ne (h c List.mem_cons_self) c.2

/-- A cell that some write reaches holds what all the writes that reach it agree on. -/
theorem cells_writes_of_mem {x : Nat} {i : Instruction} :
    ∀ {cells : List (Address × Instruction)} {core : Core}, x < core.size →
      (∃ c ∈ cells, core.index c.1 = x) → (∀ c ∈ cells, core.index c.1 = x → c.2 = i) →
      (core.writes cells).cells[x]? = some i
  | [], core, _, hmem, _ => by simp at hmem
  | c :: cells, core, hx, hmem, hall => by
    rw [writes_cons]
    by_cases hlater : ∃ d ∈ cells, (core.write c.1 c.2).index d.1 = x
    · refine cells_writes_of_mem (by rwa [size_write]) hlater fun d hd hdx => ?_
      rw [index_write] at hdx
      exact hall d (List.mem_cons_of_mem _ hd) hdx
    · -- the first write is the last that reaches the cell
      rw [cells_writes_of_forall_ne fun d hd hdx => hlater ⟨d, hd, hdx⟩]
      obtain ⟨d, hd, hdx⟩ := hmem
      rcases List.mem_cons.mp hd with rfl | hd
      · rw [← hall d List.mem_cons_self hdx, ← hdx]
        exact Array.getElem?_setIfInBounds_self_of_lt (by rw [hdx]; exact hx)
      · exact absurd ⟨d, hd, by rw [index_write]; exact hdx⟩ hlater

@[simp] theorem size_blank (n : Nat) : (blank n).size = n := by
  simp [blank, size]

theorem index_blank (n : Nat) (a : Address) : (blank n).index a = a.toNat % n := by
  rw [index, size_blank]

theorem cells_blank {n x : Nat} (hx : x < n) : (blank n).cells[x]? = some .neutral := by
  simp [blank, hx]

end Core

/-! ### What the stages of loading give -/

/-- Program number `i` is `p`, and its origin is `o`. -/
structure Located (programs : List Program) (origins : List Address) (i : Nat) (p : Program)
    (o : Address) : Prop where
  program : programs[i]? = some p
  origin : origins[i]? = some o

/-- Loading that succeeds has found places and linked every program at its place. -/
theorem load_cases {programs : List Program} {s : Settings} {arena : Arena}
    (h : load programs s = .ok arena) : ∃ (origins : List Address) (images : List Image),
      place (programs.map fun p => UInt64.ofNat p.footprint) s = .ok origins ∧
      (∀ p ∈ programs, 0 < p.footprint) ∧
      images.length = programs.length ∧
      (∀ i p o, Located programs origins i p o →
        ∃ image, images[i]? = some image ∧ link s.coreSize.toNat p o = .ok image) ∧
      arena.core = images.foldl .install (.blank s.coreSize.toNat) ∧
      arena.warriors = images.zipIdx.map fun (image, i) => .start (UInt64.ofNat i) image.start := by
  obtain ⟨jobs, hplan, h⟩ := bind_eq_ok.mp h
  obtain ⟨images, himages, rfl⟩ := map_eq_ok.mp h
  have hlen : images.length = programs.length := by
    rw [← (mapM_eq_ok.mp himages).length_eq, (plan_ok hplan).2.2.1]
  obtain ⟨-, -, hfoot, origins, hplace, rfl⟩ := plan_cases hplan
  refine ⟨origins, images, hplace, hfoot, hlen, fun i p o hi => ?_, rfl, rfl⟩
  obtain ⟨image, himage, hlink⟩ := getElem?_of_mapM (k := i) (x := ⟨i, p, o⟩) himages
    (by simp [hi.program, hi.origin, List.getElem?_zip_eq_some])
  exact ⟨image, himage, mapError_eq_ok.mp hlink⟩

/-- The programs have room in a ring of `size` cells, each has its origin there, and no cell
belongs to two of them. -/
structure Layout (programs : List Program) (origins : List Address) (size : Nat) : Prop where
  length : origins.length = programs.length
  origin_lt : ∀ o ∈ origins, o.toNat < size
  room : (programs.map Program.footprint).sum ≤ size
  apart : ∀ i i' p p' o o', Located programs origins i p o → Located programs origins i' p' o' →
    i ≠ i' → ∀ j < p.footprint, ∀ j' < p'.footprint,
      (o.toNat + j) % size ≠ (o'.toNat + j') % size

theorem Program.footprint_le_sum {programs : List Program} {p : Program} (hp : p ∈ programs) :
    p.footprint ≤ (programs.map Program.footprint).sum :=
  List.single_le_sum (by simp) _ (List.mem_map_of_mem hp)

/-- Footprints whose sum is a word are words. -/
theorem Program.toNat_footprint {programs : List Program}
    (hsum : (programs.map Program.footprint).sum < 2 ^ 64) {p : Program} (hp : p ∈ programs) :
    (UInt64.ofNat p.footprint).toNat = p.footprint :=
  UInt64.toNat_ofNat_of_lt' (Nat.lt_of_le_of_lt (Program.footprint_le_sum hp) hsum)

theorem Program.map_toNat_footprint {programs : List Program}
    (hsum : (programs.map Program.footprint).sum < 2 ^ 64) :
    (programs.map fun p => UInt64.ofNat p.footprint).map UInt64.toNat =
      programs.map Program.footprint := by
  rw [List.map_map]
  exact List.map_congr_left fun p hp => Program.toNat_footprint hsum hp

open Placement in
theorem place_layout {programs : List Program} {s : Settings} {origins : List Address}
    (hs : s.coreSize.toNat < 2 ^ 63) (hpos : ∀ p ∈ programs, 0 < p.footprint)
    (hsum : (programs.map Program.footprint).sum < 2 ^ 64)
    (h : place (programs.map fun p => UInt64.ofNat p.footprint) s = .ok origins) :
    Layout programs origins s.coreSize.toNat := by
  have hmap := Program.map_toNat_footprint hsum
  have hlen := length_le_sum_map hpos
  obtain ⟨hroom, hapart⟩ := place_apart (by omega) (by simp; omega) (by rw [hmap]; exact hsum) h
  rw [hmap] at hroom
  obtain ⟨hl, hlt⟩ := place_lt h
  refine ⟨by simpa using hl, hlt, hroom, ?_⟩
  intro i i' p p' o o' hi hi' hne j hj j' hj' he
  have hcovers {i : Nat} {p : Program} {o : Address} (hi : Located programs origins i p o)
      {j : Nat} (hj : j < p.footprint) :
      ∃ r, (origins.zipWith Region.mk (programs.map fun p => UInt64.ofNat p.footprint))[i]? =
        some r ∧ r.Covers s.coreSize.toNat ((o.toNat + j) % s.coreSize.toNat) := by
    refine ⟨⟨o, UInt64.ofNat p.footprint⟩, ?_, j, ?_, rfl⟩
    · simp [List.getElem?_zipWith, hi.program, hi.origin]
    · rw [Program.toNat_footprint hsum (List.mem_of_getElem? hi.program)]
      exact hj
  obtain ⟨r, hr, hcell⟩ := hcovers hi hj
  obtain ⟨r', hr', hcell'⟩ := hcovers hi' hj'
  exact hne (Region.index_unique hapart hr hr' hcell (he ▸ hcell'))

namespace Layout

variable {programs : List Program} {origins : List Address} {size : Nat}
  (hlayout : Layout programs origins size)

include hlayout

theorem exists_located {i : Nat} (hi : i < programs.length) :
    ∃ p o, Located programs origins i p o := by
  have ho : i < origins.length := by rw [hlayout.length]; exact hi
  exact ⟨programs[i], origins[i], List.getElem?_eq_getElem hi, List.getElem?_eq_getElem ho⟩

/-- A cell tells the program and the instruction. -/
theorem cell_unique {i i' j j' : Nat} {p p' : Program} {o o' : Address}
    (hi : Located programs origins i p o) (hi' : Located programs origins i' p' o')
    (hj : j < p.footprint) (hj' : j' < p'.footprint)
    (h : (o.toNat + j) % size = (o'.toNat + j') % size) : i = i' ∧ j = j' := by
  by_cases hne : i = i'
  · subst hne
    obtain rfl : p = p' := Option.some.inj (hi.program.symm.trans hi'.program)
    obtain rfl : o = o' := Option.some.inj (hi.origin.symm.trans hi'.origin)
    have hroom : p.footprint ≤ size :=
      Nat.le_trans (Program.footprint_le_sum (List.mem_of_getElem? hi.program)) hlayout.room
    exact ⟨rfl, Placement.add_mod_inj (by omega) (by omega) h⟩
  · exact absurd h (hlayout.apart i i' p p' o o' hi hi' hne j hj j' hj')

end Layout

/-! ### Images in the core -/

/-- The arena is made of one image for each program, linked at its origin. -/
structure Arena.Assembled (arena : Arena) (programs : List Program) (origins : List Address)
    (images : List Image) (size : Nat) : Prop extends Layout programs origins size where
  size_pos : 0 < size
  length_images : images.length = programs.length
  image : ∀ i p o, Located programs origins i p o → ∃ image, images[i]? = some image ∧
    link size p o = .ok image ∧ image.Of p size o
  core : arena.core = images.foldl .install (.blank size)
  warriors : arena.warriors = images.zipIdx.map fun (image, i) =>
    .start (UInt64.ofNat i) image.start

/-- Loading assembles the arena at the places that were found. -/
theorem load_assembled {programs : List Program} {s : Settings} {arena : Arena}
    (hs : s.coreSize.toNat < 2 ^ 63) (hsum : (programs.map Program.footprint).sum < 2 ^ 64)
    (h : load programs s = .ok arena) : ∃ origins images,
      place (programs.map fun p => UInt64.ofNat p.footprint) s = .ok origins ∧
      (∀ p ∈ programs, 0 < p.footprint) ∧
      arena.Assembled programs origins images s.coreSize.toNat := by
  obtain ⟨-, hpos, -⟩ := load_ok h
  obtain ⟨origins, images, hplace, hfoot, hlen, hlink, hcore, hwarriors⟩ := load_cases h
  have hlayout := place_layout hs hfoot hsum hplace
  refine ⟨origins, images, hplace, hfoot, hlayout, hpos, hlen, fun i p o hi => ?_, hcore, hwarriors⟩
  obtain ⟨image, himage, hl⟩ := hlink i p o hi
  have ho := hlayout.origin_lt o (List.mem_of_getElem? hi.origin)
  exact ⟨image, himage, hl, link_image hpos hs ho hl⟩

namespace Arena.Assembled

variable {arena : Arena} {programs : List Program} {origins : List Address} {images : List Image}
  {size : Nat} (h : arena.Assembled programs origins images size)

include h

/-- Everything that is written belongs to an instruction of a program. -/
theorem exists_located_of_mem {c : Address × Instruction} (hc : c ∈ images.flatMap Image.cells) :
    ∃ i p o j image, Located programs origins i p o ∧ j < p.footprint ∧
      images[i]? = some image ∧ image.cells[j]? = some c ∧
      (Core.blank size).index c.1 = (o.toNat + j) % size := by
  obtain ⟨image, himage, hc⟩ := List.mem_flatMap.mp hc
  obtain ⟨i, hi⟩ := List.mem_iff_getElem?.mp himage
  obtain ⟨j, hj⟩ := List.mem_iff_getElem?.mp hc
  have hlt : i < programs.length := h.length_images ▸ (List.getElem?_eq_some_iff.mp hi).1
  obtain ⟨p, o, hloc⟩ := h.exists_located hlt
  obtain ⟨_, hi', -, hof⟩ := h.image i p o hloc
  obtain rfl := Option.some.inj (hi.symm.trans hi')
  have hjlt : j < p.footprint := hof.length ▸ (List.getElem?_eq_some_iff.mp hj).1
  obtain ⟨a, x, hx, ha, -⟩ := hof.cells j _
    (List.getElem?_eq_getElem (by rw [p.length_instructions]; exact hjlt))
  obtain rfl := Option.some.inj (hj.symm.trans hx)
  refine ⟨i, p, o, j, image, hloc, hjlt, hi, hj, ?_⟩
  rw [Core.index_blank, ha, Nat.mod_mod]

theorem cell {i j : Nat} {p : Program} {o : Address} {s : Statement}
    (hi : Located programs origins i p o) (hj : p.instructions[j]? = some s) :
    ∃ c, arena.core.cells[(o.toNat + j) % size]? = some c ∧
      p.Linked size o.toNat ((o.toNat + j) % size) s c := by
  obtain ⟨image, himage, -, hof⟩ := h.image i p o hi
  obtain ⟨a, c, hc, ha, hlinked⟩ := hof.cells j s hj
  refine ⟨c, ?_, hlinked⟩
  rw [h.core, Core.foldl_install]
  have hjlt : j < p.footprint := hof.length ▸ (List.getElem?_eq_some_iff.mp hc).1
  refine Core.cells_writes_of_mem (by simpa using Nat.mod_lt _ h.size_pos) ⟨(a, c), ?_, ?_⟩
    fun d hd hdx => ?_
  · exact List.mem_flatMap.mpr ⟨image, List.mem_of_getElem? himage, List.mem_of_getElem? hc⟩
  · rw [Core.index_blank, ha, Nat.mod_mod]
  · -- a write that reaches the same cell is this one
    obtain ⟨i', p', o', j', image', hi', hjlt', himage', hd', hx'⟩ := h.exists_located_of_mem hd
    obtain ⟨rfl, rfl⟩ := h.cell_unique hi hi' hjlt hjlt' (hdx.symm.trans hx')
    obtain rfl := Option.some.inj (himage.symm.trans himage')
    rw [← Option.some.inj (hc.symm.trans hd')]

theorem outside {x : Nat} (hx : x < size) (hout : ∀ i p o, Located programs origins i p o →
    ∀ j < p.footprint, x ≠ (o.toNat + j) % size) : arena.core.cells[x]? = some .neutral := by
  rw [h.core, Core.foldl_install, Core.cells_writes_of_forall_ne, Core.cells_blank hx]
  intro c hc hcx
  obtain ⟨i, p, o, j, image, hi, hj, -, -, hcell⟩ := h.exists_located_of_mem hc
  exact hout i p o hi j hj (hcx.symm.trans hcell)

theorem warrior {i : Nat} {p : Program} {o : Address} (hi : Located programs origins i p o) :
    ∃ start, arena.warriors[i]? = some (.start (UInt64.ofNat i) start) ∧ p.Starts size o start := by
  obtain ⟨image, himage, -, hof⟩ := h.image i p o hi
  exact ⟨image.start, by simp [h.warriors, himage], hof.start⟩

end Arena.Assembled

/-! ### The arena -/

/-- The arena holds the programs at these origins: each instruction in its cell, nothing
elsewhere, and for each program a warrior that starts it. -/
structure Arena.Holds (arena : Arena) (programs : List Program) (origins : List Address)
    (size : Nat) : Prop extends Layout programs origins size where
  size_core : arena.core.size = size
  cells : ∀ i p o, Located programs origins i p o → ∀ j s, p.instructions[j]? = some s →
    ∃ c, arena.core.cells[(o.toNat + j) % size]? = some c ∧
      p.Linked size o.toNat ((o.toNat + j) % size) s c
  outside : ∀ x < size, (∀ i p o, Located programs origins i p o → ∀ j < p.footprint,
    x ≠ (o.toNat + j) % size) → arena.core.cells[x]? = some .neutral
  length_warriors : arena.warriors.length = programs.length
  warriors : ∀ i p o, Located programs origins i p o → ∃ w start, arena.warriors[i]? = some w ∧
    w.id.toNat = i ∧ w.queue.toList = [start] ∧ p.Starts size o start

/-- **Loading is correct cell by cell.** Programs that fit into a memory at all have fewer
instructions than there are words, which is what `hsum` asks for. -/
theorem load_holds {programs : List Program} {s : Settings} {arena : Arena}
    (hs : s.coreSize.toNat < 2 ^ 63) (hsum : (programs.map Program.footprint).sum < 2 ^ 64)
    (h : load programs s = .ok arena) :
    ∃ origins, place (programs.map fun p => UInt64.ofNat p.footprint) s = .ok origins ∧
      arena.Holds programs origins s.coreSize.toNat := by
  obtain ⟨-, -, hsize, -⟩ := load_ok h
  obtain ⟨origins, images, hplace, hfoot, hassembled⟩ := load_assembled hs hsum h
  refine ⟨origins, hplace, hassembled.toLayout, hsize, fun i p o hi j st hj => ?_,
    fun x hx hout => ?_, ?_, fun i p o hi => ?_⟩
  · exact hassembled.cell hi hj
  · exact hassembled.outside hx hout
  · rw [hassembled.warriors, List.length_map, List.length_zipIdx, hassembled.length_images]
  · obtain ⟨start, hw, hstarts⟩ := hassembled.warrior hi
    refine ⟨_, start, hw, ?_, ProcessQueue.toList_ofList _, hstarts⟩
    have hi' : i < programs.length := (List.getElem?_eq_some_iff.mp hi.program).1
    have hcount := length_le_sum_map hfoot
    exact UInt64.toNat_ofNat_of_lt' (show i < 2 ^ 64 by omega)

/-- A program with a label in front of its use, one behind it, and a constant in between. -/
def stepper : Program :=
  [{ mnemonic := .op .mov, label := some "top", aField := .symbol "last", bField := .symbol "gap" },
    .constant "gap" (.binary .subtract (.symbol "top") (.literal 2)),
    { mnemonic := .op .jmp, aField := .symbol "top" },
    { mnemonic := .op .dat, label := some "last", aMode := .immediate, bMode := .immediate },
    .finish (some "last"),
    { mnemonic := .op .mov }]

def walker : Program := [{ mnemonic := .op .mov, bField := .literal 1 }]

/-- The first program lies across the end of the ring, so its label `last` is six cells back. -/
theorem load_holds_straddling : ∃ arena,
    load [stepper, walker] { coreSize := 8, startPositions := some [14, 2] } = .ok arena ∧
      arena.core.cells[6]? = some ⟨.mov, .direct, -6, .direct, -3⟩ ∧
      arena.Holds [stepper, walker] [6, 2] 8 := by
  obtain ⟨arena, hload, hcell⟩ : ∃ arena,
      load [stepper, walker] { coreSize := 8, startPositions := some [14, 2] } = .ok arena ∧
        arena.core.cells[6]? = some ⟨.mov, .direct, -6, .direct, -3⟩ := ⟨_, rfl, by decide +kernel⟩
  obtain ⟨origins, hplace, hholds⟩ := load_holds (by decide) (by decide) hload
  obtain rfl : [6, 2] = origins := Except.ok.inj hplace
  exact ⟨arena, hload, hcell, hholds⟩

end CoreWar
