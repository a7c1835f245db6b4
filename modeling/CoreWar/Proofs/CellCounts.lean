/-
# Cores without cells

A core is a ring, and every access takes a remainder by the number of its
cells, so there must be one. Whatever changes a core keeps the number
(`Core.Change.size_eq`). What is left is where cores come from: a core is made
with a size, which may not be zero; it is loaded, into a core of the size
asked for, which may not be zero either; or it is read from a text. The reader
takes a list of any length, and so it is the one way to a core without cells
(`Core.reader_admits_empty`). All cores have a cell exactly when every text
that is let in lists one (`Core.obtainable_pos_iff`).

Key definitions: `Core.parse?`, `Core.Change`, `Core.Obtainable`,
`Core.ListsCell`.
Key theorems: `Core.Change.size_eq`, `Core.size_of_ofJson?`,
`Core.obtainable_pos_iff`, `Core.cells_kept`.
-/
import CoreWar.Codec.Instruction
import CoreWar.Proofs.Arena

namespace CoreWar
namespace Core

def parse? (text : String) : Option Core := (Json.Value.parse? text).bind ofJson?

/-- What can be done to a core: write or change a cell, resolve an operand, let a warrior
act. -/
inductive Change : Core → Core → Prop
  | write (core : Core) (a : Address) (i : Instruction) : Change core (core.write a i)
  | modify (core : Core) (a : Address) (f : Instruction → Instruction) :
    Change core (core.modify a f)
  | resolve (core : Core) (pc : Address) (mode : Mode) (field : Field) :
    Change core (core.resolve pc mode field).2
  | act (core : Core) (w : Warrior) : Change core (w.act core).2.2

/-- The cores that can come up when the texts that `accepts` lets in are read. -/
inductive Obtainable (accepts : String → Prop) : Core → Prop
  | made {size : Nat} {core : Core} : make size = .ok core → Obtainable accepts core
  | standard : Obtainable accepts (blank standardSize.toNat)
  | loaded {programs : List Program} {s : Settings} {arena : Arena} :
    load programs s = .ok arena → Obtainable accepts arena.core
  | read {text : String} {core : Core} : accepts text → parse? text = some core →
    Obtainable accepts core
  | changed {core after : Core} : Obtainable accepts core → Change core after →
    Obtainable accepts after

/-- The text is a record of cells, of which there is at least one. -/
def ListsCell (text : String) : Prop :=
  ∃ v item items, Json.Value.parse? text = some v ∧
    v.record? ["cells"] = some [some (.array (item :: items))]

theorem Change.size_eq {core after : Core} (h : Change core after) : after.size = core.size := by
  cases h with
  | write a i => exact size_write core a i
  | modify a f => exact size_modify core a f
  | resolve pc mode field => exact size_resolve core pc mode field
  | act w => exact w.size_act core

theorem size_pos_of_make {size : Nat} {core : Core} (h : make size = .ok core) :
    0 < core.size := by
  unfold make at h
  split at h
  · cases h
  · rename_i hne
    cases h
    simpa [blank, Core.size] using Nat.pos_of_ne_zero hne

theorem size_pos_of_load {programs : List Program} {s : Settings} {arena : Arena}
    (h : load programs s = .ok arena) : 0 < arena.core.size := by
  obtain ⟨-, hpos, hsize, -⟩ := load_ok h
  rw [hsize]
  exact hpos

theorem length_of_mapM {α β : Type} {f : α → Option β} : ∀ {xs : List α} {ys : List β},
    xs.mapM f = some ys → ys.length = xs.length
  | [], ys, h => by
    obtain rfl : [] = ys := by simpa using h
    rfl
  | x :: xs, ys, h => by
    rw [List.mapM_cons] at h
    obtain ⟨y, -, h⟩ := Option.bind_eq_some_iff.mp h
    obtain ⟨rest, hrest, h⟩ := Option.bind_eq_some_iff.mp h
    obtain rfl : y :: rest = ys := by simpa using h
    rw [List.length_cons, List.length_cons, length_of_mapM hrest]

theorem size_of_ofJson? {v : Json.Value} {core : Core} (h : ofJson? v = some core) :
    ∃ items, v.record? ["cells"] = some [some (.array items)] ∧ core.size = items.length := by
  unfold ofJson? at h
  split at h
  · rename_i cells hrecord
    obtain ⟨is, his, rfl⟩ := Option.map_eq_some_iff.mp h
    obtain ⟨list, rfl, hlist⟩ := Option.bind_eq_some_iff.mp his
    unfold Json.Value.listOf? at hlist
    split at hlist
    · rename_i items
      refine ⟨items, hrecord, ?_⟩
      rw [← length_of_mapM hlist]
      simp [Core.size]
    · cases hlist
  · cases h

theorem size_pos_iff_of_parse? {text : String} {core : Core} (h : parse? text = some core) :
    0 < core.size ↔ ListsCell text := by
  obtain ⟨v, hv, hcore⟩ := Option.bind_eq_some_iff.mp h
  obtain ⟨items, hitems, hsize⟩ := size_of_ofJson? hcore
  rw [hsize]
  constructor
  · intro hpos
    obtain ⟨item, rest, rfl⟩ := List.exists_cons_of_length_pos hpos
    exact ⟨v, item, rest, hv, hitems⟩
  · rintro ⟨v', item, rest, hv', hrest⟩
    obtain rfl : v = v' := Option.some.inj (hv.symm.trans hv')
    obtain rfl : items = item :: rest := by simpa [hitems] using hrest
    simp

/-- All cores have a cell exactly when every text that is let in lists one. -/
theorem obtainable_pos_iff (accepts : String → Prop) :
    (∀ core, Obtainable accepts core → 0 < core.size) ↔
      ∀ text core, accepts text → parse? text = some core → ListsCell text := by
  constructor
  · intro h text core haccepts hread
    exact (size_pos_iff_of_parse? hread).mp (h core (.read haccepts hread))
  · intro h core hcore
    induction hcore with
    | made hmake => exact size_pos_of_make hmake
    | standard => simp [blank, Core.size, standardSize]
    | loaded hload => exact size_pos_of_load hload
    | read haccepts hread => exact (size_pos_iff_of_parse? hread).mpr (h _ _ haccepts hread)
    | changed _ hchange ih =>
      rw [hchange.size_eq]
      exact ih

/-- **Cores keep their cells.** All cores have a cell exactly when every text that is let in
lists one; whatever is done to a core, it keeps their number; and in a core with a cell every
address and every displacement names one. -/
theorem cells_kept (accepts : String → Prop) :
    ((∀ core, Obtainable accepts core → 0 < core.size) ↔
      ∀ text core, accepts text → parse? text = some core → ListsCell text) ∧
    (∀ core after, Change core after → after.size = core.size) ∧
    (∀ core : Core, 0 < core.size → ∀ a, core.index a < core.size ∧
      (core.size < 2 ^ 64 → ∀ delta, (core.offset a delta).toNat < core.size)) := by
  refine ⟨obtainable_pos_iff accepts, fun core after h => h.size_eq, fun core hpos a => ?_⟩
  exact ⟨index_lt hpos a, fun hlt => core.offset_lt hpos hlt a⟩

/-- The reader takes a record with an empty list of cells, so not all cores have a cell. -/
theorem reader_admits_empty : ¬ ∀ core, Obtainable (fun _ => True) core → 0 < core.size := by
  intro h
  have hread : parse? "\x7b\"cells\":[]\x7d" = some ⟨#[]⟩ := by decide +kernel
  exact Nat.lt_irrefl 0 (h _ (.read trivial hread))

end Core
end CoreWar
