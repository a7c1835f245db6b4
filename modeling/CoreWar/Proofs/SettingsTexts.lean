/-
# Settings from their texts

A text of settings may give any of them, in any order. Each setting it gives
replaces the standard one, and that is all it does, so reading the text comes
to the same as starting from the standard settings and calling the builders
(`Settings.text_agrees`). Null takes a value away: a cycle limit of null is no
limit, and only a missing one is the standard limit.

The reader looks at the five fields one after the other, and the builders come
in the order of the text. Between the two stands a reader over any settings
(`Settings.readOver`): the first field of the text can be left out when its
setting is put into what is read over (`Settings.readOver_cons`). The values
that the reader has for missing fields of its own are those of the standard
settings (`Settings.ofJson?_ofRecord`).

Key definitions: `Setting`, `Settings.give`, `Settings.readOver`.
Key theorems: `Settings.readOver_cons`, `Settings.foldl_give_perm`,
`Settings.text_agrees`.
-/
import CoreWar.Codec.Settings
import CoreWar.Proofs.Json.Records

namespace CoreWar

open Json (Spells Survives optional)

/-- A value for one of the settings. -/
inductive Setting
  | coreSize (size : UInt64)
  | cycleLimit (limit : Option UInt64)
  | startPositions (positions : Option (List Address))
  | baseOffset (offset : Address)
  | seed (n : Option UInt64)
  deriving DecidableEq

namespace Setting

def key : Setting → String
  | coreSize _ => "core_size"
  | cycleLimit _ => "cycle_limit"
  | startPositions _ => "start_positions"
  | baseOffset _ => "base_offset"
  | seed _ => "seed"

def value : Setting → Json.Value
  | coreSize size => .ofWord size
  | cycleLimit limit => .ofOption .ofWord limit
  | startPositions positions => .ofOption (.ofList .ofWord) positions
  | baseOffset offset => .ofWord offset
  | seed n => .ofOption .ofWord n

/-- The field that gives the setting in a record. -/
def field (g : Setting) : String × Json.Value := (g.key, g.value)

end Setting

/-! ### Numbers and lists of numbers that may be null -/

namespace Json.Survives

theorem limit : Survives (Value.ofOption Value.ofWord) (Value.nullable? Value.word?) :=
  word.option rfl

theorem positions : Survives (Value.ofOption (Value.ofList Value.ofWord))
    (Value.nullable? (Value.listOf? Value.word?)) :=
  word.list.option rfl

end Json.Survives

theorem Setting.integral_value (g : Setting) : g.value.Integral := by
  cases g with
  | coreSize size => exact Survives.word.integral size
  | cycleLimit limit => exact Survives.limit.integral limit
  | startPositions positions => exact Survives.positions.integral positions
  | baseOffset offset => exact Survives.word.integral offset
  | seed n => exact Survives.limit.integral n

namespace Settings

/-! ### Replacing settings -/

/-- Replace one of the settings. There are builders for all but the two nulls that no builder
gives. -/
def give (s : Settings) : Setting → Settings
  | .coreSize size => s.withCoreSize size
  | .cycleLimit limit => s.withCycleLimit limit
  | .startPositions (some positions) => s.withStartPositions positions
  | .startPositions none => { s with startPositions := none }
  | .baseOffset offset => s.withBaseOffset offset
  | .seed (some n) => s.withSeed n
  | .seed none => { s with seed := none }

section Give

variable (s : Settings)

@[simp] theorem give_coreSize (size : UInt64) :
    s.give (.coreSize size) = { s with coreSize := size } := rfl

@[simp] theorem give_cycleLimit (limit : Option UInt64) :
    s.give (.cycleLimit limit) = { s with cycleLimit := limit } := rfl

@[simp] theorem give_startPositions (positions : Option (List Address)) :
    s.give (.startPositions positions) = { s with startPositions := positions } := by
  cases positions <;> rfl

@[simp] theorem give_baseOffset (offset : Address) :
    s.give (.baseOffset offset) = { s with baseOffset := offset } := rfl

@[simp] theorem give_seed (n : Option UInt64) : s.give (.seed n) = { s with seed := n } := by
  cases n <;> rfl

theorem give_comm {g g' : Setting} (h : g.key ≠ g'.key) :
    (s.give g).give g' = (s.give g').give g := by
  cases g <;> cases g' <;> first
    | exact absurd rfl h
    | simp only [give_coreSize, give_cycleLimit, give_startPositions, give_baseOffset, give_seed]

end Give

/-- Different settings can be replaced in any order. -/
theorem foldl_give_perm {given ordered : List Setting} (h : (given.map Setting.key).Nodup)
    (hperm : given.Perm ordered) (s : Settings) : given.foldl give s = ordered.foldl give s := by
  refine hperm.foldl_eq' (fun g hg g' hg' s => ?_) s
  by_cases hkey : g.key = g'.key
  · rw [List.inj_on_of_nodup_map h hg hg' hkey]
  · exact s.give_comm hkey

/-! ### Reading -/

/-- Read the fields of a record, with the settings of `base` for those that are missing. -/
def readOver (base : Settings) (fields : List (String × Json.Value)) : Option Settings := do
  let coreSize ← optional base.coreSize Json.Value.word? (fields.lookup "core_size")
  let cycleLimit ← optional base.cycleLimit (Json.Value.nullable? Json.Value.word?)
    (fields.lookup "cycle_limit")
  let startPositions ← optional base.startPositions
    (Json.Value.nullable? (Json.Value.listOf? Json.Value.word?)) (fields.lookup "start_positions")
  let baseOffset ← optional base.baseOffset Json.Value.word? (fields.lookup "base_offset")
  let seed ← optional base.seed (Json.Value.nullable? Json.Value.word?) (fields.lookup "seed")
  return { coreSize, cycleLimit, startPositions, baseOffset, seed }

/-- A record is read over the standard settings. -/
theorem ofJson?_ofRecord {fields : List (String × Json.Value)}
    (h : (fields.map Prod.fst).Nodup) :
    ofJson? (.ofRecord fields) = standard.readOver fields := by
  unfold ofJson?
  rw [Json.Value.record?_ofRecord h fieldNames]
  rfl

theorem readOver_nil (base : Settings) : base.readOver [] = some base := rfl

/-- The first field replaces its setting. -/
theorem readOver_cons {g : Setting} {fields : List (String × Json.Value)}
    (h : g.key ∉ fields.map Prod.fst) (base : Settings) :
    base.readOver (g.field :: fields) = (base.give g).readOver fields := by
  have hlater : fields.lookup g.key = none := by
    refine List.lookup_eq_none_iff.mpr fun f hf => ?_
    have hne : f.1 ≠ g.key := fun he => h (he ▸ List.mem_map_of_mem hf)
    simpa using hne.symm
  have hfield (name : String) : (g.field :: fields).lookup name =
      if name == g.key then some g.value else fields.lookup name := by
    rw [Setting.field, List.lookup_cons]
    cases name == g.key <;> rfl
  unfold readOver
  simp only [hfield]
  cases g with
  | coreSize size =>
    have hlater' : fields.lookup "core_size" = none := hlater
    simp [Setting.key, Setting.value, hlater', Survives.word.optional_write]
  | cycleLimit limit =>
    have hlater' : fields.lookup "cycle_limit" = none := hlater
    simp [Setting.key, Setting.value, hlater', Survives.limit.optional_write]
  | startPositions positions =>
    have hlater' : fields.lookup "start_positions" = none := hlater
    simp [Setting.key, Setting.value, hlater', Survives.positions.optional_write]
  | baseOffset offset =>
    have hlater' : fields.lookup "base_offset" = none := hlater
    simp [Setting.key, Setting.value, hlater', Survives.word.optional_write]
  | seed n =>
    have hlater' : fields.lookup "seed" = none := hlater
    simp [Setting.key, Setting.value, hlater', Survives.limit.optional_write]

theorem readOver_fields {given : List Setting} (h : (given.map Setting.key).Nodup)
    (base : Settings) : base.readOver (given.map Setting.field) = some (given.foldl give base) := by
  induction given generalizing base with
  | nil => exact readOver_nil base
  | cons g given ih =>
    obtain ⟨hg, hgiven⟩ := List.nodup_cons.mp h
    have hkeys : (given.map Setting.field).map Prod.fst = given.map Setting.key := by
      rw [List.map_map]
      rfl
    rw [List.map_cons, readOver_cons (by rwa [hkeys]), ih hgiven, List.foldl_cons]

/-- A record that gives settings, in any order, is read as the standard settings with these
replaced. -/
theorem ofJson?_given {given ordered : List Setting} (h : (given.map Setting.key).Nodup)
    (hperm : given.Perm ordered) :
    ofJson? (.ofRecord (ordered.map Setting.field)) = some (given.foldl give standard) := by
  have hkeys : (ordered.map Setting.key).Nodup := (hperm.map Setting.key).nodup_iff.mp h
  have hfields : ((ordered.map Setting.field).map Prod.fst).Nodup := by
    rw [List.map_map]
    exact hkeys
  rw [ofJson?_ofRecord hfields, readOver_fields hkeys, foldl_give_perm h hperm]

theorem integral_given (given : List Setting) :
    (Json.Value.ofRecord (given.map Setting.field)).Integral := by
  refine .ofRecord fun f hf => ?_
  obtain ⟨g, -, rfl⟩ := List.mem_map.mp hf
  exact g.integral_value

/-! ### All settings -/

/-- Every setting with its value. -/
def all (s : Settings) : List Setting :=
  [.coreSize s.coreSize, .cycleLimit s.cycleLimit, .startPositions s.startPositions,
    .baseOffset s.baseOffset, .seed s.seed]

theorem toJson_eq (s : Settings) : s.toJson = .ofRecord (s.all.map Setting.field) := rfl

theorem foldl_give_all (s base : Settings) : s.all.foldl give base = s := by
  simp [all]

theorem survives : Survives toJson ofJson? where
  read_write s := by
    have hkeys : (s.all.map Setting.key).Nodup := by
      simp [all, Setting.key]
    rw [toJson_eq, ofJson?_given hkeys (.refl _), foldl_give_all]
  integral s := integral_given s.all

/-- **The text of settings says what the builders do.** A text that gives some of the settings,
each once and in any order, is read as the standard settings with these replaced; and printed
settings, compact or indented, are read back, with no limit as no limit. -/
theorem text_agrees :
    (∀ (given ordered : List Setting) (text : String), (given.map Setting.key).Nodup →
      given.Perm ordered →
      Spells (Json.Value.ofRecord (ordered.map Setting.field)).tokens text.toList →
        parse? text = some (given.foldl give standard)) ∧
    (∀ s : Settings, parse? s.toJson.compact = some s ∧ parse? s.toJson.indented = some s) := by
  refine ⟨fun given ordered text hkeys hperm htext => ?_, fun s =>
    ⟨survives.parse?_compact s, survives.parse?_indented s⟩⟩
  have hvalue := Json.Value.parse?_of_spells (integral_given ordered) htext
  rw [String.ofList_toList] at hvalue
  rw [parse?, hvalue]
  exact ofJson?_given hkeys hperm

/-- No limit, no seed and another size, with the fields in another order than the settings. -/
theorem text_agrees_unlimited :
    parse? (Json.Value.ofRecord
        ([Setting.seed none, .coreSize 100, .cycleLimit none].map Setting.field)).indented =
      some { coreSize := 100, cycleLimit := none } := by
  have htext (v : Json.Value) : Spells v.tokens v.indented.toList := by
    unfold Json.Value.indented
    rw [String.toList_ofList]
    exact Spells.indent v.tokens
  have hread := text_agrees.1 [.coreSize 100, .cycleLimit none, .seed none]
    [.seed none, .coreSize 100, .cycleLimit none] _ (by simp [Setting.key]) (by decide) (htext _)
  rw [hread]
  simp [standard]

end Settings

end CoreWar
