/-
# Reading printed records

What the printed layouts give back: a record each of its fields
(`Value.record?_ofRecord`), a number itself (`Value.field?_ofField`,
`Value.word?_ofWord`), a list its items, unless one of them is refused
(`Value.listOf?_ofList`).

Where nothing is refused a printer and its reader are a pair (`Survives`), and
the pair for lists and for what may be null is made from the pair for what is
inside. Whatever such a pair prints is read back from its text
(`Survives.parse?_compact`, `Survives.parse?_indented`).

Key definitions: `Survives`.
Key theorems: `Value.record?_ofRecord`, `Value.field?_ofField`,
`Value.listOf?_ofList`, `Value.Integral.ofRecord`, `Survives.list`,
`Survives.option`, `Survives.parse?_compact`.
-/
import Mathlib.Data.List.Nodup
import CoreWar.Proofs.Json.Values

namespace CoreWar.Json

@[simp] theorem required_some {α : Type} (read : Value → Option α) (v : Value) :
    required read (some v) = read v := rfl

@[simp] theorem optional_none {α : Type} (x : α) (read : Value → Option α) :
    optional x read none = some x := rfl

@[simp] theorem optional_some {α : Type} (x : α) (read : Value → Option α) (v : Value) :
    optional x read (some v) = read v := rfl

namespace Value

/-! ### Records -/

theorem lookup_map_some (fields : List (String × Value)) (n : String) :
    (fields.map fun f => ((some f.1 : Literal), f.2)).lookup (some n) = fields.lookup n := by
  induction fields with
  | nil => rfl
  | cons f fields ih =>
    obtain ⟨k, v⟩ := f
    simp [List.lookup_cons, ih]

theorem fields?_map_some {fields : List (String × Value)} (h : (fields.map Prod.fst).Nodup)
    (names : List String) :
    fields? names (fields.map fun f => (some f.1, f.2)) =
      some (names.map fun n => fields.lookup n) := by
  have honce : ∀ n, fields.countP (·.1 == n) ≤ 1 := by
    intro n
    have hcount := List.nodup_iff_count_le_one.mp h n
    rwa [List.count, List.countP_map] at hcount
  unfold fields?
  rw [if_pos]
  · simp only [lookup_map_some]
  · simpa [List.countP_map, Function.comp_def] using fun n _ => honce n

/-- A printed record gives its fields by name. -/
theorem record?_ofRecord {fields : List (String × Value)} (h : (fields.map Prod.fst).Nodup)
    (names : List String) :
    (ofRecord fields).record? names = some (names.map fun n => fields.lookup n) :=
  fields?_map_some h names

theorem map_lookup_keys {fields : List (String × Value)} (h : (fields.map Prod.fst).Nodup) :
    (fields.map Prod.fst).map (fun n => fields.lookup n) = fields.map fun f => some f.2 := by
  induction fields with
  | nil => rfl
  | cons f fields ih =>
    obtain ⟨hf, hfields⟩ := List.nodup_cons.mp h
    have hlater : ∀ n ∈ fields.map Prod.fst, (f :: fields).lookup n = fields.lookup n := by
      intro n hn
      have hne : n ≠ f.1 := by
        rintro rfl
        exact hf hn
      rw [List.lookup_cons, beq_false_of_ne hne]
    have hhead : (f :: fields).lookup f.1 = some f.2 := by
      rw [List.lookup_cons, beq_self_eq_true]
    rw [List.map_cons, List.map_cons, List.map_cons, hhead, List.map_congr_left hlater, ih hfields]

/-- A record with exactly the fields that are asked for gives their values in order. -/
theorem record?_keys {fields : List (String × Value)} (h : (fields.map Prod.fst).Nodup) :
    (ofRecord fields).record? (fields.map Prod.fst) = some (fields.map fun f => some f.2) := by
  rw [record?_ofRecord h, map_lookup_keys h]

theorem Integral.ofRecord {fields : List (String × Value)} (h : ∀ f ∈ fields, f.2.Integral) :
    (ofRecord fields).Integral := by
  refine .object fun f hf => ?_
  obtain ⟨g, hg, rfl⟩ := List.mem_map.mp hf
  exact h g hg

/-! ### Numbers -/

/-- A signed number comes back. -/
theorem field?_ofField (f : Field) : (ofField f).field? = some f := by
  have hinteger : (ofField f).integer? = some f.toInt := Numeral.integer?_ofInt f.toInt
  unfold field?
  rw [hinteger, Option.bind_some, if_pos ⟨f.minValue_le_toInt, f.toInt_le⟩, Int64.ofInt_toInt]

/-- An unsigned number comes back. -/
theorem word?_ofWord (n : UInt64) : (ofWord n).word? = some n := by
  have hinteger : (ofWord n).integer? = some (n.toNat : Int) := Numeral.integer?_ofInt n.toNat
  have hrange : (0 : Int) ≤ n.toNat ∧ (n.toNat : Int) < UInt64.size :=
    ⟨Int.natCast_nonneg _, Int.ofNat_lt.mpr n.toNat_lt⟩
  unfold word?
  rw [hinteger, Option.bind_some, if_pos hrange, Int.toNat_natCast, UInt64.ofNat_toNat]

/-- A signed number is readable. -/
theorem isSound_ofField (f : Field) (room : Nat) : (ofField f).isSound room = true := by
  have hlow := f.le_toInt
  have hhigh := f.toInt_lt
  have hfits : f.toInt.natAbs < UInt64.size := by
    have hsize : UInt64.size = 2 ^ 64 := rfl
    omega
  simpa [ofField, ofInt, isSound] using Numeral.isFinite_ofInt hfits

/-! ### Lists -/

/-- A printed list comes back when every item does, and is refused when one item is. -/
theorem listOf?_ofList {α : Type} {write : α → Value} {read : Value → Option α} {P : α → Prop}
    [DecidablePred P] (hitem : ∀ x, read (write x) = if P x then some x else none) (xs : List α) :
    (ofList write xs).listOf? read = if ∀ x ∈ xs, P x then some xs else none := by
  show (xs.map write).mapM read = _
  induction xs with
  | nil => simp
  | cons x xs ih =>
    rw [List.map_cons, List.mapM_cons, hitem, ih]
    by_cases hx : P x
    · by_cases hxs : ∀ y ∈ xs, P y
      · have hall : ∀ y ∈ x :: xs, P y := List.forall_mem_cons.mpr ⟨hx, hxs⟩
        rw [if_pos hx, if_pos hxs, if_pos hall]
        rfl
      · have hsome : ¬ ∀ y ∈ x :: xs, P y := fun h => hxs (List.forall_mem_cons.mp h).2
        rw [if_pos hx, if_neg hxs, if_neg hsome]
        rfl
    · have hsome : ¬ ∀ y ∈ x :: xs, P y := fun h => hx (List.forall_mem_cons.mp h).1
      rw [if_neg hx, if_neg hsome]
      rfl

theorem Integral.ofList {α : Type} {write : α → Value} {xs : List α}
    (h : ∀ x ∈ xs, (write x).Integral) : (ofList write xs).Integral := by
  refine .array fun v hv => ?_
  obtain ⟨x, hx, rfl⟩ := List.mem_map.mp hv
  exact h x hx

end Value

/-! ### Printers and their readers -/

/-- What `write` prints comes back through `read`, and its numbers are integers. -/
structure Survives {α : Type} (write : α → Value) (read : Value → Option α) : Prop where
  read_write : ∀ x, read (write x) = some x
  integral : ∀ x, (write x).Integral

namespace Survives

theorem word : Survives Value.ofWord Value.word? :=
  ⟨Value.word?_ofWord, fun n => .ofInt n.toNat⟩

theorem field : Survives Value.ofField Value.field? :=
  ⟨Value.field?_ofField, fun f => .ofInt f.toInt⟩

theorem bool : Survives Value.bool Value.bool? := ⟨fun _ => rfl, .bool⟩

section

variable {α : Type} {write : α → Value} {read : Value → Option α} (h : Survives write read)

include h

/-- A field that must be given is given by what is printed. -/
theorem required_write (x : α) : required read (some (write x)) = some x := h.read_write x

/-- What is printed comes before the value for the missing field. -/
theorem optional_write (missing x : α) : optional missing read (some (write x)) = some x :=
  h.read_write x

theorem list : Survives (Value.ofList write) (Value.listOf? read) where
  read_write xs := by
    have hitem : ∀ x, read (write x) = if True then some x else none := by
      simpa using h.read_write
    simpa using Value.listOf?_ofList hitem xs
  integral xs := .ofList fun x _ => h.integral x

/-- What may be null, if null is not among what is printed. -/
theorem option (hnull : read .null = none) :
    Survives (Value.ofOption write) (Value.nullable? read) where
  read_write x := by
    cases x with
    | none => rfl
    | some x =>
      have hread := h.read_write x
      have hne : write x ≠ .null := by
        intro hv
        rw [hv, hnull] at hread
        cases hread
      show (write x).nullable? read = some (some x)
      unfold Value.nullable?
      split
      · contradiction
      · rw [hread, Option.map_some]
  integral x := by
    cases x with
    | none => exact .null
    | some x => exact h.integral x

theorem parse?_of_spells {x : α} {cs : List Char} (hcs : Spells (write x).tokens cs) :
    (Value.parse? (String.ofList cs)).bind read = some x := by
  rw [Value.parse?_of_spells (h.integral x) hcs, Option.bind_some, h.read_write]

/-- The compact text of a value is read back as the value. -/
theorem parse?_compact (x : α) : (Value.parse? (write x).compact).bind read = some x :=
  h.parse?_of_spells (Spells.compact _)

/-- The indented text of a value is read back as the value. -/
theorem parse?_indented (x : α) : (Value.parse? (write x).indented).bind read = some x :=
  h.parse?_of_spells (Spells.indent _)

end

end Survives

end CoreWar.Json
