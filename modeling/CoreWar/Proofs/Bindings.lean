/-
# Names are bound once

Names are entered one after the other, labels and constants mixed, and an
entry that is refused leaves the table as it was. So a name keeps its first
binding: what the table finds is what stands first in the list of all entries
(`SymbolTable.find?_after`), which is the entry that was granted
(`SymbolTable.lookup_eq_some_iff`). Tables only grow, and as an expression
looks names up and does nothing else with the table, a value or a division by
zero stays; only an unresolved name can still get a binding
(`SymbolTable.Extends.evaluate`).

The table keeps labels and constants in one list, so a name cannot be both.
Kept in two books, where constants are looked up first, it could; but as both
books are searched before an entry is made, the two ways give the same answers
to all entries and the same look-ups (`SymbolTable.split_after`), and in two
books as well no name is ever both.

Key definitions: `Entry`, `SymbolTable.enter`, `SymbolTable.after`,
`SymbolTable.Granted`, `SymbolTable.Extends`, `Books`, `SymbolTable.split`,
`SymbolTable.Steady`.
Key theorems: `SymbolTable.find?_after`, `SymbolTable.lookup_eq_some_iff`,
`SymbolTable.Extends.evaluate`, `SymbolTable.split_enter`,
`SymbolTable.split_after`, `SymbolTable.bound_once`.
-/
import Mathlib.Logic.Function.Basic
import CoreWar.SymbolTable

namespace CoreWar

/-- A name and what it is to be bound to. -/
abbrev Entry := String × Binding

namespace SymbolTable

/-! ### Entries -/

/-- Ask for an entry: the answer, and the table behind it. -/
def enter (t : SymbolTable) (e : Entry) : Except SymbolError Unit × SymbolTable :=
  match t.define e.1 e.2 with
  | .ok u => (.ok (), u)
  | .error err => (.error err, t)

/-- The table behind a list of entries, some of which may have been refused. -/
def after (t : SymbolTable) (entries : List Entry) : SymbolTable :=
  entries.foldl (fun t e => (t.enter e).2) t

/-- Of the entries, in a table without names, number `k` is `e`, and it was granted. -/
def Granted (entries : List Entry) (k : Nat) (e : Entry) : Prop :=
  entries[k]? = some e ∧ ((empty.after (entries.take k)).enter e).1 = .ok ()

variable {t u : SymbolTable} {e : Entry} {entries : List Entry}

theorem enter_of_bound {b : Binding} (h : t.find? e.1 = some b) :
    t.enter e = (.error (.duplicate e.1), t) := by
  simp [enter, define, h]

theorem enter_of_free (h : t.find? e.1 = none) : t.enter e = (.ok (), ⟨e :: t.bindings⟩) := by
  simp [enter, define, h]

theorem enter_eq_ok_iff : (t.enter e).1 = .ok () ↔ t.find? e.1 = none := by
  cases h : t.find? e.1 with
  | none => simp [enter_of_free h]
  | some b => simp [enter_of_bound h]

theorem enter_eq_error_iff {err : SymbolError} :
    (t.enter e).1 = .error err ↔ err = .duplicate e.1 ∧ (t.find? e.1).isSome = true := by
  cases h : t.find? e.1 with
  | none => simp [enter_of_free h]
  | some b => simp [enter_of_bound h, eq_comm]

theorem lookup_cons_entry (e : Entry) (entries : List Entry) (name : String) :
    (e :: entries).lookup name = if name = e.1 then some e.2 else entries.lookup name := by
  obtain ⟨n, b⟩ := e
  by_cases h : name = n
  · simp [h]
  · simp [List.lookup_cons, beq_eq_false_iff_ne.mpr h, h]

theorem find?_enter (name : String) : (t.enter e).2.find? name =
    (t.find? name).or (if name = e.1 then some e.2 else none) := by
  cases h : t.find? e.1 with
  | none =>
    have hfind : (t.enter e).2.find? name = if name = e.1 then some e.2 else t.find? name := by
      rw [enter_of_free h]
      exact lookup_cons_entry e t.bindings name
    rw [hfind]
    by_cases he : name = e.1 <;> simp [he, h]
  | some b =>
    rw [enter_of_bound h]
    by_cases he : name = e.1 <;> simp [he, h]

/-- A table finds what it held before, and otherwise what stands first in the entries. -/
theorem find?_after (t : SymbolTable) (name : String) : ∀ entries : List Entry,
    (t.after entries).find? name = (t.find? name).or (entries.lookup name)
  | [] => by simp [after]
  | e :: entries => by
    show ((t.enter e).2.after entries).find? name = _
    rw [find?_after, find?_enter, Option.or_assoc, lookup_cons_entry]
    by_cases he : name = e.1 <;> simp [he]

theorem find?_empty_after (entries : List Entry) (name : String) :
    (empty.after entries).find? name = entries.lookup name := by
  rw [find?_after]
  rfl

theorem granted_iff {k : Nat} : Granted entries k e ↔
    entries[k]? = some e ∧ (entries.take k).lookup e.1 = none := by
  rw [Granted, enter_eq_ok_iff, find?_empty_after]

/-- What is first in the entries is what was granted. -/
theorem lookup_eq_some_iff {name : String} {b : Binding} :
    entries.lookup name = some b ↔ ∃ k, Granted entries k (name, b) := by
  simp only [granted_iff]
  constructor
  · intro h
    obtain ⟨front, behind, rfl, hfront⟩ := List.lookup_eq_some_iff.mp h
    refine ⟨front.length, by simp, ?_⟩
    rw [List.take_left, List.lookup_eq_none_iff]
    exact hfront
  · rintro ⟨k, hk, hfront⟩
    obtain ⟨hlt, hget⟩ := List.getElem?_eq_some_iff.mp hk
    have hsplit : entries = entries.take k ++ (name, b) :: entries.drop (k + 1) := by
      rw [← hget, List.getElem_cons_drop, List.take_append_drop]
    rw [hsplit, List.lookup_append, hfront]
    simp

/-! ### Tables that grow -/

/-- What `t` finds, `u` finds too. -/
def Extends (u t : SymbolTable) : Prop :=
  ∀ name b, t.find? name = some b → u.find? name = some b

theorem extends_after (t : SymbolTable) (entries : List Entry) : (t.after entries).Extends t := by
  intro name b h
  rw [find?_after, h]
  rfl

/-- An expression for which no name is missing means the same in a table that has grown. -/
theorem Extends.evaluate (h : u.Extends t) (here : Address) : ∀ x : Expression,
    (∀ name, t.evaluate here x ≠ .error (.unresolved name)) →
      u.evaluate here x = t.evaluate here x
  | .literal v, _ => rfl
  | .symbol name, hx => by
    cases hb : t.find? name with
    | none => exact absurd (by simp [evaluate_symbol_eq, hb]) (hx name)
    | some b => simp [evaluate_symbol_eq, hb, h name b hb]
  | .binary op left right, hx => by
    rw [evaluate_binary_eq] at hx ⊢
    rw [evaluate_binary_eq]
    cases hl : t.evaluate here left with
    | error err =>
      rw [h.evaluate here left (by simpa [hl, Except.bind] using hx), hl]
      rfl
    | ok x =>
      rw [h.evaluate here left (by simp [hl]), hl]
      cases hr : t.evaluate here right with
      | error err =>
        rw [h.evaluate here right (by simpa [hl, hr, Except.bind] using hx), hr]
      | ok y => rw [h.evaluate here right (by simp [hr]), hr]

end SymbolTable

/-! ### Two books -/

/-- Labels and constants kept apart. A name could stand in both. -/
@[ext] structure Books where
  labels : String → Option Address
  constants : String → Option Field

namespace Books

def empty : Books := ⟨fun _ => none, fun _ => none⟩

/-- The name stands in one of the books. -/
def has (s : Books) (name : String) : Bool := (s.labels name).isSome || (s.constants name).isSome

/-- Put a name down in the book that it belongs to. -/
def insert (s : Books) (name : String) : Binding → Books
  | .label a => { s with labels := Function.update s.labels name (some a) }
  | .constant v => { s with constants := Function.update s.constants name (some v) }

/-- Ask for an entry: the answer, and the books behind it. -/
def enter (s : Books) (e : Entry) : Except SymbolError Unit × Books :=
  if s.has e.1 then (.error (.duplicate e.1), s) else (.ok (), s.insert e.1 e.2)

/-- The books behind a list of entries, some of which may have been refused. -/
def after (s : Books) (entries : List Entry) : Books := entries.foldl (fun s e => (s.enter e).2) s

/-- What a name stands for at the address `here`: constants are looked up first. -/
def resolve? (s : Books) (name : String) (here : Address) : Option Field :=
  (s.constants name).or ((s.labels name).map fun a => a.toInt64 - here.toInt64)

end Books

namespace SymbolTable

/-- The table in two books. -/
def split (t : SymbolTable) : Books := ⟨t.label?, t.constant?⟩

theorem label?_or_constant? (t : SymbolTable) (name : String) :
    t.label? name = none ∨ t.constant? name = none := by
  unfold label? constant?
  cases t.find? name with
  | none => exact .inl rfl
  | some b => cases b <;> simp

theorem has_split (t : SymbolTable) (name : String) : t.split.has name = (t.find? name).isSome := by
  simp only [Books.has, split, label?, constant?]
  cases t.find? name with
  | none => rfl
  | some b => cases b <;> rfl

theorem resolve?_split (t : SymbolTable) (name : String) (here : Address) :
    t.split.resolve? name here = t.resolve? name here := by
  simp only [Books.resolve?, split, label?, constant?, resolve?]
  cases t.find? name with
  | none => rfl
  | some b => cases b <;> rfl

/-- Look-ups in the two books are those of the table. -/
theorem split_congr {t u : SymbolTable} {name : String} (h : u.find? name = t.find? name) :
    u.split.labels name = t.split.labels name ∧
      u.split.constants name = t.split.constants name := by
  simp only [split, label?, constant?, h, and_self]

theorem split_enter_of_free {t : SymbolTable} {e : Entry} (h : t.find? e.1 = none) :
    (t.enter e).2.split = t.split.insert e.1 e.2 := by
  have hown : (t.enter e).2.find? e.1 = some e.2 := by simp [find?_enter, h]
  have hothers (name : String) (hne : name ≠ e.1) := split_congr
    (show (t.enter e).2.find? name = t.find? name by simp [find?_enter, hne])
  obtain ⟨n, b⟩ := e
  ext1 <;> funext name <;> by_cases hn : name = n
  · subst hn
    cases b <;> simp [split, Books.insert, label?, hown, h]
  · rw [(hothers name hn).1]
    cases b <;> simp [Books.insert, hn]
  · subst hn
    cases b <;> simp [split, Books.insert, constant?, hown, h]
  · rw [(hothers name hn).2]
    cases b <;> simp [Books.insert, hn]

/-- **An entry into the table is an entry into the books,** with the same answer. -/
theorem split_enter (t : SymbolTable) (e : Entry) :
    t.split.enter e = ((t.enter e).1, (t.enter e).2.split) := by
  rw [Books.enter, has_split]
  cases h : t.find? e.1 with
  | none => simp [← split_enter_of_free h, enter_of_free h]
  | some b => simp [enter_of_bound h]

theorem split_after (t : SymbolTable) : ∀ entries : List Entry,
    t.split.after entries = (t.after entries).split
  | [] => rfl
  | e :: entries => by
    show (t.split.enter e).2.after entries = ((t.enter e).2.after entries).split
    rw [split_enter, split_after]

/-! ### Names keep their bindings -/

/-- What holds of the table `t`, and of the books `s`, behind a list of entries. -/
structure Steady (entries : List Entry) (t : SymbolTable) (s : Books) : Prop where
  /-- No name is both a label and a constant, -/
  apart : ∀ name, t.label? name = none ∨ t.constant? name = none
  /-- and in two books none stands in both. -/
  apart_in_books : ∀ name, s.labels name = none ∨ s.constants name = none
  /-- Table and books find the same, -/
  finds : ∀ name, s.labels name = t.label? name ∧ s.constants name = t.constant? name ∧
    ∀ here, s.resolve? name here = t.resolve? name here
  /-- and give the same answer to the next entry. -/
  answers : ∀ e, (s.enter e).1 = (t.enter e).1
  /-- It is refused when its name was bound by an entry that was granted, -/
  refused_iff : ∀ e, (t.enter e).1 = .error (.duplicate e.1) ↔ ∃ k b, Granted entries k (e.1, b)
  /-- and for no other reason, and then the table stays as it is. -/
  refused : ∀ e err, (t.enter e).1 = .error err → err = .duplicate e.1 ∧ (t.enter e).2 = t
  /-- If it is granted, its name is bound to what it says, -/
  own : ∀ e, (t.enter e).1 = .ok () → (t.enter e).2.find? e.1 = some e.2
  /-- and look-ups of other names stay. -/
  others : ∀ e name, name ≠ e.1 → (t.enter e).2.label? name = t.label? name ∧
    (t.enter e).2.constant? name = t.constant? name ∧
    ∀ here, (t.enter e).2.resolve? name here = t.resolve? name here
  /-- A value and a division by zero are not changed by further entries. -/
  lasting : ∀ here x,
    ((∃ v, t.evaluate here x = .ok v) ∨ t.evaluate here x = .error .divisionByZero) →
      ∀ more, (t.after more).evaluate here x = t.evaluate here x

/-- **Names are bound once, and values last.** This holds behind every list of entries, granted
and refused ones. -/
theorem bound_once (entries : List Entry) :
    Steady entries (empty.after entries) (Books.empty.after entries) := by
  have hbooks : Books.empty.after entries = (empty.after entries).split := split_after empty entries
  rw [hbooks]
  refine {
    apart := label?_or_constant? _
    apart_in_books := label?_or_constant? _
    finds := fun name => ⟨rfl, rfl, resolve?_split _ name⟩
    answers := fun e => by rw [split_enter]
    refused_iff := fun e => ?_
    refused := fun e err h => ?_
    own := fun e h => ?_
    others := fun e name hne => ?_
    lasting := fun here x hx more => ?_ }
  · rw [enter_eq_error_iff, find?_empty_after, Option.isSome_iff_exists, exists_comm]
    simp only [lookup_eq_some_iff, true_and]
  · obtain ⟨rfl, hbound⟩ := enter_eq_error_iff.mp h
    obtain ⟨b, hb⟩ := Option.isSome_iff_exists.mp hbound
    rw [enter_of_bound hb]
    exact ⟨rfl, rfl⟩
  · rw [find?_enter, enter_eq_ok_iff.mp h]
    simp
  · have hfind : ((empty.after entries).enter e).2.find? name =
        (empty.after entries).find? name := by
      simp [find?_enter, hne]
    simp only [label?, constant?, resolve?, hfind, implies_true, and_self]
  · refine (extends_after _ more).evaluate here x fun name hunresolved => ?_
    rcases hx with ⟨v, hv⟩ | hzero
    · simp [hv] at hunresolved
    · simp [hzero] at hunresolved

end SymbolTable
end CoreWar
