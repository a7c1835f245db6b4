/-
# Programs survive being printed

The text of a program is read back as the same program exactly when no field
expression in it has more than 125 operations inside each other; a program
with a deeper one is refused (`Program.text_round_trip`). That is the limit of
127 open arrays and objects less the array of the statements and the record of
the statement.

An expression is checked twice, once for what is open at a time (`isSound`)
and once for its shape (`ofSound?`); both follow its depth
(`Expression.isSound_toJson`, `Expression.ofSound?_toJson`).

Key definitions: `Expression.depth`.
Key theorems: `Expression.ofJson?_toJson`, `Statement.ofJson?_toJson`,
`Program.ofJson?_toJson`, `Program.text_round_trip`.
-/
import CoreWar.Codec.Program
import CoreWar.Proofs.Json.Records

namespace CoreWar

open Json (required optional)

/-! ### Tags -/

theorem Operator.ofJson?_toJson (o : Operator) : ofJson? o.toJson = some o := by
  cases o <;> rfl

theorem Mode.ofJson?_toJson (m : Mode) : ofJson? m.toJson = some m := by
  cases m <;> rfl

theorem Mnemonic.ofJson?_toJson (m : Mnemonic) : ofJson? m.toJson = some m := by
  cases m with
  | op o => cases o <;> rfl
  | equ => rfl
  | finish => rfl

/-! ### Expressions -/

namespace Expression

/-- How many operations stand inside each other. -/
def depth : Expression → Nat
  | literal _ | symbol _ => 0
  | binary _ left right => max left.depth right.depth + 1

theorem integral_toJson (e : Expression) : e.toJson.Integral := by
  induction e with
  | literal v => exact .ofInt _
  | symbol name => exact .string _
  | binary op left right hleft hright =>
    refine .ofRecord ?_
    simp only [List.forall_mem_cons]
    exact ⟨.string _, hleft, hright, by simp⟩

/-- Each operation opens one object. -/
theorem isSound_toJson (e : Expression) (room : Nat) :
    e.toJson.isSound room = decide (e.depth ≤ room) := by
  induction e generalizing room with
  | literal v => simp [toJson, depth, Json.Value.isSound_ofField]
  | symbol name => simp [toJson, depth, Json.Value.ofText, Json.Value.isSound]
  | binary op left right hleft hright =>
    cases room with
    | zero => simp [toJson, depth, Json.Value.ofRecord, Json.Value.isSound]
    | succ room =>
      have hop : op.toJson.isSound room = true := by
        simp [Operator.toJson, Json.Value.ofText, Json.Value.isSound]
      simp [toJson, depth, Json.Value.ofRecord, Json.Value.isSound, hop, hleft, hright]

theorem ofSound?_toJson (e : Expression) {room : Nat} (h : e.depth ≤ room) :
    ofSound? room e.toJson = some e := by
  induction e generalizing room with
  | literal v =>
    have hread := Json.Value.field?_ofField v
    simpa [toJson, Json.Value.ofField, Json.Value.ofInt, ofSound?] using hread
  | symbol name => simp [toJson, Json.Value.ofText, ofSound?]
  | binary op left right hleft hright =>
    cases room with
    | zero => simp [depth] at h
    | succ room =>
      have hdepth : left.depth ≤ room ∧ right.depth ≤ room := by
        rw [depth] at h
        omega
      have hkeys : ([("operator", op.toJson), ("left", left.toJson),
          ("right", right.toJson)].map Prod.fst).Nodup := by
        simp
      have hfields := Json.Value.fields?_map_some hkeys ["operator", "left", "right"]
      unfold toJson Json.Value.ofRecord ofSound?
      rw [hfields]
      simp [List.lookup_cons, Operator.ofJson?_toJson, hleft hdepth.1, hright hdepth.2]

/-- A printed expression comes back when its depth fits, and is refused otherwise. -/
theorem ofJson?_toJson (e : Expression) (room : Nat) :
    ofJson? room e.toJson = if e.depth ≤ room then some e else none := by
  unfold ofJson?
  rw [isSound_toJson]
  by_cases h : e.depth ≤ room
  · simp [h, ofSound?_toJson e h]
  · simp [h]

end Expression

/-! ### Statements -/

namespace Statement

/-- The fields of a printed statement, with what is left out. -/
theorem record?_toJson (s : Statement) :
    s.toJson.record? fieldNames = some [some s.mnemonic.toJson, s.label.map .ofText,
      s.comment.map .ofText, some s.aMode.toJson, some s.aField.toJson, some s.bMode.toJson,
      some s.bField.toJson] := by
  unfold toJson
  cases s.label <;> cases s.comment <;>
    exact Json.Value.record?_ofRecord (by simp [textField]) fieldNames

theorem optional_text (text : Option String) :
    optional none (Json.Value.nullable? Json.Value.text?) (text.map .ofText) = some text := by
  cases text <;> rfl

/-- A printed statement comes back when both fields fit, and is refused otherwise. -/
theorem ofJson?_toJson (s : Statement) (room : Nat) :
    ofJson? room s.toJson =
      if s.aField.depth ≤ room - 1 ∧ s.bField.depth ≤ room - 1 then some s else none := by
  unfold ofJson?
  rw [record?_toJson]
  simp only [Json.required_some, Json.optional_some, optional_text, Mnemonic.ofJson?_toJson,
    Mode.ofJson?_toJson, Expression.ofJson?_toJson]
  by_cases ha : s.aField.depth ≤ room - 1
  · by_cases hb : s.bField.depth ≤ room - 1
    · rw [if_pos ha, if_pos hb, if_pos ⟨ha, hb⟩]
      rfl
    · have hnot : ¬ (s.aField.depth ≤ room - 1 ∧ s.bField.depth ≤ room - 1) := fun h => hb h.2
      rw [if_pos ha, if_neg hb, if_neg hnot]
      rfl
  · have hnot : ¬ (s.aField.depth ≤ room - 1 ∧ s.bField.depth ≤ room - 1) := fun h => ha h.1
    rw [if_neg ha, if_neg hnot]
    rfl

theorem integral_textField (name : String) (text : Option String) :
    ∀ f ∈ textField name text, f.2.Integral := by
  intro f hf
  obtain ⟨t, -, rfl⟩ := Option.map_eq_some_iff.mp (Option.mem_toList.mp hf)
  exact .string _

theorem integral_toJson (s : Statement) : s.toJson.Integral := by
  refine .ofRecord ?_
  simp only [List.forall_mem_append, List.forall_mem_cons]
  exact ⟨⟨⟨⟨.string _, by simp⟩, integral_textField _ _⟩, integral_textField _ _⟩, .string _,
    s.aField.integral_toJson, .string _, s.bField.integral_toJson, by simp⟩

end Statement

/-! ### Programs -/

namespace Program

theorem ofJson?_toJson (p : Program) (room : Nat) :
    ofJson? room p.toJson =
      if ∀ s ∈ p, s.aField.depth ≤ room - 2 ∧ s.bField.depth ≤ room - 2 then some p else none :=
  Json.Value.listOf?_ofList (Statement.ofJson?_toJson · (room - 1)) p

theorem integral_toJson (p : Program) : p.toJson.Integral :=
  .ofList fun s _ => s.integral_toJson

/-- The printed text of a program, compact or indented, is read back as the
program when no field has more than 125 operations inside each other, and is
refused when one has. -/
theorem text_round_trip (p : Program) :
    parse? p.toJson.compact =
        (if ∀ s ∈ p, s.aField.depth ≤ 125 ∧ s.bField.depth ≤ 125 then some p else none) ∧
      parse? p.toJson.indented =
        (if ∀ s ∈ p, s.aField.depth ≤ 125 ∧ s.bField.depth ≤ 125 then some p else none) := by
  have hread := ofJson?_toJson p Json.depthLimit
  unfold parse?
  rw [Json.Value.parse?_compact p.integral_toJson, Json.Value.parse?_indented p.integral_toJson]
  exact ⟨hread, hread⟩

end Program

end CoreWar
