/-
# Reading printed values

The tokens that spell a value build that value (`Value.ofTokens?_tokens`), and
two bare words never touch in them (`Value.isChain_tokens`). So a value whose
numbers are integers is read back from either printed form
(`Value.parse?_compact`, `Value.parse?_indented`).

All three inductions follow `Value.tokens`: a value, the items of an array
behind the first, the fields of an object behind the first.

Key definitions: `Value.Integral`.
Key theorems: `Value.ofTokens?_tokens`, `Value.isChain_tokens`,
`Value.parse?_compact`, `Value.parse?_indented`.
-/
import CoreWar.Json.Record
import CoreWar.Proofs.Json.Lexing

namespace CoreWar.Json

/-! ### Building -/

namespace Builder

/-- In front of its first item an array takes a value as it does behind a comma. -/
theorem foldlM_item (v : Value) (reversed : List Value) (stack : List Frame) :
    v.tokens.foldlM step ⟨.array reversed :: stack, .item⟩ =
      v.tokens.foldlM step ⟨.array reversed :: stack, .value⟩ := by
  cases v with
  | array items => cases items <;> simp [Value.tokens, step]
  | object fields => cases fields <;> simp [Value.tokens, step]
  | _ => simp [Value.tokens, step]

mutual

-- `complete` decides what the stack makes of a finished value, so the stack stays a parameter.
theorem foldlM_tokens (stack : List Frame) : ∀ v : Value,
    v.tokens.foldlM step ⟨stack, .value⟩ = some (complete v stack)
  | .null => rfl
  | .bool _ => rfl
  | .number _ => rfl
  | .string _ => rfl
  | .array [] => rfl
  | .array (v :: vs) => by
    have hfirst := foldlM_tokens (.array [] :: stack) v
    have hitems := foldlM_itemTokens [v] stack vs
    simp [Value.tokens, List.foldlM_append, step, begin, foldlM_item, hfirst, complete, hitems]
  | .object [] => rfl
  | .object ((k, v) :: fs) => by
    have hfirst := foldlM_tokens (.object [] k :: stack) v
    obtain ⟨key, hfields⟩ := foldlM_fieldTokens [(k, v)] k stack fs
    simp [Value.tokens, List.foldlM_append, step, begin, hfirst, complete, hfields]

theorem foldlM_itemTokens (reversed : List Value) (stack : List Frame) : ∀ vs : List Value,
    (Value.itemTokens vs).foldlM step ⟨.array reversed :: stack, .more⟩ =
      some ⟨.array (vs.reverse ++ reversed) :: stack, .more⟩
  | [] => rfl
  | v :: vs => by
    have hitem := foldlM_tokens (.array reversed :: stack) v
    have hitems := foldlM_itemTokens (v :: reversed) stack vs
    simp [Value.itemTokens, List.foldlM_append, step, hitem, complete, hitems]

theorem foldlM_fieldTokens (reversed : List (Literal × Value)) (key : Literal)
    (stack : List Frame) : ∀ fs : List (Literal × Value), ∃ last,
    (Value.fieldTokens fs).foldlM step ⟨.object reversed key :: stack, .more⟩ =
      some ⟨.object (fs.reverse ++ reversed) last :: stack, .more⟩
  | [] => ⟨key, rfl⟩
  | (k, v) :: fs => by
    have hfield := foldlM_tokens (.object reversed k :: stack) v
    obtain ⟨last, hfields⟩ := foldlM_fieldTokens ((k, v) :: reversed) k stack fs
    refine ⟨last, ?_⟩
    simp [Value.fieldTokens, List.foldlM_append, step, hfield, complete, hfields]

end

end Builder

namespace Value

/-- The tokens that spell a value build it. -/
theorem ofTokens?_tokens (v : Value) : ofTokens? v.tokens = some v := by
  have hbuild := Builder.foldlM_tokens [] v
  simp [ofTokens?, Builder.start, hbuild, Builder.complete, Builder.finish]

/-! ### Bare words do not touch -/

/-- Tokens that may follow a value: no two bare words touch, and the first one
is none. -/
structure Follows (rest : List Token) : Prop where
  chain : rest.IsChain Token.Apart
  first : ∀ t ∈ rest.head?, t.isWord = false

theorem Follows.cons {t : Token} {rest : List Token} (ht : t.isWord = false)
    (h : rest.IsChain Token.Apart) : Follows (t :: rest) where
  chain := List.isChain_cons.mpr ⟨fun _ _ => Or.inl ht, h⟩
  first := by simp [ht]

theorem Follows.before {rest : List Token} (h : Follows rest) (t : Token) :
    (t :: rest).IsChain Token.Apart :=
  List.isChain_cons.mpr ⟨fun u hu => Or.inr (h.first u hu), h.chain⟩

mutual

theorem isChain_tokens_append {rest : List Token} (h : Follows rest) : ∀ v : Value,
    (v.tokens ++ rest).IsChain Token.Apart
  | .null => h.before _
  | .bool _ => h.before _
  | .number _ => h.before _
  | .string _ => h.before _
  | .array [] => (Follows.cons rfl (h.before _)).chain
  | .array (v :: vs) => by
    have hitems := follows_itemTokens (.cons (t := .closeArray) rfl h.chain) vs
    have hfirst := isChain_tokens_append hitems v
    simpa [tokens] using (Follows.cons (t := .openArray) rfl hfirst).chain
  | .object [] => (Follows.cons rfl (h.before _)).chain
  | .object ((k, v) :: fs) => by
    have hfields := follows_fieldTokens (.cons (t := .closeObject) rfl h.chain) fs
    have hcolon := Follows.cons (t := .colon) rfl (isChain_tokens_append hfields v)
    have hkey := hcolon.before (.string k)
    simpa [tokens] using (Follows.cons (t := .openObject) rfl hkey).chain

theorem follows_itemTokens {rest : List Token} (h : Follows rest) : ∀ vs : List Value,
    Follows (itemTokens vs ++ rest)
  | [] => h
  | v :: vs => by
    have hitems := follows_itemTokens h vs
    simpa [itemTokens] using Follows.cons (t := .comma) rfl (isChain_tokens_append hitems v)

theorem follows_fieldTokens {rest : List Token} (h : Follows rest) :
    ∀ fs : List (Literal × Value), Follows (fieldTokens fs ++ rest)
  | [] => h
  | (k, v) :: fs => by
    have hfields := follows_fieldTokens h fs
    have hcolon := Follows.cons (t := .colon) rfl (isChain_tokens_append hfields v)
    simpa [fieldTokens] using Follows.cons (t := .comma) rfl (hcolon.before (.string k))

end

/-- No two bare words touch in the tokens of a value. -/
theorem isChain_tokens (v : Value) : v.tokens.IsChain Token.Apart := by
  have hnone : Follows [] := ⟨List.isChain_nil, by simp⟩
  simpa using isChain_tokens_append hnone v

/-! ### Values of integers -/

/-- Every number in the value is an integer. -/
inductive Integral : Value → Prop
  | null : Integral null
  | bool (b : Bool) : Integral (bool b)
  | ofInt (i : Int) : Integral (ofInt i)
  | string (s : Literal) : Integral (string s)
  | array {items : List Value} : (∀ v ∈ items, Integral v) → Integral (array items)
  | object {fields : List (Literal × Value)} :
    (∀ f ∈ fields, Integral f.2) → Integral (object fields)

theorem plain_itemTokens {vs : List Value} (h : ∀ v ∈ vs, ∀ t ∈ v.tokens, t.Plain) :
    ∀ t ∈ itemTokens vs, t.Plain := by
  induction vs with
  | nil => exact fun t ht => absurd ht List.not_mem_nil
  | cons v vs ih =>
    obtain ⟨hv, hvs⟩ := List.forall_mem_cons.mp h
    rw [itemTokens, List.forall_mem_append, List.forall_mem_cons]
    exact ⟨⟨trivial, hv⟩, ih hvs⟩

theorem plain_fieldTokens {fs : List (Literal × Value)} (h : ∀ f ∈ fs, ∀ t ∈ f.2.tokens, t.Plain) :
    ∀ t ∈ fieldTokens fs, t.Plain := by
  induction fs with
  | nil => exact fun t ht => absurd ht List.not_mem_nil
  | cons f fs ih =>
    obtain ⟨hf, hfs⟩ := List.forall_mem_cons.mp h
    rw [fieldTokens, List.forall_mem_append]
    simp only [List.forall_mem_cons]
    exact ⟨⟨trivial, trivial, trivial, hf⟩, ih hfs⟩

/-- A value of integers is spelled by tokens that are read back. -/
theorem Integral.plain {v : Value} (h : Integral v) : ∀ t ∈ v.tokens, t.Plain := by
  induction h with
  | null => simp [tokens, Token.Plain]
  | bool b => simp [tokens, Token.Plain]
  | ofInt i => simp [Value.ofInt, tokens, Token.Plain]
  | string s => simp [tokens, Token.Plain]
  | @array items _ ih =>
    cases items with
    | nil => simp [tokens, Token.Plain]
    | cons v vs =>
      obtain ⟨hv, hvs⟩ := List.forall_mem_cons.mp ih
      simp only [tokens, List.forall_mem_append, List.forall_mem_cons]
      exact ⟨⟨⟨trivial, hv⟩, plain_itemTokens hvs⟩, trivial, by simp⟩
  | @object fields _ ih =>
    cases fields with
    | nil => simp [tokens, Token.Plain]
    | cons f fs =>
      obtain ⟨hf, hfs⟩ := List.forall_mem_cons.mp ih
      simp only [tokens, List.forall_mem_append, List.forall_mem_cons]
      exact ⟨⟨⟨trivial, trivial, trivial, hf⟩, plain_fieldTokens hfs⟩, trivial, by simp⟩

/-! ### Reading back -/

theorem parse?_of_spells {v : Value} (h : v.Integral) {cs : List Char} (hcs : Spells v.tokens cs) :
    parse? (String.ofList cs) = some v := by
  have htokens := hcs.tokens?_eq h.plain v.isChain_tokens
  simp [parse?, htokens, ofTokens?_tokens]

/-- A value of integers is read back from its compact form. -/
theorem parse?_compact {v : Value} (h : v.Integral) : parse? v.compact = some v :=
  parse?_of_spells h (Spells.compact v.tokens)

/-- A value of integers is read back from its indented form. -/
theorem parse?_indented {v : Value} (h : v.Integral) : parse? v.indented = some v :=
  parse?_of_spells h (Spells.indent v.tokens)

end Value

end CoreWar.Json
