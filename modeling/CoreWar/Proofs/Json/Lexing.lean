/-
# Reading printed tokens

A text that spells tokens one after the other, with any blanks in between, is
read as those tokens (`Spells.tokens?_eq`), whether it was printed compactly
(`Spells.compact`) or indented (`Spells.indent`).

The reader is followed through what it would answer if the text ended now,
`Lexer.finish`. A string or a punctuation mark ends a bare word that is still
open, so only two bare words next to each other must not touch
(`Token.Apart`).

Key definitions: `Token.Apart`, `Token.Plain`, `Spells`.
Key theorems: `Lexer.foldlM_quote`, `Lexer.read_token`, `Spells.read`,
`Spells.tokens?_eq`, `Spells.compact`, `Spells.indent`.
-/
import Mathlib.Data.List.Chain
import CoreWar.Json.Printer
import CoreWar.Proofs.Json.Numerals

namespace CoreWar.Json

namespace Token

/-- Is the token a bare word? -/
def isWord : Token → Bool
  | null | bool _ | number _ => true
  | _ => false

/-- Two tokens that may touch. -/
def Apart (t u : Token) : Prop := t.isWord = false ∨ u.isWord = false

/-- A token that is read back as it was printed: its number is an integer. -/
def Plain : Token → Prop
  | number n => ∃ i, n = .ofInt i
  | _ => True

end Token

namespace Lexer

theorem foldlM_cons_of_step {s s' : State} {c : Char} (h : step s c = some s') (cs : List Char) :
    (c :: cs).foldlM step s = cs.foldlM step s' := by
  simp [h]

/-! ### Bare words -/

theorem endsWord_of_isDigit {c : Char} (h : c.isDigit = true) : endsWord c = false := by
  have hne : ∀ d, d.isDigit = false → c ≠ d := by
    rintro d hd rfl
    exact absurd h (by simp [hd])
  have hmark : punctuation? c = none := by
    unfold punctuation?
    split <;> first | rfl | exact absurd rfl (hne _ (by decide))
  simp [endsWord, isBlank, hmark, hne ' ' (by decide), hne '\t' (by decide),
    hne '\n' (by decide), hne '\r' (by decide), hne '"' (by decide)]

theorem between_word {c : Char} (h : endsWord c = false) (done : List Token) :
    between done c = ⟨done, .word [c]⟩ := by
  simp only [endsWord, Bool.or_eq_false_iff, decide_eq_false_iff_not] at h
  obtain ⟨⟨hblank, hmark⟩, hquote⟩ := h
  have hnone : punctuation? c = none := by simpa using hmark
  simp [between, hblank, hnone, hquote]

theorem foldlM_word {cs : List Char} (h : ∀ c ∈ cs, endsWord c = false) (done : List Token)
    (reversed : List Char) :
    cs.foldlM step ⟨done, .word reversed⟩ = some ⟨done, .word (cs.reverse ++ reversed)⟩ := by
  induction cs generalizing reversed with
  | nil => rfl
  | cons c cs ih =>
    have hc := h c List.mem_cons_self
    have hstep : step ⟨done, .word reversed⟩ c = some ⟨done, .word (c :: reversed)⟩ := by
      simp [step, hc]
    have hrest := ih (fun d hd => h d (List.mem_cons_of_mem c hd)) (c :: reversed)
    rw [foldlM_cons_of_step hstep, hrest]
    simp

/-- A bare word is read behind a blank or a mark, and ends with the text. -/
theorem read_word {cs : List Char} {t : Token} (hne : cs ≠ [])
    (hcs : ∀ c ∈ cs, endsWord c = false) (ht : word? cs = some t) (done : List Token) :
    ∃ s, cs.foldlM step ⟨done, .nothing⟩ = some s ∧ finish s = some (done.reverse ++ [t]) := by
  cases cs with
  | nil => exact absurd rfl hne
  | cons c cs =>
    have hfirst : step ⟨done, .nothing⟩ c = some ⟨done, .word [c]⟩ :=
      congrArg some (between_word (hcs c List.mem_cons_self) done)
    have hrest := foldlM_word (fun d hd => hcs d (List.mem_cons_of_mem c hd)) done [c]
    refine ⟨⟨done, .word (cs.reverse ++ [c])⟩, ?_, ?_⟩
    · rw [foldlM_cons_of_step hfirst, hrest]
    · simp [finish, ht]

/-- Behind a bare word or between tokens, a blank, a quote or a mark starts afresh. -/
theorem step_of_endsWord {s : State} {ts : List Token} {c : Char} (hs : finish s = some ts)
    (hc : endsWord c = true) : step s c = some (between ts.reverse c) := by
  obtain ⟨done, inside⟩ := s
  cases inside with
  | nothing =>
    obtain rfl : done.reverse = ts := Option.some.inj hs
    simp [step]
  | word reversed =>
    obtain ⟨t, ht, rfl⟩ := Option.map_eq_some_iff.mp hs
    simp [step, hc, ht]
  | literal p e => exact absurd hs (by simp [finish])

theorem read_blanks {bs : List Char} (hbs : ∀ b ∈ bs, isBlank b = true) {s : State}
    {ts : List Token} (hs : finish s = some ts) :
    ∃ s', bs.foldlM step s = some s' ∧ finish s' = some ts ∧
      (s.inside = .nothing → s'.inside = .nothing) := by
  induction bs generalizing s with
  | nil => exact ⟨s, rfl, hs, id⟩
  | cons b bs ih =>
    have hb := hbs b List.mem_cons_self
    have hstep : step s b = some ⟨ts.reverse, .nothing⟩ := by
      rw [step_of_endsWord hs (by simp [endsWord, hb])]
      simp [between, hb]
    have hafresh : finish ⟨ts.reverse, .nothing⟩ = some ts := by simp [finish]
    obtain ⟨s', hread, hfinish, hinside⟩ :=
      ih (fun d hd => hbs d (List.mem_cons_of_mem b hd)) hafresh
    refine ⟨s', ?_, hfinish, fun _ => hinside rfl⟩
    rw [foldlM_cons_of_step hstep, hread]

/-! ### String literals -/

theorem hexDigit?_digitChar : ∀ d < 16, hexDigit? (Nat.digitChar d) = some d := by decide

/-- Whatever way a character is escaped, it is read as itself. -/
theorem foldlM_escapeChar (c : Char) (done : List Token) (p : OpenLiteral) :
    (escapeChar c).foldlM step ⟨done, .literal p .outside⟩ =
      some ⟨done, .literal (p.char c) .outside⟩ := by
  unfold escapeChar
  split_ifs with hquote hslash hb ht hn hf hr hcontrol
  · subst hquote; rfl
  · subst hslash; rfl
  · subst hb; rfl
  · subst ht; rfl
  · subst hn; rfl
  · subst hf; rfl
  · subst hr; rfl
  · -- the four digits add up to the code, which is no surrogate
    have hhigh := hexDigit?_digitChar (c.toNat / 16 % 16) (Nat.mod_lt _ (by omega))
    have hlow := hexDigit?_digitChar (c.toNat % 16) (Nat.mod_lt _ (by omega))
    have hsum : 16 * (c.toNat / 16 % 16) + c.toNat % 16 = c.toNat := by omega
    have hzero : hexDigit? '0' = some 0 := by decide
    have hcode : p.code c.toNat = p.char c := by
      have hlead : OpenLiteral.isLeading c.toNat = false := decide_eq_false (by omega)
      have htrail : OpenLiteral.isTrailing c.toNat = false := decide_eq_false (by omega)
      simp [OpenLiteral.code, hlead, htrail]
    simp [hexPair, step, inLiteral, hzero, hhigh, hlow, hsum, hcode]
  · simp [step, inLiteral, hquote, hslash, hcontrol]

theorem foldlM_escaped (cs : List Char) (done : List Token) (reversed : List Char) :
    (cs.flatMap escapeChar).foldlM step ⟨done, .literal ⟨reversed, none, false⟩ .outside⟩ =
      some ⟨done, .literal ⟨cs.reverse ++ reversed, none, false⟩ .outside⟩ := by
  induction cs generalizing reversed with
  | nil => rfl
  | cons c cs ih =>
    have hchar : OpenLiteral.char ⟨reversed, none, false⟩ c = ⟨c :: reversed, none, false⟩ := rfl
    rw [List.flatMap_cons, List.foldlM_append, foldlM_escapeChar, hchar, Option.bind_eq_bind,
      Option.bind_some, ih]
    simp

/-- A printed literal is read as its text. -/
theorem foldlM_quote (text : String) {s : State} {ts : List Token} (hs : finish s = some ts) :
    (quote text).foldlM step s = some ⟨.string (some text) :: ts.reverse, .nothing⟩ := by
  have hopen : step s '"' = some ⟨ts.reverse, .literal .empty .outside⟩ :=
    step_of_endsWord hs (by decide)
  have hbody := foldlM_escaped text.toList ts.reverse []
  unfold OpenLiteral.empty at hopen
  unfold quote
  rw [List.cons_append, foldlM_cons_of_step hopen, List.foldlM_append, hbody]
  simp [step, inLiteral, OpenLiteral.close]

/-! ### Tokens -/

/-- A token that is no bare word needs no blank before it and leaves nothing open. -/
theorem foldlM_mark {t : Token} (ht : t.isWord = false) {s : State} {ts : List Token}
    (hs : finish s = some ts) : t.chars.foldlM step s = some ⟨t :: ts.reverse, .nothing⟩ := by
  have hmark : ∀ c, endsWord c = true → [c].foldlM step s = some (between ts.reverse c) := by
    intro c hc
    simp [step_of_endsWord hs hc]
  cases t with
  | null => exact absurd ht (by decide)
  | bool b => exact absurd ht (by simp [Token.isWord])
  | number n => exact absurd ht (by simp [Token.isWord])
  | string literal =>
    cases literal with
    | some text => exact foldlM_quote text hs
    | none =>
      unfold Token.chars
      rw [foldlM_cons_of_step (step_of_endsWord hs (by decide))]
      rfl
  | openArray => exact hmark '[' (by decide)
  | closeArray => exact hmark ']' (by decide)
  | openObject => exact hmark '{' (by decide)
  | closeObject => exact hmark '}' (by decide)
  | comma => exact hmark ',' (by decide)
  | colon => exact hmark ':' (by decide)

theorem word?_ofInt (i : Int) : word? (Numeral.ofInt i).chars = some (.number (.ofInt i)) := by
  have hread := Numeral.ofChars?_ofInt i
  have hne : ∀ cs, Numeral.ofChars? cs = none → (Numeral.ofInt i).chars ≠ cs := by
    rintro cs hnone rfl
    exact absurd hread (by simp [hnone])
  unfold word?
  rw [if_neg (hne _ rfl), if_neg (hne _ rfl), if_neg (hne _ rfl), hread]
  rfl

theorem endsWord_of_mem_ofInt {i : Int} {c : Char} (hc : c ∈ (Numeral.ofInt i).chars) :
    endsWord c = false := by
  rw [Numeral.chars_ofInt] at hc
  rcases List.mem_append.mp hc with hsign | hdigit
  · split at hsign
    · obtain rfl := List.mem_singleton.mp hsign
      decide
    · exact absurd hsign List.not_mem_nil
  · exact endsWord_of_isDigit (Numeral.isDigit_toDigits c hdigit)

theorem read_bare {t : Token} (ht : t.isWord = true) (hp : t.Plain) (done : List Token) :
    ∃ s, t.chars.foldlM step ⟨done, .nothing⟩ = some s ∧ finish s = some (done.reverse ++ [t]) := by
  have hletters : ∀ cs : List Char, cs.all (fun c => !endsWord c) = true →
      ∀ c ∈ cs, endsWord c = false := by
    intro cs h c hc
    simpa using List.all_eq_true.mp h c hc
  cases t with
  | null => exact read_word (List.cons_ne_nil _ _) (hletters _ rfl) rfl done
  | bool b => cases b <;> exact read_word (List.cons_ne_nil _ _) (hletters _ rfl) rfl done
  | number n =>
    obtain ⟨i, rfl⟩ := hp
    have hne : (Numeral.ofInt i).chars ≠ [] := by
      simp [Numeral.chars_ofInt, Nat.toDigits_ne_nil]
    exact read_word hne (fun c => endsWord_of_mem_ofInt) (word?_ofInt i) done
  | _ => exact absurd ht (by simp [Token.isWord])

/-- One token: a bare word must not touch a bare word before it. -/
theorem read_token {t : Token} (hp : t.Plain) {s : State} {ts : List Token}
    (hs : finish s = some ts) (happ : t.isWord = false ∨ s.inside = .nothing) :
    ∃ s', t.chars.foldlM step s = some s' ∧ finish s' = some (ts ++ [t]) ∧
      (t.isWord = false → s'.inside = .nothing) := by
  cases ht : t.isWord with
  | false =>
    have hfinish : finish ⟨t :: ts.reverse, .nothing⟩ = some (ts ++ [t]) := by simp [finish]
    exact ⟨_, foldlM_mark ht hs, hfinish, fun _ => rfl⟩
  | true =>
    obtain ⟨done, inside⟩ := s
    obtain rfl : inside = .nothing := happ.resolve_left (by simp [ht])
    obtain rfl : done.reverse = ts := Option.some.inj hs
    obtain ⟨s', hread, hfinish⟩ := read_bare ht hp done
    exact ⟨s', hread, hfinish, fun h => absurd h (by decide)⟩

end Lexer

/-! ### Whole texts -/

/-- The text `cs` spells the tokens `ts`, with blanks before any of them. -/
inductive Spells : List Token → List Char → Prop
  | nil : Spells [] []
  | cons {t : Token} {ts : List Token} {bs cs : List Char} :
    (∀ b ∈ bs, isBlank b = true) → Spells ts cs → Spells (t :: ts) (bs ++ t.chars ++ cs)

namespace Spells

open Lexer

theorem read {ts : List Token} {cs : List Char} (h : Spells ts cs) (hplain : ∀ t ∈ ts, t.Plain)
    (hchain : ts.IsChain Token.Apart) {s : State} {before : List Token}
    (hs : finish s = some before)
    (hfirst : ∀ t ∈ ts.head?, t.isWord = false ∨ s.inside = .nothing) :
    ∃ s', cs.foldlM step s = some s' ∧ finish s' = some (before ++ ts) := by
  induction h generalizing s before with
  | nil => exact ⟨s, rfl, by simpa using hs⟩
  | @cons t ts bs cs hbs _ ih =>
    obtain ⟨happ, htail⟩ := List.isChain_cons.mp hchain
    obtain ⟨s₁, hblanks, hs₁, hin₁⟩ := read_blanks hbs hs
    obtain ⟨s₂, htoken, hs₂, hin₂⟩ :=
      read_token (hplain t List.mem_cons_self) hs₁ ((hfirst t rfl).imp_right hin₁)
    obtain ⟨s', hrest, hs'⟩ := ih (fun u hu => hplain u (List.mem_cons_of_mem t hu)) htail hs₂
      fun u hu => (happ u hu).symm.imp_right hin₂
    refine ⟨s', ?_, by simpa using hs'⟩
    simp [List.foldlM_append, hblanks, htoken, hrest]

/-- A text that spells tokens is read as those tokens. -/
theorem tokens?_eq {ts : List Token} {cs : List Char} (h : Spells ts cs)
    (hplain : ∀ t ∈ ts, t.Plain) (hchain : ts.IsChain Token.Apart) : tokens? cs = some ts := by
  have hstart : finish start = some [] := rfl
  obtain ⟨s, hread, hs⟩ := h.read hplain hchain hstart fun _ _ => Or.inr rfl
  simpa [tokens?, hread] using hs

/-- The compact form spells its tokens. -/
theorem compact (ts : List Token) : Spells ts (ts.flatMap Token.chars) := by
  induction ts with
  | nil => exact nil
  | cons t ts ih =>
    have hnone : ∀ b ∈ [], isBlank b = true := fun b hb => absurd hb List.not_mem_nil
    exact cons hnone ih

theorem isBlank_of_mem_gap {depth : Nat} {previous t : Token} :
    ∀ b ∈ gap depth previous t, isBlank b = true := by
  have hline : ∀ d, ∀ b ∈ newLine d, isBlank b = true := by
    intro d b hb
    rcases List.mem_cons.mp hb with rfl | hb
    · decide
    · obtain rfl := List.eq_of_mem_replicate hb
      decide
  intro b hb
  unfold gap at hb
  split at hb
  · split at hb
    · exact absurd hb List.not_mem_nil
    · exact hline _ b hb
  · split at hb
    · exact hline _ b hb
    · split at hb
      · exact hline _ b hb
      · obtain rfl := List.mem_singleton.mp hb
        decide
      · exact absurd hb List.not_mem_nil

theorem of_indentOnto (ts : List Token) (done : List Char) (depth : Nat) (previous : Token) :
    ∃ cs, Json.indentOnto done depth previous ts = done.reverse ++ cs ∧ Spells ts cs := by
  induction ts generalizing done depth previous with
  | nil => exact ⟨[], by simp [Json.indentOnto], nil⟩
  | cons t ts ih =>
    obtain ⟨cs, hcs, hspells⟩ :=
      ih ((gap depth previous t ++ t.chars).reverse ++ done) (depthAfter depth t) t
    refine ⟨gap depth previous t ++ t.chars ++ cs, ?_, cons isBlank_of_mem_gap hspells⟩
    rw [Json.indentOnto, hcs]
    simp

/-- The indented form spells its tokens. -/
theorem indent (ts : List Token) : Spells ts (Json.indent ts) := by
  cases ts with
  | nil => exact nil
  | cons t ts =>
    obtain ⟨cs, hcs, hspells⟩ := of_indentOnto ts t.chars.reverse (depthAfter 0 t) t
    have htext : Json.indent (t :: ts) = [] ++ t.chars ++ cs := by
      rw [Json.indent, hcs]
      simp
    rw [htext]
    exact cons (fun b hb => absurd hb List.not_mem_nil) hspells

end Spells

end CoreWar.Json
