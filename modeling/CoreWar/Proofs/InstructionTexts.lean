/-
# What a printed instruction tells

No two instructions are printed alike, and the line that reports an executed
instruction in the log is no other entry's line (`Instruction.text_determines`).

The parts of a printed instruction have no fixed length, and a direct operand
has no sigil. But each part ends where a character stands that it cannot hold:
the name of the opcode at the first blank, the A-operand at the first comma,
and a sigil, also one of no characters, where the number begins. A text is cut
by a kind of character in one place only (`Text.Cut.inj`), so equal texts have
equal parts, and each part belongs to one opcode, one mode or one number. In a
line of the log the level is the first word, and the numbers in front of the
instruction end at blanks.

Key definitions: `Text.Cut`, `Text.InNumber`.
Key theorems: `Text.Cut.inj`, `Text.toString_inj`, `Instruction.operandText_inj`,
`Instruction.text_inj`, `Log.Entry.level_eq_of_line`,
`Log.Entry.line_executed_inj`, `Instruction.text_determines`.
-/
import Mathlib.Data.List.Nodup
import CoreWar.Log
import CoreWar.Proofs.Json.Numerals

namespace CoreWar

/-! ### Where a part ends -/

namespace Text

/-- All of `part` is of one kind of character, and `rest` does not begin with that kind. -/
structure Cut (kind : Char → Prop) (part rest : List Char) : Prop where
  part : ∀ c ∈ part, kind c
  rest : ∀ c ∈ rest.head?, ¬ kind c

section Parts

variable {kind : Char → Prop} {part part' rest rest' : List Char}

theorem Cut.tail {c : Char} (h : Cut kind (c :: part) rest) : Cut kind part rest :=
  ⟨fun d hd => h.part d (List.mem_cons_of_mem c hd), h.rest⟩

/-- What begins with the kind is not cut in front of its first character. -/
theorem Cut.ne_cons (h : Cut kind [] rest) {c : Char} (h' : Cut kind (c :: part') rest') :
    rest ≠ c :: (part' ++ rest') := by
  rintro rfl
  exact h.rest c rfl (h'.part c List.mem_cons_self)

/-- A text is cut in one place only. -/
theorem Cut.inj (h : Cut kind part rest) (h' : Cut kind part' rest')
    (heq : part ++ rest = part' ++ rest') : part = part' ∧ rest = rest' := by
  induction part generalizing part' with
  | nil =>
    cases part' with
    | nil => exact ⟨rfl, heq⟩
    | cons c cs => exact absurd heq (h.ne_cons h')
  | cons c cs ih =>
    cases part' with
    | nil => exact absurd heq.symm (h'.ne_cons h)
    | cons d ds =>
      obtain ⟨rfl, htail⟩ := List.cons.inj heq
      obtain ⟨rfl, hrest⟩ := ih h.tail h'.tail htail
      exact ⟨rfl, hrest⟩

theorem Cut.of_mark {mark : Char} (h : mark ∉ part) (rest : List Char) :
    Cut (· ≠ mark) part (mark :: rest) where
  part _ hc := ne_of_mem_of_not_mem hc h
  rest _ hc := not_not_intro (Option.some.inj hc).symm

/-- Parts that do not hold a mark end at the first one. -/
theorem append_mark_inj {mark : Char} (h : mark ∉ part) (h' : mark ∉ part')
    (heq : part ++ mark :: rest = part' ++ mark :: rest') : part = part' ∧ rest = rest' := by
  obtain ⟨hpart, hrest⟩ := (Cut.of_mark h rest).inj (Cut.of_mark h' rest') heq
  exact ⟨hpart, (List.cons.inj hrest).2⟩

end Parts

/-! ### Numbers -/

/-- The characters of printed numbers. -/
def InNumber (c : Char) : Prop := c.isDigit = true ∨ c = '-'

/-- A number is printed as its numeral. -/
theorem toList_toString (n : Int) : (toString n).toList = (Json.Numeral.ofInt n).chars := by
  rw [Json.Numeral.chars_ofInt, Int.toString_eq_repr, Int.repr_eq_if]
  by_cases hn : 0 ≤ n
  · have habs : n.toNat = n.natAbs := by omega
    rw [if_pos hn, if_neg (by omega), Nat.toList_repr, habs]
    rfl
  · have habs : (-n).toNat = n.natAbs := by omega
    rw [if_neg hn, if_pos (by omega), String.toList_append, Nat.toList_repr, habs]
    rfl

theorem toString_inj {n n' : Int} (h : toString n = toString n') : n = n' := by
  have hchars : (Json.Numeral.ofInt n).chars = (Json.Numeral.ofInt n').chars := by
    rw [← toList_toString, h, toList_toString]
  have hread := congrArg Json.Numeral.ofChars? hchars
  rw [Json.Numeral.ofChars?_ofInt, Json.Numeral.ofChars?_ofInt] at hread
  have hvalue := congrArg Json.Numeral.integer? (Option.some.inj hread)
  rw [Json.Numeral.integer?_ofInt, Json.Numeral.integer?_ofInt] at hvalue
  exact Option.some.inj hvalue

theorem inNumber_of_mem {n : Int} {c : Char} (hc : c ∈ (toString n).toList) : InNumber c := by
  rw [toList_toString, Json.Numeral.chars_ofInt, List.mem_append] at hc
  rcases hc with hsign | hdigit
  · split at hsign
    · exact Or.inr (List.mem_singleton.mp hsign)
    · exact absurd hsign List.not_mem_nil
  · exact Or.inl (Json.Numeral.isDigit_toDigits c hdigit)

theorem not_mem_toString {c : Char} (hc : ¬ InNumber c) (n : Int) : c ∉ (toString n).toList :=
  fun hmem => hc (inNumber_of_mem hmem)

/-- A word in front of a blank. -/
theorem word_blank_inj {w w' : UInt64} {rest rest' : List Char}
    (h : (toString w.toNat).toList ++ ' ' :: rest = (toString w'.toNat).toList ++ ' ' :: rest') :
    w = w' ∧ rest = rest' := by
  -- a natural number is printed as the integer that it is
  have hblank (n : Nat) : ' ' ∉ (toString n).toList := not_mem_toString (by simp [InNumber]) n
  obtain ⟨hword, hrest⟩ := append_mark_inj (hblank _) (hblank _) h
  have hnat : (w.toNat : Int) = w'.toNat := toString_inj (String.toList_inj.mp hword)
  exact ⟨UInt64.toNat_inj.mp (Int.ofNat.inj hnat), hrest⟩

end Text

open Text (InNumber)

/-! ### Operands -/

namespace Mode

theorem mem_all (m : Mode) : m ∈ all := by
  cases m <;> decide

theorem sigil_inj {m m' : Mode} (h : m.sigil = m'.sigil) : m = m' := by
  have hdistinct : (all.map sigil).Nodup := by decide
  exact List.inj_on_of_nodup_map hdistinct m.mem_all m'.mem_all h

/-- A sigil ends where the number begins. -/
theorem cut_sigil (m : Mode) (n : Int) :
    Text.Cut (¬ InNumber ·) m.sigil.toList (toString n).toList where
  part := by cases m <;> simp [sigil, InNumber]
  rest _ hc := not_not_intro (Text.inNumber_of_mem (List.mem_of_mem_head? hc))

end Mode

namespace Instruction

theorem toList_operandText (m : Mode) (f : Field) :
    (operandText m f).toList = m.sigil.toList ++ (toString f.toInt).toList :=
  String.toList_append

theorem operandText_inj {m m' : Mode} {f f' : Field} (h : operandText m f = operandText m' f') :
    m = m' ∧ f = f' := by
  have hchars := congrArg String.toList h
  rw [toList_operandText, toList_operandText] at hchars
  obtain ⟨hsigil, hnumber⟩ := (m.cut_sigil _).inj (m'.cut_sigil _) hchars
  have hint := Text.toString_inj (String.toList_inj.mp hnumber)
  exact ⟨Mode.sigil_inj (String.toList_inj.mp hsigil), Int64.toInt_inj.mp hint⟩

theorem comma_not_mem_operandText (m : Mode) (f : Field) : ',' ∉ (operandText m f).toList := by
  rw [toList_operandText, List.mem_append, not_or]
  refine ⟨?_, Text.not_mem_toString (by simp [InNumber]) _⟩
  cases m <;> simp [Mode.sigil]

end Instruction

/-! ### Instructions -/

namespace Opcode

theorem mem_all (o : Opcode) : o ∈ all := by
  cases o <;> decide

theorem name_inj {o o' : Opcode} (h : o.name = o'.name) : o = o' := by
  have hdistinct : (all.map name).Nodup := by decide
  exact List.inj_on_of_nodup_map hdistinct o.mem_all o'.mem_all h

theorem blank_not_mem_name (o : Opcode) : ' ' ∉ o.name.toList := by
  cases o <;> simp [name]

end Opcode

namespace Instruction

theorem toList_text (i : Instruction) : i.text.toList =
    i.opcode.name.toList ++ ' ' :: ((operandText i.aMode i.aField).toList ++
      ',' :: ' ' :: (operandText i.bMode i.bField).toList) := by
  simp [text]

theorem text_inj {i j : Instruction} (h : i.text = j.text) : i = j := by
  have hchars := congrArg String.toList h
  rw [toList_text, toList_text] at hchars
  obtain ⟨hname, hoperands⟩ :=
    Text.append_mark_inj i.opcode.blank_not_mem_name j.opcode.blank_not_mem_name hchars
  obtain ⟨ha, hrest⟩ := Text.append_mark_inj (comma_not_mem_operandText _ _)
    (comma_not_mem_operandText _ _) hoperands
  -- behind the comma stand a blank and the B-operand, to the end of the text
  have hb := (List.cons.inj hrest).2
  have hopcode := Opcode.name_inj (String.toList_inj.mp hname)
  have haOperand := operandText_inj (String.toList_inj.mp ha)
  have hbOperand := operandText_inj (String.toList_inj.mp hb)
  rw [Instruction.mk.injEq]
  exact ⟨hopcode, haOperand.1, haOperand.2, hbOperand.1, hbOperand.2⟩

end Instruction

/-! ### Lines of the log -/

namespace Log

namespace Level

theorem mem_all (l : Level) : l ∈ all := by
  cases l <;> decide

theorem name_inj {l l' : Level} (h : l.name = l'.name) : l = l' := by
  have hdistinct : (all.map name).Nodup := by decide
  exact List.inj_on_of_nodup_map hdistinct l.mem_all l'.mem_all h

theorem blank_not_mem_name (l : Level) : ' ' ∉ l.name.toList := by
  cases l <;> simp [name]

end Level

namespace Entry

/-- The level is the first word of the line. -/
theorem level_eq_of_line {e e' : Entry} (h : e.line = e'.line) : e.level = e'.level := by
  have hword (e : Entry) : e.line.toList = e.level.name.toList ++ ' ' ::
      (e.source.name ++ ": " ++ e.message ++
        String.join (e.values.map fun v => " " ++ v.1 ++ "=" ++ v.2)).toList := by
    simp [line]
  have hchars := congrArg String.toList h
  rw [hword, hword] at hchars
  have hname := Text.append_mark_inj e.level.blank_not_mem_name e'.level.blank_not_mem_name hchars
  exact Level.name_inj (String.toList_inj.mp hname.1)

variable {cycle cycle' warrior warrior' : UInt64} {pc pc' : Address} {i i' : Instruction}

theorem toList_line_executed : (executed cycle warrior pc i).line.toList =
    "DEBUG mars::vm::mars: executed cycle=".toList ++ ((toString cycle.toNat).toList ++ ' ' ::
      ("warrior=".toList ++ ((toString warrior.toNat).toList ++ ' ' ::
        ("pc=".toList ++ ((toString pc.toNat).toList ++ ' ' ::
          ("instruction=".toList ++ i.text.toList)))))) := by
  simp [line, level, Level.name, source, Source.name, message, values]

theorem line_executed_inj
    (h : (executed cycle warrior pc i).line = (executed cycle' warrior' pc' i').line) :
    cycle = cycle' ∧ warrior = warrior' ∧ pc = pc' ∧ i = i' := by
  have hchars := congrArg String.toList h
  rw [toList_line_executed, toList_line_executed] at hchars
  obtain ⟨hcycle, hbehind⟩ := Text.word_blank_inj (List.append_cancel_left hchars)
  obtain ⟨hwarrior, hbehind⟩ := Text.word_blank_inj (List.append_cancel_left hbehind)
  obtain ⟨hpc, hbehind⟩ := Text.word_blank_inj (List.append_cancel_left hbehind)
  have htext := String.toList_inj.mp (List.append_cancel_left hbehind)
  exact ⟨hcycle, hwarrior, hpc, Instruction.text_inj htext⟩

/-- Executed instructions have a level of their own. -/
theorem eq_executed_of_level {e : Entry} (h : e.level = .debug) :
    ∃ cycle warrior pc i, e = executed cycle warrior pc i := by
  cases e with
  | executed cycle warrior pc i => exact ⟨cycle, warrior, pc, i, rfl⟩
  | _ => exact absurd h (by simp [level])

end Entry

end Log

/-- **The printed form tells the instruction.** Instructions that are printed alike are
equal, and a line of the log that reports an executed instruction belongs to one entry
only: it tells the cycle, the warrior, the address and the instruction. -/
theorem Instruction.text_determines :
    (∀ i j : Instruction, i.text = j.text ↔ i = j) ∧
      ∀ (cycle warrior : UInt64) (pc : Address) (i : Instruction) (e : Log.Entry),
        (Log.Entry.executed cycle warrior pc i).line = e.line ↔
          .executed cycle warrior pc i = e := by
  constructor
  · intro i j
    exact ⟨text_inj, fun h => h ▸ rfl⟩
  · intro cycle warrior pc i e
    refine ⟨fun h => ?_, fun h => h ▸ rfl⟩
    -- an entry about anything else would have another level
    have hlevel := Log.Entry.level_eq_of_line h
    obtain ⟨cycle', warrior', pc', i', rfl⟩ := Log.Entry.eq_executed_of_level hlevel.symm
    obtain ⟨rfl, rfl, rfl, rfl⟩ := Log.Entry.line_executed_inj h
    rfl

/-- The same digits, in other fields. -/
example : (⟨.mov, .direct, -1, .indirect, 12⟩ : Instruction).text = "MOV -1, @12" ∧
    (⟨.mov, .direct, -11, .indirect, 2⟩ : Instruction).text = "MOV -11, @2" := by decide

end CoreWar
