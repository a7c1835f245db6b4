/-
# What loading does not look at

Loading reads a program up to its first `END`. Nothing behind it counts, and
of `END` itself only the name in its A-field, if it is one: its label, its
modes, its B-field and any other A-field are dead, and so are the modes and
the B-field of a constant, and all comments. `Program.strip` takes all this
out, whatever stood there: names that nothing defines, divisions by zero,
labels that come twice.

The number of cells, which decides the places, and the walk over the
statements each find the end of a program for themselves; they agree on what
is left (`Program.footprint_strip`, `outline_strip`). So a program and what
`strip` leaves of it have one image (`link_strip`), and programs of which
`strip` leaves the same cannot be told apart by loading them
(`load_ignores`).

Key definitions: `Statement.strip`, `Program.strip`.
Key theorems: `Program.footprint_strip`, `outline_strip`, `link_strip`,
`load_map_strip`, `load_ignores`.
-/
import CoreWar.Proofs.LoadedCells
import CoreWar.Proofs.Parallel

namespace CoreWar

/-- The statement without its comment. -/
def Statement.uncommented (s : Statement) : Statement := { s with comment := none }

/-- What counts in a statement: of an instruction all but the comment, of a constant its name and
value, and of `END` the name at which to start. -/
def Statement.strip (s : Statement) : Statement :=
  match s.mnemonic with
  | .op _ => s.uncommented
  | .equ => { mnemonic := .equ, label := s.label, aField := s.aField }
  | .finish => .finish s.aField.symbol?

namespace Program

/-- What counts in a program: the statements up to its first `END`, each without what does not
count in it. -/
def strip : Program → Program
  | [] => []
  | s :: rest => if s.mnemonic = .finish then [s.strip] else s.strip :: strip rest

variable {s : Statement} {rest : Program}

theorem strip_of_op {o : Opcode} (h : s.mnemonic = .op o) :
    strip (s :: rest) = s.uncommented :: strip rest := by
  simp [strip, Statement.strip, h]

theorem strip_of_equ (h : s.mnemonic = .equ) : strip (s :: rest) =
    { mnemonic := .equ, label := s.label, aField := s.aField } :: strip rest := by
  simp [strip, Statement.strip, h]

theorem strip_of_finish (h : s.mnemonic = .finish) :
    strip (s :: rest) = [.finish s.aField.symbol?] := by
  simp [strip, Statement.strip, h]

theorem footprint_strip : ∀ p : Program, p.strip.footprint = p.footprint
  | [] => rfl
  | s :: rest => by
    have ih := footprint_strip rest
    simp only [← length_instructions] at ih ⊢
    cases h : s.mnemonic with
    | op o =>
      rw [strip_of_op h, instructions_of_op (s := s.uncommented) h, instructions_of_op h,
        List.length_cons, List.length_cons, ih]
    | equ => rw [strip_of_equ h, instructions_of_equ rfl, instructions_of_equ h, ih]
    | finish => rw [strip_of_finish h, instructions_of_finish rfl, instructions_of_finish h]

end Program

/-! ### Linking -/

/-- What the walk has collected, without the comments of the instructions. -/
def Outline.uncommented (o : Outline) : Outline :=
  { o with instructions := o.instructions.map fun q =>
      { q with statement := q.statement.uncommented } }

theorem symbol?_finish (entry : Option String) :
    (Statement.finish entry).aField.symbol? = entry := by
  cases entry <;> rfl

theorem outline_of_finish {size index : Nat} {here : Address} {t : SymbolTable} {s : Statement}
    (h : s.mnemonic = .finish) (rest : Program) :
    outline size index here t (s :: rest) = .ok ⟨t, [], [], s.aField.symbol?⟩ := by
  rw [outline, h]

/-- The walk ends at the same statement and collects the same, comments apart. -/
theorem outline_strip (size : Nat) : ∀ (p : Program) (index : Nat) (here : Address)
    (t : SymbolTable), outline size index here t p.strip =
      (outline size index here t p).map Outline.uncommented
  | [], _, _, _ => rfl
  | s :: rest, index, here, t => by
    cases h : s.mnemonic with
    | op o =>
      have hmnemonic : s.uncommented.mnemonic = .op o := h
      rw [Program.strip_of_op h, outline, outline, hmnemonic, h]
      show (bindLabel t index here s.label).bind _ = ((bindLabel t index here s.label).bind _).map _
      cases bindLabel t index here s.label with
      | error e => rfl
      | ok u =>
        simp only [Except.bind, outline_strip size rest]
        cases outline size (index + 1) (offset size here 1) u rest <;> rfl
    | equ =>
      rw [Program.strip_of_equ h, outline, outline, h]
      cases s.label with
      | none => rfl
      | some name =>
        simp only [outline_strip size rest]
        cases outline size (index + 1) here t rest <;> rfl
    | finish =>
      rw [Program.strip_of_finish h, outline_of_finish rfl, outline_of_finish h, symbol?_finish]
      rfl

/-- **What does not count leaves no trace in the image.** -/
theorem link_strip (size : Nat) (p : Program) (origin : Address) :
    link size p.strip origin = link size p origin := by
  unfold link
  rw [outline_strip]
  cases outline size 0 origin .empty p with
  | error e => rfl
  | ok o =>
    -- a cell does not depend on the comment
    have hcells (t : SymbolTable) :
        o.uncommented.instructions.mapM (Placed.cell t) = o.instructions.mapM (Placed.cell t) :=
      List.mapM_map
    simp only [Except.map, Except.bind, hcells]
    rfl

/-! ### Loading -/

theorem linksAlike_strip (p : Program) : p.LinksAlike id p.strip where
  footprint := p.footprint_strip
  link size origin := by
    rw [link_strip]
    cases CoreWar.link size p origin with
    | error e => exact .error rfl
    | ok image => exact .ok ⟨rfl, rfl⟩

theorem load_map_strip (programs : List Program) (s : Settings) :
    load (programs.map Program.strip) s = load programs s := by
  have hid : LoadError.mapCause id = id := by
    funext e
    cases e <;> rfl
  rw [load_rewrite linksAlike_strip, hid]
  cases load programs s <;> rfl

/-- **Loading ignores what does not count.** Without it programs load as they do with it, and
programs that differ in nothing else load alike. -/
theorem load_ignores :
    (∀ (programs : List Program) (s : Settings),
      load (programs.map Program.strip) s = load programs s) ∧
    ∀ (programs programs' : List Program) (s : Settings),
      programs.map Program.strip = programs'.map Program.strip →
        load programs s = load programs' s := by
  refine ⟨load_map_strip, fun programs programs' s h => ?_⟩
  rw [← load_map_strip, h, load_map_strip]

/-- The program `stepper` with comments, and with names that are not defined, a division by zero
and a label that is taken where they do not count. -/
def cluttered : Program :=
  [{ mnemonic := .op .mov, label := some "top", comment := some "copy", aField := .symbol "last",
      bField := .symbol "gap" },
    { mnemonic := .equ, label := some "gap", aMode := .indirect, bMode := .immediate,
      aField := .binary .subtract (.symbol "top") (.literal 2),
      bField := .binary .divide (.symbol "nowhere") (.literal 0) },
    { mnemonic := .op .jmp, comment := some "again", aField := .symbol "top" },
    { mnemonic := .op .dat, label := some "last", aMode := .immediate, bMode := .immediate },
    { mnemonic := .finish, label := some "top", comment := some "start behind the jump",
      aMode := .autodecrement, aField := .symbol "last", bField := .symbol "nowhere" },
    { mnemonic := .equ },
    { mnemonic := .op .dat, label := some "last", aField := .symbol "nowhere" }]

/-- It loads like the program without all that. -/
theorem load_ignores_cluttered :
    [cluttered, walker].map Program.strip = [stepper, walker].map Program.strip ∧
    (∃ arena, load [stepper, walker] { coreSize := 8 } = .ok arena ∧
      load [cluttered, walker] { coreSize := 8 } = .ok arena) := by
  have hstrip : [cluttered, walker].map Program.strip = [stepper, walker].map Program.strip := rfl
  obtain ⟨arena, hload⟩ : ∃ arena, load [stepper, walker] { coreSize := 8 } = .ok arena := ⟨_, rfl⟩
  refine ⟨hstrip, arena, hload, ?_⟩
  rw [load_ignores.2 _ _ _ hstrip, hload]

end CoreWar
