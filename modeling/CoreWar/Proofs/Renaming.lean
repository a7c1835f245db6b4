/-
# Names are only names

Rename all labels and all symbols of all programs, no two names to the same
one. The programs load as before: into the same arena, or with the same error
at the same statement, in which the name at fault, if there is one, is the
renamed one (`load_rename`).

A name is only ever looked up and compared with the names that are bound
already. So it is enough that the renamed table finds for a renamed name what
the table finds for the name (`SymbolTable.Renamed`). As no two names become
one, definitions keep this, those that fail as a duplicate included; evaluation
only looks up. The two walks over the statements, the constants and the
fields then go side by side.

Key definitions: `Program.rename`, `LoadError.rename`, `SymbolTable.Renamed`,
`Outline.Renamed`.
Key theorems: `SymbolTable.Renamed.define`, `SymbolTable.Renamed.evaluate`,
`outline_rename`, `link_rename`, `load_rename`.
-/
import Mathlib.Logic.Equiv.Basic
import CoreWar.Proofs.LoadedCells
import CoreWar.Proofs.Parallel

namespace CoreWar

/-! ### Renaming -/

variable (f : String → String)

/-- The expression with every name renamed. -/
def Expression.rename : Expression → Expression
  | literal v => literal v
  | symbol name => symbol (f name)
  | binary op left right => binary op left.rename right.rename

/-- The statement with its label and all names in its fields renamed. -/
def Statement.rename (s : Statement) : Statement :=
  { s with
    label := s.label.map f
    aField := s.aField.rename f
    bField := s.bField.rename f }

def Program.rename (p : Program) : Program := p.map (Statement.rename f)

def SymbolError.rename : SymbolError → SymbolError
  | unresolved name => unresolved (f name)
  | divisionByZero => divisionByZero
  | duplicate name => duplicate (f name)

def StatementError.rename : StatementError → StatementError
  | symbol e => symbol (e.rename f)
  | unlabeledConstant => unlabeledConstant

/-- The error with the name in it, if there is one, renamed. -/
def LoadError.rename : LoadError → LoadError := LoadError.mapCause (StatementError.rename f)

/-- The failure at the same statement, with the name in it renamed. -/
def LinkFailure.rename (e : LinkFailure) : LinkFailure := (e.1, e.2.rename f)

variable {f}

theorem Expression.symbol?_rename (e : Expression) : (e.rename f).symbol? = e.symbol?.map f := by
  cases e <;> rfl

theorem Program.footprint_rename (p : Program) : (p.rename f).footprint = p.footprint := by
  rw [footprint, footprint, body, body, rename, List.takeWhile_map, List.countP_map]
  rfl

/-! ### Tables -/

namespace SymbolTable

variable {t u : SymbolTable}

/-- The table `u` finds for a renamed name what `t` finds for the name. -/
def Renamed (f : String → String) (t u : SymbolTable) : Prop :=
  ∀ name, u.find? (f name) = t.find? name

theorem renamed_empty : Renamed f empty empty := fun _ => rfl

/-- A name is taken in both tables or in none. -/
theorem Renamed.define (hf : Function.Injective f) (h : t.Renamed f u) (name : String)
    (b : Binding) : Parallel (SymbolError.rename f) (Renamed f) (t.define name b)
      (u.define (f name) b) := by
  unfold SymbolTable.define
  rw [h name]
  split
  · exact .error rfl
  · refine .ok fun n => ?_
    by_cases hn : n = name
    · subst hn
      simp [find?]
    · have hfn : f n ≠ f name := fun he => hn (hf he)
      have hrest : u.bindings.lookup (f n) = t.bindings.lookup n := h n
      simp [find?, List.lookup_cons, beq_eq_false_iff_ne.mpr hn, beq_eq_false_iff_ne.mpr hfn, hrest]

/-- Evaluation only looks names up. -/
theorem Renamed.evaluate (h : t.Renamed f u) (here : Address) : ∀ e : Expression,
    Parallel (SymbolError.rename f) Eq (t.evaluate here e) (u.evaluate here (e.rename f))
  | .literal v => .ok rfl
  | .symbol name => by
    rw [Expression.rename, evaluate_symbol_eq, evaluate_symbol_eq, h name]
    cases t.find? name with
    | none => exact .error rfl
    | some b => exact .ok rfl
  | .binary op left right => by
    rw [Expression.rename, evaluate_binary_eq, evaluate_binary_eq]
    refine (h.evaluate here left).bind fun x x' hx => ?_
    refine (h.evaluate here right).bind fun y y' hy => ?_
    subst hx hy
    cases op.eval? x y with
    | none => exact .error rfl
    | some v => exact .ok rfl

end SymbolTable

/-- A failure of the table becomes a failure at the same statement. -/
theorem Parallel.atStatement {α β : Type} {R : α → β → Prop} {x : Except SymbolError α}
    {y : Except SymbolError β} (h : Parallel (SymbolError.rename f) R x y) (index : Nat) :
    Parallel (LinkFailure.rename f) R (CoreWar.atStatement index x)
      (CoreWar.atStatement index y) :=
  h.mapError fun _ => rfl

/-! ### Linking -/

/-- The two walks have collected the same, up to names. -/
structure Outline.Renamed (f : String → String) (o r : Outline) : Prop where
  labels : o.labels.Renamed f r.labels
  instructions : List.Forall₂ (fun p q : Placed => q = { p with statement := p.statement.rename f })
    o.instructions r.instructions
  constants : List.Forall₂ (fun d d' : Definition =>
    d' = { d with name := f d.name, value := d.value.rename f }) o.constants r.constants
  entry : r.entry = o.entry.map f

section Link

variable (hf : Function.Injective f)

include hf

theorem bindLabel_rename {t u : SymbolTable} (h : t.Renamed f u) (index : Nat) (here : Address) :
    ∀ label : Option String, Parallel (LinkFailure.rename f) (SymbolTable.Renamed f)
      (bindLabel t index here label) (bindLabel u index here (label.map f))
  | none => .ok h
  | some name => (h.define hf name _).atStatement index

theorem outline_rename (size : Nat) : ∀ (p : Program) (index : Nat) (here : Address)
    {t u : SymbolTable}, t.Renamed f u → Parallel (LinkFailure.rename f) (Outline.Renamed f)
      (outline size index here t p) (outline size index here u (p.rename f))
  | [], _, _, _, _, h => .ok ⟨h, .nil, .nil, rfl⟩
  | s :: rest, index, here, t, u, h => by
    have hmnemonic : (s.rename f).mnemonic = s.mnemonic := rfl
    have hlabel : (s.rename f).label = s.label.map f := rfl
    show Parallel _ _ _ (outline size index here u (s.rename f :: Program.rename f rest))
    unfold outline
    rw [hmnemonic, hlabel]
    cases hm : s.mnemonic with
    | op o =>
      refine (bindLabel_rename hf h index here s.label).bind fun t' u' h' => ?_
      refine (outline_rename size rest _ _ h').map fun o r hr => ?_
      exact ⟨hr.labels, .cons rfl hr.instructions, hr.constants, hr.entry⟩
    | equ =>
      cases s.label with
      | none => exact .error rfl
      | some name =>
        refine (outline_rename size rest _ _ h).map fun o r hr => ?_
        exact ⟨hr.labels, hr.instructions, .cons rfl hr.constants, hr.entry⟩
    | finish => exact .ok ⟨h, .nil, .nil, s.aField.symbol?_rename⟩

theorem Definition.bind_rename {t u : SymbolTable} (h : t.Renamed f u) (d : Definition) :
    Parallel (LinkFailure.rename f) (SymbolTable.Renamed f) (d.bind t)
      (Definition.bind u { d with name := f d.name, value := d.value.rename f }) := by
  refine ((h.evaluate d.address d.value).atStatement d.index).bind fun v w hv => ?_
  subst hv
  exact (h.define hf d.name _).atStatement d.index

omit hf in
theorem Placed.cell_rename {t u : SymbolTable} (h : t.Renamed f u) (p : Placed) :
    Parallel (LinkFailure.rename f) Eq (p.cell t)
      (Placed.cell u { p with statement := p.statement.rename f }) := by
  refine ((h.evaluate p.address p.statement.aField).atStatement p.index).bind fun a a' ha => ?_
  refine ((h.evaluate p.address p.statement.bField).atStatement p.index).map fun b b' hb => ?_
  rw [ha, hb]
  rfl

/-- **A renamed program has the same image.** -/
theorem link_rename (size : Nat) (p : Program) (origin : Address) :
    Parallel (LinkFailure.rename f) Image.Same (link size p origin)
      (link size (p.rename f) origin) := by
  refine (outline_rename hf size p 0 origin SymbolTable.renamed_empty).bind fun o r hr => ?_
  have hconstants : Parallel (LinkFailure.rename f) (SymbolTable.Renamed f)
      (o.constants.foldlM Definition.bind o.labels) (r.constants.foldlM Definition.bind r.labels) :=
    Parallel.foldlM (fun t u d d' h hd => hd ▸ d.bind_rename hf h) hr.constants hr.labels
  refine hconstants.bind fun t u h => ?_
  have hcells : Parallel (LinkFailure.rename f) (List.Forall₂ Eq)
      (o.instructions.mapM (Placed.cell t)) (r.instructions.mapM (Placed.cell u)) :=
    Parallel.mapM (hr.instructions.imp fun p q hq => hq ▸ p.cell_rename h)
  refine hcells.map fun cells cells' hcells' => ?_
  rw [List.forall₂_eq_eq_eq] at hcells'
  have hlabel (name : String) : u.label? (f name) = t.label? name := by
    unfold SymbolTable.label?
    rw [h name]
  have hentry : r.entry.bind u.label? = o.entry.bind t.label? := by
    rw [hr.entry, Option.bind_map]
    exact congrArg o.entry.bind (funext hlabel)
  refine ⟨hcells'.symm, ?_⟩
  simp only [hentry]

/-- **Names are only names.** With names renamed, no two to the same one, programs load into the
same arena, or fail with the same error about the renamed name. -/
theorem load_rename (programs : List Program) (s : Settings) :
    load (programs.map (Program.rename f)) s = (load programs s).mapError (LoadError.rename f) :=
  load_rewrite (fun p => ⟨p.footprint_rename, fun size origin => link_rename hf size p origin⟩)
    programs s

end Link

/-- A program that jumps to a label it does not have. -/
def astray : Program := [{ mnemonic := .op .jmp, aField := .symbol "top" }]

/-- Two labels exchange their names: what loads does so as before, and what is missing under one
name is missing under the other. -/
theorem load_rename_swapped :
    Function.Injective (Equiv.swap "top" "last") ∧
    (∃ arena, load [stepper, walker] { coreSize := 8 } = .ok arena ∧
      load ([stepper, walker].map (Program.rename (Equiv.swap "top" "last"))) { coreSize := 8 } =
        .ok arena) ∧
    load ([walker, astray].map (Program.rename (Equiv.swap "top" "last"))) { coreSize := 8 } =
      .error (.statement 1 0 (.symbol (.unresolved "last"))) := by
  have hswap : Function.Injective (Equiv.swap "top" "last") := Equiv.injective _
  obtain ⟨arena, hload⟩ : ∃ arena, load [stepper, walker] { coreSize := 8 } = .ok arena := ⟨_, rfl⟩
  refine ⟨hswap, ⟨arena, hload, ?_⟩, ?_⟩
  · rw [load_rename hswap, hload]
    rfl
  · rw [load_rename hswap]
    rfl

end CoreWar
