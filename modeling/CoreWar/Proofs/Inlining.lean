/-
# Constants can be written out

A constant saves writing, and nothing else. Take the directives out of a
program and write the values of the constants where their names were: the
instructions stand at the same addresses, the labels are the same, and each
field has the value that it had. So the image is the same (`link_inline`),
and loading gives the same arena (`load_inline`).

A constant that depends on a label has its value from the place of its
directive, so it is a number once the program has its origin. This is why the
values are those of the program at an origin (`Program.constant?`). `END` may
name a constant: that is no place to start, with the constant or without it.

Key definitions: `Expression.inline`, `Program.inline`, `Program.constant?`,
`inlineAll`.
Key theorems: `Outlined.inline`, `SymbolTable.evaluate_inline`,
`Program.constant?_eq_some`, `link_inline`, `load_inline`.
-/
import CoreWar.Proofs.LinkFaults
import CoreWar.Proofs.LoadedCells

namespace CoreWar

/-! ### Writing constants out -/

/-- The expression with the value of a name in its place, where it has one. -/
def Expression.inline (value : String → Option Field) : Expression → Expression
  | literal v => literal v
  | symbol name =>
    match value name with
    | some v => literal v
    | none => symbol name
  | binary op left right => binary op (left.inline value) (right.inline value)

def Statement.inline (value : String → Option Field) (s : Statement) : Statement :=
  { s with aField := s.aField.inline value, bField := s.bField.inline value }

/-- The program without the constants in front of the first `END`, and with values for names in
its instructions there. -/
def Program.inline (value : String → Option Field) : Program → Program
  | [] => []
  | s :: rest =>
    match s.mnemonic with
    | .op _ => s.inline value :: Program.inline value rest
    | .equ => Program.inline value rest
    | .finish => s :: rest

/-- The value that linking the program at `origin` computes for a constant. -/
def Program.constant? (size : Nat) (p : Program) (origin : Address) (name : String) :
    Option Field :=
  let table := (outline size 0 origin .empty p).bind fun o =>
    o.constants.foldlM Definition.bind o.labels
  table.toOption.bind fun t => t.constant? name

/-- The programs with their constants written out, each for its origin. -/
def inlineAll (size : Nat) (programs : List Program) (origins : List Address) : List Program :=
  programs.zipWith (fun p o => p.inline (p.constant? size o)) origins

/-! ### The instructions stay in their places -/

namespace Program

variable {value : String → Option Field} {s : Statement} {rest : Program}

theorem inline_of_op {o : Opcode} (h : s.mnemonic = .op o) :
    inline value (s :: rest) = s.inline value :: inline value rest := by
  rw [inline, h]

theorem inline_of_equ (h : s.mnemonic = .equ) : inline value (s :: rest) = inline value rest := by
  rw [inline, h]

theorem inline_of_finish (h : s.mnemonic = .finish) : inline value (s :: rest) = s :: rest := by
  rw [inline, h]

/-- In front of `END` there is nothing but the instructions. -/
theorem body_inline (value : String → Option Field) :
    ∀ p : Program, (p.inline value).body = p.instructions.map (Statement.inline value)
  | [] => rfl
  | s :: rest => by
    cases h : s.mnemonic with
    | op o =>
      rw [inline_of_op h, instructions_of_op h, body_of_ne (by simp [Statement.inline, h]),
        body_inline value rest, List.map_cons]
    | equ => rw [inline_of_equ h, instructions_of_equ h, body_inline value rest]
    | finish => rw [inline_of_finish h, instructions_of_finish h, body_of_finish h, List.map_nil]

@[simp] theorem footprint_inline (value : String → Option Field) (p : Program) :
    (p.inline value).footprint = p.footprint := by
  rw [footprint, body_inline, List.countP_map, ← length_instructions, List.countP_eq_length]
  intro s hs
  exact (List.mem_filter.mp hs).2

end Program

/-- The same instruction at the same address, with values for names. -/
structure Placed.Inlines (value : String → Option Field) (q q' : Placed) : Prop where
  address : q'.address = q.address
  opcode : q'.opcode = q.opcode
  statement : q'.statement = q.statement.inline value

/-- The walk over the program without constants binds the same labels and passes the same
instructions. -/
theorem Outlined.inline {size index : Nat} {here : Address} {t : SymbolTable} {p : Program}
    {r : Outline} (h : Outlined size index here t p r) (value : String → Option Field) :
    ∀ index', ∃ placed,
      outline size index' here t (p.inline value) = .ok ⟨r.labels, placed, [], r.entry⟩ ∧
        List.Forall₂ (Placed.Inlines value) r.instructions placed := by
  induction h with
  | nil => exact fun _ => ⟨[], rfl, .nil⟩
  | @op index here t u s rest r o ho hu _ ih =>
    intro index'
    obtain ⟨placed, hwalk, hplaced⟩ := ih (index' + 1)
    refine ⟨⟨index', here, o, s.inline value⟩ :: placed, ?_, .cons ⟨rfl, rfl, rfl⟩ hplaced⟩
    -- the position of a statement shows up in failures only
    have hlabel : bindLabel t index' here s.label = .ok u := by
      cases hl : s.label with
      | none => rwa [hl] at hu
      | some name =>
        rw [hl] at hu
        exact atStatement_eq_ok.mpr (atStatement_eq_ok.mp hu)
    rw [Program.inline_of_op ho]
    simp [outline, Statement.inline, ho, hlabel, hwalk, Except.bind, Except.map]
  | equ he _ _ ih =>
    intro index'
    rw [Program.inline_of_equ he]
    exact ih index'
  | finish hf =>
    intro index'
    rw [Program.inline_of_finish hf]
    exact ⟨[], by simp [outline, hf], .nil⟩

/-! ### The fields keep their values -/

namespace SymbolTable

variable {t u : SymbolTable}

theorem constant?_eq_some {name : String} {v : Field} :
    t.constant? name = some v ↔ t.find? name = some (.constant v) := by
  unfold constant?
  rcases t.find? name with _ | _ | _ <;> simp

/-- With the constants of one table written out, the labels of that table are enough. -/
theorem evaluate_inline (hlabels : u.label? = t.label?) {here : Address} :
    ∀ {e : Expression} {v : Field}, t.evaluate here e = .ok v →
      u.evaluate here (e.inline t.constant?) = .ok v
  | .literal _, _, h => h
  | .symbol name, v, h => by
    obtain ⟨b, hb, rfl⟩ := evaluate_symbol.mp h
    cases b with
    | constant w =>
      simp only [Expression.inline, constant?_eq_some.mpr hb]
      rfl
    | label a =>
      have hnone : t.constant? name = none := by simp [constant?, hb]
      have hfind : u.find? name = some (.label a) := by
        rw [← label?_eq_some, hlabels, label?_eq_some]
        exact hb
      simp only [Expression.inline, hnone]
      exact evaluate_symbol.mpr ⟨_, hfind, rfl⟩
  | .binary op left right, v, h => by
    obtain ⟨x, y, hx, hy, hv⟩ := evaluate_binary.mp h
    exact evaluate_binary.mpr ⟨x, y, evaluate_inline hlabels hx, evaluate_inline hlabels hy, hv⟩

/-- Constants are no labels, so adding them leaves the labels. -/
theorem label?_constants {definitions : List Definition}
    (h : definitions.foldlM Definition.bind t = .ok u) : u.label? = t.label? := by
  refine foldlM_ok_induction (P := fun u => u.label? = t.label?) (fun s d u hs hu => ?_) rfl h
  obtain ⟨v, -, hdefine⟩ := bind_eq_ok.mp hu
  rw [← hs]
  funext name
  apply Option.ext
  intro a
  rw [label?_eq_some, label?_eq_some, find?_define (atStatement_eq_ok.mp hdefine)]
  simp

end SymbolTable

theorem Placed.Inlines.cell {t u : SymbolTable} {q q' : Placed}
    (h : q.Inlines t.constant? q') (hlabels : u.label? = t.label?)
    (c : Address × Instruction) (hc : q.cell t = .ok c) : q'.cell u = .ok c := by
  obtain ⟨a, b, ha, hb, rfl⟩ := Placed.cell_eq_ok.mp hc
  refine Placed.cell_eq_ok.mpr ⟨a, b, ?_, ?_, ?_⟩
  · rw [h.address, h.statement]
    exact SymbolTable.evaluate_inline hlabels ha
  · rw [h.address, h.statement]
    exact SymbolTable.evaluate_inline hlabels hb
  · rw [h.address, h.opcode, h.statement]
    rfl

theorem mapM_of_forall₂ {ε α β γ : Type} {f : α → Except ε γ} {g : β → Except ε γ} {xs : List α}
    {ys : List β} (h : List.Forall₂ (fun x y => ∀ c, f x = .ok c → g y = .ok c) xs ys) :
    ∀ {cs : List γ}, xs.mapM f = .ok cs → ys.mapM g = .ok cs := by
  simp only [mapM_eq_ok]
  induction h with
  | nil =>
    rintro cs ⟨⟩
    exact .nil
  | cons hxy _ ih =>
    rintro cs (_ | ⟨hc, hcs⟩)
    exact .cons (hxy _ hc) (ih hcs)

section Link

variable {size : Nat} {p : Program} {origin : Address} {image : Image}

theorem Program.constant?_of_table {r : Outline} {t : SymbolTable}
    (hr : outline size 0 origin .empty p = .ok r)
    (ht : r.constants.foldlM Definition.bind r.labels = .ok t) :
    p.constant? size origin = t.constant? := by
  funext name
  simp [Program.constant?, hr, ht, Except.bind, Except.toOption]

/-- **Writing constants out leaves the image as it is.** -/
theorem link_inline (h : link size p origin = .ok image) :
    link size (p.inline (p.constant? size origin)) origin = .ok image := by
  obtain ⟨r, hr, h⟩ := bind_eq_ok.mp h
  obtain ⟨t, ht, h⟩ := bind_eq_ok.mp h
  obtain ⟨cells, hcells, rfl⟩ := map_eq_ok.mp h
  have hlabels : r.labels.label? = t.label? := (SymbolTable.label?_constants ht).symm
  rw [Program.constant?_of_table hr ht]
  obtain ⟨placed, hwalk, hplaced⟩ := (outlined hr).inline t.constant? 0
  have hcells' : placed.mapM (Placed.cell r.labels) = .ok cells :=
    mapM_of_forall₂ (hplaced.imp fun q q' hq => hq.cell hlabels) hcells
  refine bind_eq_ok.mpr ⟨_, hwalk, bind_eq_ok.mpr ⟨r.labels, rfl, ?_⟩⟩
  refine map_eq_ok.mpr ⟨cells, hcells', ?_⟩
  simp only [hlabels]

/-- The value of a constant is what its expression denotes where the directive stands. -/
theorem Program.constant?_eq_some (hs : 0 < size) (hs' : size < 2 ^ 63) (ho : origin.toNat < size)
    (h : link size p origin = .ok image) {name : String} {v : Field} :
    p.constant? size origin name = some v ↔ ∃ k e, p.Equates k name e ∧
      p.Denotes size origin.toNat k (p.addressOf size origin.toNat k) e v := by
  obtain ⟨r, hr, h⟩ := bind_eq_ok.mp h
  obtain ⟨t, ht, -⟩ := bind_eq_ok.mp h
  have hknows := ((outline_constants hs hs' ho hr).2 t ht).1.knows
  rw [Program.constant?_of_table hr ht, SymbolTable.constant?_eq_some, hknows]
  constructor
  · rintro ⟨k, e, -, he, hd⟩
    exact ⟨k, e, he, hd⟩
  · rintro ⟨k, e, he, hd⟩
    exact ⟨k, e, he.lt, he, hd⟩

end Link

/-! ### Loading -/

theorem plan_of_place {programs : List Program} {s : Settings} {origins : List Address}
    (hne : programs ≠ []) (hs : 0 < s.coreSize.toNat) (hfoot : ∀ p ∈ programs, 0 < p.footprint)
    (h : place (programs.map fun p => UInt64.ofNat p.footprint) s = .ok origins) :
    plan programs s =
      .ok ((programs.zip origins).zipIdx.map fun ((p, origin), i) => ⟨i, p, origin⟩) := by
  have hsize : s.coreSize ≠ 0 := by
    intro h0
    simp [h0] at hs
  have hnone : programs.findIdx? (fun p => p.footprint = 0) = none :=
    List.findIdx?_eq_none_iff.mpr fun p hp => by simpa using Nat.ne_of_gt (hfoot p hp)
  simp [plan, hne, hsize, hnone, h]

theorem footprints_inlineAll (size : Nat) :
    ∀ {programs : List Program} {origins : List Address}, origins.length = programs.length →
      (inlineAll size programs origins).map Program.footprint = programs.map Program.footprint
  | [], _, _ => rfl
  | p :: programs, o :: origins, h => by
    have ih := footprints_inlineAll size (Nat.succ.inj h)
    rw [List.map_cons, ← ih, ← p.footprint_inline (p.constant? size o)]
    rfl

theorem zip_inlineAll (size : Nat) : ∀ (programs : List Program) (origins : List Address),
    (inlineAll size programs origins).zip origins =
      (programs.zip origins).map fun (p, o) => (p.inline (p.constant? size o), o)
  | [], _ => rfl
  | _ :: _, [] => rfl
  | p :: programs, o :: origins => by
    rw [List.zip_cons_cons, List.map_cons, ← zip_inlineAll size programs origins]
    rfl

def Job.inline (size : Nat) (j : Job) : Job :=
  { j with program := j.program.inline (j.program.constant? size j.origin) }

theorem Job.link_inline {size : Nat} {j : Job} {image : Image} (h : j.link size = .ok image) :
    (j.inline size).link size = .ok image :=
  mapError_eq_ok.mpr (CoreWar.link_inline (mapError_eq_ok.mp h))

theorem plan_inline {programs : List Program} {s : Settings} {jobs : List Job}
    {origins : List Address} (h : plan programs s = .ok jobs)
    (hplace : place (programs.map fun p => UInt64.ofNat p.footprint) s = .ok origins) :
    plan (inlineAll s.coreSize.toNat programs origins) s =
      .ok (jobs.map (Job.inline s.coreSize.toNat)) := by
  obtain ⟨hne, hpos, hfoot, origins', hplace', rfl⟩ := plan_cases h
  obtain rfl := Except.ok.inj (hplace.symm.trans hplace')
  have hlen : origins.length = programs.length := by simpa using (place_lt hplace).1
  have hsame := footprints_inlineAll s.coreSize.toNat hlen
  rw [plan_of_place _ hpos _ _, zip_inlineAll, List.zipIdx_map, List.map_map, List.map_map]
  · rfl
  · intro hnil
    rw [hnil] at hsame
    exact hne (List.map_eq_nil_iff.mp hsame.symm)
  · intro q hq
    have hmem := List.mem_map_of_mem (f := Program.footprint) hq
    rw [hsame] at hmem
    obtain ⟨p, hp, hqp⟩ := List.mem_map.mp hmem
    rw [← hqp]
    exact hfoot p hp
  · have hlengths (ps : List Program) : ps.map (fun p => UInt64.ofNat p.footprint) =
        (ps.map Program.footprint).map UInt64.ofNat := by simp
    rw [hlengths, hsame, ← hlengths]
    exact hplace

/-- **Writing constants out leaves what is loaded as it is.** The values are those that the
directives denote in the programs at their origins. -/
theorem load_inline {programs : List Program} {s : Settings} {arena : Arena}
    (hs : s.coreSize.toNat < 2 ^ 63) (h : load programs s = .ok arena) :
    ∃ origins, place (programs.map fun p => UInt64.ofNat p.footprint) s = .ok origins ∧
      (∀ i p o, Located programs origins i p o → ∀ name v,
        p.constant? s.coreSize.toNat o name = some v ↔ ∃ k e, p.Equates k name e ∧
          p.Denotes s.coreSize.toNat o.toNat k (p.addressOf s.coreSize.toNat o.toNat k) e v) ∧
      load (inlineAll s.coreSize.toNat programs origins) s = .ok arena := by
  obtain ⟨-, hpos, -, -⟩ := load_ok h
  obtain ⟨origins, _, hplace, -, -, hlink, -, -⟩ := load_cases h
  refine ⟨origins, hplace, fun i p o hi name v => ?_, ?_⟩
  · obtain ⟨image, -, himage⟩ := hlink i p o hi
    have ho := (place_lt hplace).2 o (List.mem_of_getElem? hi.origin)
    exact Program.constant?_eq_some hpos hs ho himage
  · obtain ⟨jobs, hplan, h⟩ := bind_eq_ok.mp h
    obtain ⟨images, himages, harena⟩ := map_eq_ok.mp h
    refine bind_eq_ok.mpr ⟨_, plan_inline hplan hplace, map_eq_ok.mpr ⟨images, ?_, harena⟩⟩
    refine mapM_of_forall₂ ?_ himages
    rw [List.forall₂_map_right_iff, List.forall₂_same]
    exact fun j _ image hj => Job.link_inline hj

/-- A program with a constant that stands for the way to a label, one that is made of the first,
and the second as the place to start. -/
def ladder : Program :=
  [.constant "rung" (.binary .add (.symbol "foot") (.literal 1)),
    { mnemonic := .op .mov, label := some "head", aField := .symbol "rung",
      bField := .binary .multiply (.symbol "pair") (.symbol "foot") },
    .constant "pair" (.binary .multiply (.symbol "rung") (.literal 2)),
    { mnemonic := .op .jmp, aField := .binary .subtract (.symbol "head") (.symbol "pair") },
    { mnemonic := .op .dat, label := some "foot" },
    .finish (some "pair"),
    .constant "rung" (.literal 7)]

/-- The program lies across the end of the ring, where the constants are `-5` and `-10`. -/
theorem load_inline_ladder : ∃ arena,
    load [walker, ladder] { coreSize := 8, startPositions := some [2, 6] } = .ok arena ∧
      load [walker,
          [{ mnemonic := .op .mov, label := some "head", aField := .literal (-5),
              bField := .binary .multiply (.literal (-10)) (.symbol "foot") },
            { mnemonic := .op .jmp, aField := .binary .subtract (.symbol "head") (.literal (-10)) },
            { mnemonic := .op .dat, label := some "foot" },
            .finish (some "pair"),
            .constant "rung" (.literal 7)]]
        { coreSize := 8, startPositions := some [2, 6] } = .ok arena := by
  obtain ⟨arena, hload⟩ : ∃ arena,
      load [walker, ladder] { coreSize := 8, startPositions := some [2, 6] } = .ok arena := ⟨_, rfl⟩
  obtain ⟨origins, hplace, -, hinline⟩ := load_inline (by decide) hload
  obtain rfl : [2, 6] = origins := Except.ok.inj hplace
  exact ⟨arena, hload, hinline⟩

end CoreWar
