/-
# The ideal machine

The rules of the game over plain numbers, without words of any width. Memory
has a cell for each integer modulo `N`, fields are integers, and an operand
leads to `pc + field` modulo `N`. An instruction that is neither `DAT` nor
disallowed resolves A and then B, both from the cell as it was fetched, and
then has the effect that the table `perform` gives for its opcode and its
operands. Cycles are counted by a natural number.

A turn runs the front process of the warrior at the cursor. The rotation
looks through the other warriors in order and comes back to that one last;
the first that is alive is next. The outcome is looked at after every turn.

Key definitions: `Ideal.Cell`, `Ideal.Memory`, `Ideal.resolve`,
`Ideal.perform`, `Ideal.execute`, `Ideal.Machine`, `Ideal.Machine.tick`.
-/
import Mathlib.Data.List.Rotate
import Mathlib.Data.ZMod.Basic
import CoreWar.Battle

namespace CoreWar
namespace Ideal

/-! ### Memory and operands -/

/-- A cell whose fields are integers. -/
structure Cell where
  opcode : Opcode
  aMode : Mode
  aField : Int
  bMode : Mode
  bField : Int
  deriving DecidableEq

/-- A cell for each integer modulo `N`. -/
abbrev Memory (N : Nat) := ZMod N → Cell

variable {N : Nat}

/-- The memory after `v` is stored in the B-field of the cell at `x`. -/
def setB (m : Memory N) (x : ZMod N) (v : Int) : Memory N :=
  Function.update m x { m x with bField := v }

/-- What an operand comes to. -/
inductive Operand (N : Nat)
  /-- The raw field of an immediate operand. -/
  | value (v : Int)
  /-- The cell that any other operand leads to. -/
  | place (x : ZMod N)

/-- Resolve an operand of the instruction at `pc`. -/
def resolve (m : Memory N) (pc : ZMod N) (field : Int) : Mode → Operand N × Memory N
  | .immediate => (.value field, m)
  | .direct => (.place (pc + field), m)
  | .indirect => (.place (pc + field + (m (pc + field)).bField), m)
  | .autodecrement =>
    let pointer := (m (pc + field)).bField - 1
    (.place (pc + field + pointer), setB m (pc + field) pointer)

/-- What an operand contributes to a test: its raw value, or a B-field. -/
def Operand.tested (m : Memory N) : Operand N → Int
  | .value v => v
  | .place x => (m x).bField

/-! ### Instructions -/

/-- The operand that may not be immediate but is. -/
def Cell.disallowed? (c : Cell) : Option Slot :=
  if c.bMode = .immediate ∧ c.opcode ∈ [.add, .sub, .djn, .slt] then some .b
  else if c.aMode = .immediate ∧ c.opcode ∈ [.jmp, .jmz, .jmn, .spl] then some .a
  else none

/-- What the instruction `c` at `pc` does once its operands are resolved: the program
counters to queue and the memory after it. -/
def perform (c : Cell) (pc : ZMod N) (m : Memory N) (a b : Operand N) :
    List (ZMod N) × Memory N :=
  match c.opcode, a, b with
  | .mov, .place x, .place y => ([pc + 1], Function.update m y (m x))
  | .mov, .value _, .place y => ([pc + 1], setB m y c.aField)
  -- an immediate B stands for the executing cell
  | .mov, _, .value _ => ([pc + 1], setB m pc c.aField)
  | .add, .value v, .place y => ([pc + 1], setB m y ((m y).bField + v))
  | .add, .place x, .place y =>
    ([pc + 1], Function.update m y { m y with
      aField := (m y).aField + (m x).aField
      bField := (m y).bField + (m x).bField })
  | .sub, .value v, .place y => ([pc + 1], setB m y ((m y).bField - v))
  | .sub, .place x, .place y =>
    ([pc + 1], Function.update m y { m y with
      aField := (m y).aField - (m x).aField
      bField := (m y).bField - (m x).bField })
  | .jmp, .place x, _ => ([x], m)
  | .jmz, .place x, b => ([if b.tested m = 0 then x else pc + 1], m)
  | .jmn, .place x, b => ([if b.tested m ≠ 0 then x else pc + 1], m)
  | .djn, .place x, .place y =>
    ([if (m y).bField - 1 = 0 then x else pc + 1], setB m y ((m y).bField - 1))
  | .djn, .value _, .place y => ([pc + 1], setB m y ((m y).bField - 1))
  | .cmp, .value v, b => ([if v = b.tested m then pc + 2 else pc + 1], m)
  | .cmp, .place x, .value v => ([if (m x).bField = v then pc + 2 else pc + 1], m)
  | .cmp, .place x, .place y =>
    ([if (m x).aField = (m y).aField ∧ (m x).bField = (m y).bField then pc + 2 else pc + 1], m)
  | .slt, .value v, .place y => ([if v < (m y).bField then pc + 2 else pc + 1], m)
  | .slt, .place x, .place y => ([if (m x).aField < (m y).bField then pc + 2 else pc + 1], m)
  | .spl, .place x, _ => ([pc + 1, x], m)
  -- `DAT` and disallowed operands do not come here
  | _, _, _ => ([], m)

/-- What one executed instruction leaves behind. -/
structure Execution (N : Nat) where
  /-- The program counters to queue. -/
  next : List (ZMod N)
  memory : Memory N
  /-- The operand that made the instruction disallowed. -/
  fault : Option Slot

/-- Run the instruction at `pc`. -/
def execute (m : Memory N) (pc : ZMod N) : Execution N :=
  let c := m pc
  if c.opcode = .dat then ⟨[], m, none⟩
  else match c.disallowed? with
    | some slot => ⟨[pc + 1], m, some slot⟩
    | none =>
      let a := resolve m pc c.aField c.aMode
      let b := resolve a.2 pc c.bField c.bMode
      let done := perform c pc b.2 a.1 b.1
      ⟨done.1, done.2, none⟩

/-! ### Turns -/

/-- A warrior and its program counters, next one first. -/
structure Contender (N : Nat) where
  id : UInt64
  queue : List (ZMod N)
  deriving DecidableEq

def Contender.alive (w : Contender N) : Bool := !w.queue.isEmpty

/-- The ids of the living, in order. -/
def living (ws : List (Contender N)) : List UInt64 := (ws.filter Contender.alive).map Contender.id

/-- A disallowed instruction was met. -/
structure Incident (N : Nat) where
  cycle : Nat
  warrior : UInt64
  pc : ZMod N
  fault : Fault

/-- A match under way. -/
structure Machine (N : Nat) where
  memory : Memory N
  warriors : List (Contender N)
  cursor : Nat
  cycles : Nat
  limit : Option Nat
  /-- How many were alive at the start. -/
  contenders : Nat
  outcome : Option Verdict
  /-- Who was eliminated and in which cycle. -/
  eliminations : List (UInt64 × Nat)
  incidents : List (Incident N)

/-- The position that has the turn after `cursor`. -/
def following (ws : List (Contender N)) (cursor : Nat) : Nat :=
  (((List.range ws.length).rotate (cursor + 1)).find? fun i =>
    ws[i]?.any Contender.alive).getD cursor

/-- The outcome after `cycles` turns with `ids` alive. -/
def decided (contenders : Nat) (limit : Option Nat) (cycles : Nat) (ids : List UInt64) :
    Option Verdict :=
  match ids with
  | [] => some .extinct
  | id :: others =>
    if 2 ≤ contenders ∧ others = [] then some (.winner id)
    else if ∃ l ∈ limit, l ≤ cycles then some (.draw (id :: others))
    else none

namespace Machine

/-- A match before its first turn. -/
def start (memory : Memory N) (warriors : List (Contender N)) (limit : Option Nat) : Machine N :=
  { memory, warriors, limit
    cursor := (warriors.findIdx? Contender.alive).getD 0
    cycles := 0
    contenders := (living warriors).length
    outcome := if living warriors = [] then some .extinct else none
    eliminations := []
    incidents := [] }

/-- The warrior `id` at the cursor runs its process at `pc`; `rest` are its others. -/
def play (m : Machine N) (id : UInt64) (pc : ZMod N) (rest : List (ZMod N)) : Machine N :=
  let done := execute m.memory pc
  let warriors := m.warriors.set m.cursor ⟨id, rest ++ done.next⟩
  let cycle := m.cycles + 1
  let outcome := decided m.contenders m.limit cycle (living warriors)
  { m with
    memory := done.memory
    warriors
    outcome
    cursor := if outcome = none then following warriors m.cursor else m.cursor
    cycles := cycle
    eliminations := m.eliminations ++ if rest ++ done.next = [] then [(id, cycle)] else []
    incidents := m.incidents ++ (done.fault.map fun slot =>
      (⟨cycle, id, pc, (m.memory pc).opcode, slot⟩ : Incident N)).toList }

/-- One turn; a match that is over stays as it is. -/
def tick (m : Machine N) : Machine N :=
  match m.outcome, m.warriors[m.cursor]? with
  | none, some ⟨id, pc :: rest⟩ => m.play id pc rest
  | _, _ => m

/-- The first `n` turns. -/
def ticks (m : Machine N) : Nat → Machine N
  | 0 => m
  | n + 1 => (m.ticks n).tick

/-- Every field of every cell lies between `-bound` and `bound`. -/
def FieldsWithin (bound : Int) (m : Machine N) : Prop :=
  ∀ x, |(m.memory x).aField| ≤ bound ∧ |(m.memory x).bField| ≤ bound

instance [NeZero N] (bound : Int) (m : Machine N) : Decidable (m.FieldsWithin bound) :=
  inferInstanceAs (Decidable (∀ x, |(m.memory x).aField| ≤ bound ∧ |(m.memory x).bField| ≤ bound))

end Machine

end Ideal
end CoreWar
