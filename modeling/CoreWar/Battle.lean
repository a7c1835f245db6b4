/-
# Battles

A battle is a core, the warriors in it and a cursor at the warrior whose turn
it is. One turn runs one process of that warrior; the cursor then moves on to
the next warrior that is alive, so warriors alternate however many processes
each has. A turn ends the battle

* with `extinct` when no warrior is left,
* with `winner` when one is left of two or more that were alive at the start,
* with `draw` when the cycle limit is reached.

The limit is looked at after a turn, so a limit of zero allows one turn.

Key definitions: `Verdict`, `Battle`, `Battle.ofParts`, `Battle.turn`,
`Battle.tick`, `Battle.ticks`, `Battle.run`, `Battle.snapshot`.
-/
import CoreWar.Execution

namespace CoreWar

/-- How a battle ended; warriors are named by their ids. -/
inductive Verdict
  /-- Every other warrior was eliminated. -/
  | winner (warrior : UInt64)
  /-- The cycle limit was reached with these warriors alive. -/
  | draw (survivors : List UInt64)
  /-- No warrior is left. -/
  | extinct
  deriving DecidableEq

/-- A warrior lost its last process. -/
structure Elimination where
  warrior : UInt64
  cycle : UInt64
  deriving DecidableEq

/-- A disallowed instruction was met. -/
structure Incident where
  cycle : UInt64
  warrior : UInt64
  pc : Address
  fault : Fault
  deriving DecidableEq

/-- A battle under way. -/
structure Battle where
  core : Core
  warriors : List Warrior
  /-- The position in `warriors` of the one whose turn it is. -/
  cursor : Nat
  /-- The number of turns taken. -/
  cycles : UInt64
  limit : Option UInt64
  /-- How many warriors were alive at the start. -/
  contenders : Nat
  verdict : Option Verdict
  /-- What was eliminated so far, in order. -/
  eliminations : Array Elimination
  /-- The disallowed instructions met so far, in order. -/
  incidents : Array Incident
  deriving DecidableEq

/-- What happened in one turn. -/
structure Turn where
  cycle : UInt64
  warrior : UInt64
  /-- The executed instruction; none when the warrior had no process. -/
  step : Option Step
  /-- Was the warrior without a process at the end of its turn? -/
  eliminated : Bool
  verdict : Option Verdict
  deriving DecidableEq

namespace Turn

/-- The elimination that the turn adds to the record. -/
def elimination? (t : Turn) : Option Elimination :=
  if t.eliminated then some ⟨t.warrior, t.cycle⟩ else none

/-- The incident that the turn adds to the record. -/
def incident? (t : Turn) : Option Incident :=
  t.step.bind fun s => s.fault.map fun f => ⟨t.cycle, t.warrior, s.pc, f⟩

end Turn

namespace Battle

/-- The ids of the warriors that are alive, in order. -/
def survivors (warriors : List Warrior) : List UInt64 :=
  (warriors.filter Warrior.alive).map Warrior.id

/-- The position of the first warrior that is alive behind `cursor`, going round. -/
def nextAlive (warriors : List Warrior) (cursor : Nat) : Nat :=
  let positions := (List.range warriors.length).map fun k => (cursor + 1 + k) % warriors.length
  (positions.find? fun i => warriors[i]?.any Warrior.alive).getD cursor

/-- The verdict after `cycles` turns. -/
def judge (contenders : Nat) (limit : Option UInt64) (cycles : UInt64)
    (warriors : List Warrior) : Option Verdict :=
  let atLimit (ids : List UInt64) : Option Verdict :=
    if limit.any (· ≤ cycles) then some (.draw ids) else none
  match survivors warriors with
  | [] => some .extinct
  | [id] => if 1 < contenders then some (.winner id) else atLimit [id]
  | ids => atLimit ids

/-- A battle over a core that already holds its warriors. -/
def ofParts (core : Core) (warriors : List Warrior) (limit : Option UInt64) : Battle :=
  let contenders := warriors.countP Warrior.alive
  { core, warriors, limit, contenders
    cursor := (warriors.findIdx? Warrior.alive).getD 0
    cycles := 0
    verdict := if contenders = 0 then some .extinct else none
    eliminations := #[]
    incidents := #[] }

/-- Let the warrior `w` at the cursor take its turn. -/
def advance (b : Battle) (w : Warrior) : Turn × Battle :=
  let ⟨core, warriors, cursor, cycles, limit, contenders, _, eliminations, incidents⟩ := b
  let (step, w, core) := w.act core
  let warriors := warriors.set cursor w
  let cycle := cycles + 1
  let verdict := judge contenders limit cycle warriors
  let t : Turn := ⟨cycle, w.id, step, !w.alive, verdict⟩
  (t,
    { core, warriors, limit, contenders, verdict
      cursor := if verdict.isSome then cursor else nextAlive warriors cursor
      cycles := cycle
      eliminations := t.elimination?.elim eliminations eliminations.push
      incidents := t.incident?.elim incidents incidents.push })

/-- The next turn, if the battle is not over, and the battle after it. -/
def turn (b : Battle) : Option Turn × Battle :=
  match b.verdict, b.warriors[b.cursor]? with
  | none, some w =>
    let (t, b) := b.advance w
    (some t, b)
  | _, _ => (none, b)

/-- Take one turn; a battle that is over stays as it is. -/
def tick (b : Battle) : Battle := b.turn.2

/-- Take `n` turns. -/
def ticks : Nat → Battle → Battle
  | 0, b => b
  | n + 1, b => ticks n b.tick

/-- Is the battle still undecided? -/
def isOpen (b : Battle) : Bool := b.verdict.isNone

/-- Take turns until the battle is over, but at most `fuel` of them. Each turn
is passed to `f` together with what `f` has made of the turns before. -/
def follow (f : α → Turn → α) : Nat → α → Battle → α × Battle
  | 0, x, b => (x, b)
  | fuel + 1, x, b =>
    match b.turn with
    | (some t, b) => follow f fuel (f x t) b
    | (none, b) => (x, b)

/-- The number of turns that the cycle counter can still count. A battle with a
limit is over before it runs out. -/
def horizon (b : Battle) : Nat := UInt64.size - b.cycles.toNat

/-- Take turns until the battle is over. -/
def run (b : Battle) : Battle := (b.follow (fun _ _ => ()) b.horizon ()).2

/-- The warrior whose turn it is, unless the battle is over. -/
def current? (b : Battle) : Option Warrior :=
  if b.isOpen then b.warriors[b.cursor]? else none

end Battle

/-- One warrior in a snapshot. -/
structure WarriorState where
  id : UInt64
  alive : Bool
  queue : List Address
  deriving DecidableEq

/-- The visible state of a battle. -/
structure Snapshot where
  cycle : UInt64
  memory : Array Instruction
  warriors : List WarriorState
  deriving DecidableEq

def Battle.snapshot (b : Battle) : Snapshot where
  cycle := b.cycles
  memory := b.core.cells
  warriors := b.warriors.map fun w => ⟨w.id, w.alive, w.queue.toList⟩

end CoreWar
