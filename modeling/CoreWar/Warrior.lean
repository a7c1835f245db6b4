/-
# Warriors

A warrior is a number and the queue of its processes. It is alive as long as
it has a process.

Key definitions: `Warrior`, `Warrior.start`, `Warrior.alive`.
-/
import CoreWar.ProcessQueue

namespace CoreWar

/-- A contender and its processes. -/
structure Warrior where
  id : UInt64
  queue : ProcessQueue
  deriving DecidableEq

namespace Warrior

/-- A warrior with the single process `pc`. -/
def start (id : UInt64) (pc : Address) : Warrior := ⟨id, .ofList [pc]⟩

def alive (w : Warrior) : Bool := !w.queue.isEmpty

/-- The program counter of the process that runs next. -/
def next? (w : Warrior) : Option Address := w.queue.pop?.map (·.1)

/-- Add processes at the back of the queue, in order. -/
def spawn (w : Warrior) (pcs : List Address) : Warrior :=
  { w with queue := pcs.foldl .push w.queue }

end Warrior

end CoreWar
