/-
# Process queues

The processes of a warrior wait in a queue of program counters: the process at
the front runs next, and its successors join at the back. A queue is held as
the list of its front part and the reversed list of its back part, so that
both ends are cheap; how the two parts are cut does not matter, so two queues
with the same program counters in the same order are equal (`ext`).

Key definitions: `ProcessQueue`, `ProcessQueue.toList`, `ProcessQueue.push`,
`ProcessQueue.pop?`.
Key theorems: `ProcessQueue.ext`, `ProcessQueue.toList_push`,
`ProcessQueue.pop?_eq`, `ProcessQueue.isEmpty_eq`.
-/
import CoreWar.Address

namespace CoreWar

namespace ProcessQueue

/-- A queue cut in two: `front` in order, `back` reversed. -/
structure Halves where
  front : List Address
  back : List Address

namespace Halves

def toList (h : Halves) : List Address := h.front ++ h.back.reverse

instance sameList : Setoid Halves where
  r x y := x.toList = y.toList
  iseqv := ⟨fun _ => rfl, Eq.symm, Eq.trans⟩

def push (h : Halves) (pc : Address) : Halves := ⟨h.front, pc :: h.back⟩

def pop? (h : Halves) : Option (Address × Halves) :=
  match h.front with
  | pc :: front => some (pc, ⟨front, h.back⟩)
  | [] =>
    match h.back.reverse with
    | pc :: front => some (pc, ⟨front, []⟩)
    | [] => none

def isEmpty (h : Halves) : Bool := h.front.isEmpty && h.back.isEmpty

theorem toList_push (h : Halves) (pc : Address) : (h.push pc).toList = h.toList ++ [pc] := by
  simp [toList, push]

theorem isEmpty_eq (h : Halves) : h.isEmpty = h.toList.isEmpty := by
  obtain ⟨front, back⟩ := h
  cases front <;> cases back <;> simp [isEmpty, toList]

end Halves

end ProcessQueue

/-- The program counters of a warrior's processes, next one first. -/
def ProcessQueue := Quotient ProcessQueue.Halves.sameList

namespace ProcessQueue

def ofHalves (h : Halves) : ProcessQueue := Quotient.mk _ h

/-- The program counters, front first. -/
def toList (q : ProcessQueue) : List Address :=
  Quotient.lift Halves.toList (fun _ _ h => h) q

def ofList (pcs : List Address) : ProcessQueue := ofHalves ⟨pcs, []⟩

theorem ofHalves_eq {x y : Halves} (h : x.toList = y.toList) : ofHalves x = ofHalves y :=
  Quotient.sound h

/-- Add a process at the back. -/
def push (q : ProcessQueue) (pc : Address) : ProcessQueue :=
  Quotient.lift (fun h => ofHalves (h.push pc))
    (fun x y h => ofHalves_eq (by
      rw [Halves.toList_push, Halves.toList_push, show x.toList = y.toList from h])) q

/-- The first program counter of a list and the queue of the others. -/
def uncons : List Address → Option (Address × ProcessQueue)
  | [] => none
  | pc :: pcs => some (pc, ofList pcs)

theorem Halves.pop?_map (h : Halves) :
    (h.pop?.map fun p => (p.1, ofHalves p.2)) = uncons h.toList := by
  obtain ⟨front, back⟩ := h
  cases front with
  | cons pc front =>
    exact congrArg some (Prod.ext rfl (ofHalves_eq (by simp [toList])))
  | nil => cases hb : back.reverse <;> simp [pop?, toList, hb, uncons, ofList]

/-- Take the process at the front. -/
def pop? (q : ProcessQueue) : Option (Address × ProcessQueue) :=
  Quotient.lift (fun h => h.pop?.map fun p => (p.1, ofHalves p.2))
    (fun x y h => by
      rw [Halves.pop?_map, Halves.pop?_map, show x.toList = y.toList from h]) q

def isEmpty (q : ProcessQueue) : Bool :=
  Quotient.lift Halves.isEmpty
    (fun x y h => by
      rw [Halves.isEmpty_eq, Halves.isEmpty_eq, show x.toList = y.toList from h]) q

/-- The number of processes. -/
def length (q : ProcessQueue) : Nat := q.toList.length

@[ext] theorem ext {p q : ProcessQueue} (h : p.toList = q.toList) : p = q := by
  induction p using Quotient.inductionOn with | _ x => ?_
  induction q using Quotient.inductionOn with | _ y => ?_
  exact Quotient.sound h

@[simp] theorem toList_ofList (pcs : List Address) : (ofList pcs).toList = pcs := by
  show pcs ++ [].reverse = pcs
  simp

@[simp] theorem ofList_toList (q : ProcessQueue) : ofList q.toList = q :=
  ext (toList_ofList _)

@[simp] theorem toList_push (q : ProcessQueue) (pc : Address) :
    (q.push pc).toList = q.toList ++ [pc] := by
  induction q using Quotient.inductionOn with | _ h => ?_
  exact h.toList_push pc

/-- Taking the front process is taking the head of the list. -/
theorem pop?_eq (q : ProcessQueue) : q.pop? = uncons q.toList := by
  induction q using Quotient.inductionOn with | _ h => ?_
  exact h.pop?_map

theorem isEmpty_eq (q : ProcessQueue) : q.isEmpty = q.toList.isEmpty := by
  induction q using Quotient.inductionOn with | _ h => ?_
  exact h.isEmpty_eq

instance : DecidableEq ProcessQueue := fun p q =>
  if h : p.toList = q.toList then .isTrue (ext h)
  else .isFalse fun e => h (e ▸ rfl)

end ProcessQueue

end CoreWar
