/-
`CustomSpscQueue` with stale views of the counters.

The same code as in `CustomSpscQueue`, where an atomic load may return any value the
counter has held that is not older than what the thread saw of it last.  Of its own
counter a thread has seen everything.  The slots are plain memory: what an access of a
slot finds is what is there, and whether it may be there is the question.
-/
import MarketData.Utils.CustomSpscQueue

namespace MarketData

open Lib

namespace StaleCounters

variable {T : Type} {W : Nat}

/-- The variables with the values they have held, how far each thread has come, and the
calls the two threads are in. -/
structure State (T : Type) (W : Nat) where
  mem : Mem T W
  past : (l : Loc) → List (Cell T W l)
  prodSeen : Loc → Nat
  consSeen : Loc → Nat
  prod : Option (PushPc T W)
  cons : Option (PopPc T W)

/-- A thread calls, makes its next access or returns; `pick` is the value that an atomic
load returns. -/
inductive Event (T : Type)
  | callPush (item : T)
  | callPop
  | push (pick : Nat)
  | pop (pick : Nat)
  | retPush
  | retPop
deriving DecidableEq

def stepPush (N : Capacity W) (s : State T W) (pick : Nat) (p : PushPc T W) :
    Option (State T W) :=
  ((p.code N).stale s.mem s.past s.prodSeen () pick).map fun n =>
    { s with mem := n.mem, past := n.past, prodSeen := n.seen, prod := some n.pc }

def stepPop (N : Capacity W) (s : State T W) (pick : Nat) (c : PopPc T W) :
    Option (State T W) :=
  ((c.code N).stale s.mem s.past s.consSeen () pick).map fun n =>
    { s with mem := n.mem, past := n.past, consSeen := n.seen, cons := some n.pc }

def step (N : Capacity W) (s : State T W) : Event T → Option (State T W)
  | .callPush item =>
      match s.prod with
      | none => some { s with prod := some (.loadWrite item) }
      | some _ => none
  | .callPop =>
      match s.cons with
      | none => some { s with cons := some .loadRead }
      | some _ => none
  | .push pick => s.prod.bind (stepPush N s pick)
  | .pop pick => s.cons.bind (stepPop N s pick)
  | .retPush =>
      match s.prod with
      | some (.done _ _) => some { s with prod := none }
      | _ => none
  | .retPop =>
      match s.cons with
      | some (.done _) => some { s with cons := none }
      | _ => none

/-- A new queue and two idle threads. -/
def machine (T : Type) (N : Capacity W) : Machine (State T W) (Event T) where
  init := { mem := Mem.initial, past := fun _ => [], prodSeen := fun _ => 0,
            consSeen := fun _ => 0, prod := none, cons := none }
  step := step N

/-- Observer: the item whose construction a step publishes. -/
def published (s : State T W) : Event T → Option T
  | .push _ =>
      match s.prod with
      | some (.publish item _) => some item
      | _ => none
  | _ => none

/-- A store of a counter: with that of `write_` an item enters the queue, and with that of
`read_` one leaves it. -/
inductive Count (T : Type)
  | entered (item : T)
  | left (item : T)
deriving DecidableEq

def pushCounts : PushPc T W → Option (Count T)
  | .publish item _ => some (.entered item)
  | _ => none

def popCounts : PopPc T W → Option (Count T)
  | .publish _ item => some (.left item)
  | _ => none

/-- Observer: the items that enter and leave. -/
def counted (s : State T W) : Event T → Option (Count T)
  | .push _ => s.prod.bind pushCounts
  | .pop _ => s.cons.bind popCounts
  | _ => none

/-- The slot of a producer that has passed the full test and not yet published. -/
def producerSlot (N : Capacity W) : Option (PushPc T W) → Option Nat
  | some (.construct _ w) => some (w.toNat % N.val)
  | some (.publish _ w) => some (w.toNat % N.val)
  | _ => none

/-- The slot of a consumer that has passed the empty test and not yet published. -/
def consumerSlot (N : Capacity W) : Option (PopPc T W) → Option Nat
  | some (.move r) => some (r.toNat % N.val)
  | some (.destroy r _) => some (r.toNat % N.val)
  | some (.publish r _) => some (r.toNat % N.val)
  | _ => none

end StaleCounters

end MarketData
