/-
`CustomSpscQueue<T, Capacity>`, access by access.

The class has two counters and an array of slots.  `push`, `pop` and `empty` are
several separate accesses to them, so each becomes a type of program counters
with the locals it carries, and `code` gives the access made at each one with the
memory order the source writes.  `size_t` is `BitVec W`: the counters wrap, the
full test is an equality on a wrapped difference, and a slot index is a wrapped
counter modulo the capacity.

`WaitableSpscQueue` keeps one more variable next to its queue, and both live in
the same memory, so `Loc` lists all four.
-/
import MarketData.Lib.BoundedQueue
import MarketData.Lib.Instr
import MarketData.Lib.Lifetime
import MarketData.Lib.Ring

namespace MarketData

open Lib
open Lib.BoundedQueue (Side)

/-- The shared variables of a queue object. -/
inductive Loc
  | read_
  | write_
  | data_ (i : Nat)
  | isSleeping_
deriving DecidableEq, Repr

/-- What each variable holds.  A slot is raw storage or holds an object. -/
@[reducible] def Cell (T : Type) (W : Nat) : Loc → Type
  | .read_ => BitVec W
  | .write_ => BitVec W
  | .data_ _ => Option T
  | .isSleeping_ => Bool

abbrev Mem (T : Type) (W : Nat) := (l : Loc) → Cell T W l

abbrev Code (T : Type) (W : Nat) (X P : Type) := Instr Loc (Cell T W) X P

/-- The capacities the queue is used with; every size of `dispatch_size` is one. -/
abbrev Capacity (W : Nat) := RingSize W

/-- 128 slots on a 64-bit machine: the smallest size of `dispatch_size`, and the size
of the command queue. -/
def slots128 : Capacity 64 := ⟨128, 7, by decide, rfl⟩

variable {T : Type} {W : Nat} {X : Type}

/-- Both counters zero, every slot raw, nobody asleep. -/
def Mem.initial : Mem T W
  | .read_ => (0 : BitVec W)
  | .write_ => (0 : BitVec W)
  | .data_ _ => none
  | .isSleeping_ => false

/-- How many items the queue holds: those published and not yet given up. -/
def held (m : Mem T W) : Nat := (m .write_ - m .read_).toNat

/-- The objects in the slots between the counters, oldest first. -/
def contents (N : Capacity W) (m : Mem T W) : List T :=
  (List.range (held m)).filterMap fun i => m (.data_ (N.slot (m .read_) i))

/-! ### `push` -/

inductive PushPc (T : Type) (W : Nat)
  | loadWrite (item : T)
  | loadRead (item : T) (w : BitVec W)
  | construct (item : T) (w : BitVec W)
  | publish (item : T) (w : BitVec W)
  | done (item : T) (ok : Bool)

def PushPc.code (N : Capacity W) : PushPc T W → Code T W X (PushPc T W)
  | .loadWrite item => .load .write_ .relaxed fun w => .loadRead item w
  | .loadRead item w => .load .read_ .acquire fun r =>
      if w - r = BitVec.ofNat W N.val then .done item false else .construct item w
  | .construct item w =>
      .store (.data_ (w.toNat % N.val)) (some item) .nonatomic (.publish item w)
  | .publish item w => .store .write_ (w + 1) .release (.done item true)
  | .done _ _ => .halt

/-- The instruction of a caller that is inside `push`: an access of it, or, once it
is done, the step to where the caller goes on. -/
def PushPc.call {P : Type} (N : Capacity W) (inside : PushPc T W → P) (ret : T → Bool → P) :
    PushPc T W → Code T W X P
  | .done item ok => .goto (ret item ok)
  | p => (p.code N).map inside

/-! ### `pop`

The out parameter and the boolean result are one `Option`.  Moving out of a slot
that holds no object would be undefined; that is the program counter `fault`.
-/

inductive PopPc (T : Type) (W : Nat)
  | loadRead
  | loadWrite (r : BitVec W)
  | move (r : BitVec W)
  | destroy (r : BitVec W) (item : T)
  | publish (r : BitVec W) (item : T)
  | done (res : Option T)
  | fault

def PopPc.code (N : Capacity W) : PopPc T W → Code T W X (PopPc T W)
  | .loadRead => .load .read_ .relaxed fun r => .loadWrite r
  | .loadWrite r => .load .write_ .acquire fun w => if r = w then .done none else .move r
  | .move r => .load (.data_ (r.toNat % N.val)) .nonatomic fun cell =>
      match cell with
      | some item => .destroy r item
      | none => .fault
  | .destroy r item => .store (.data_ (r.toNat % N.val)) none .nonatomic (.publish r item)
  | .publish r item => .store .read_ (r + 1) .release (.done (some item))
  | .done _ => .halt
  | .fault => .halt

/-- The instruction of a caller that is inside `pop`. -/
def PopPc.call {P : Type} (N : Capacity W) (inside : PopPc T W → P) (ret : Option T → P) :
    PopPc T W → Code T W X P
  | .done res => .goto (ret res)
  | p => (p.code N).map inside

/-! ### `empty`

The operands of `==` are loaded in an order C++ leaves open, so both are here.
-/

inductive EmptyPc (W : Nat)
  | readFirst
  | thenWrite (r : BitVec W)
  | writeFirst
  | thenRead (w : BitVec W)
  | done (b : Bool)

def EmptyPc.code : EmptyPc W → Code T W X (EmptyPc W)
  | .readFirst => .load .read_ .acquire fun r => .thenWrite r
  | .thenWrite r => .load .write_ .acquire fun w => .done (decide (r = w))
  | .writeFirst => .load .write_ .acquire fun w => .thenRead w
  | .thenRead w => .load .read_ .acquire fun r => .done (decide (r = w))
  | .done _ => .halt

/-! ### What is done to the slots -/

/-- Who destroys an object: the pop that returns it, or the destructor. -/
inductive DestroyedBy (T : Type)
  | pop (returned : T)
  | destructor

/-- A push builds an object. -/
def PushPc.slotAction (N : Capacity W) : PushPc T W → Option (SlotAction T (DestroyedBy T))
  | .construct item w => some (.construct (w.toNat % N.val) item)
  | _ => none

/-- A pop destroys the object it has moved from. -/
def PopPc.slotAction (N : Capacity W) : PopPc T W → Option (SlotAction T (DestroyedBy T))
  | .destroy r item => some (.destroy (r.toNat % N.val) (.pop item))
  | _ => none

/-! ### One producer thread and one consumer thread -/

namespace CustomSpscQueue

/-- The call the producer thread is in. -/
inductive Producer (T : Type) (W : Nat)
  | idle
  | push (p : PushPc T W)
  | empty (p : EmptyPc W)

/-- The call the consumer thread is in. -/
inductive Consumer (T : Type) (W : Nat)
  | idle
  | pop (p : PopPc T W)
  | empty (p : EmptyPc W)

structure State (T : Type) (W : Nat) where
  mem : Mem T W
  prod : Producer T W
  cons : Consumer T W

/-- A thread calls an operation, makes its next access, or returns. -/
inductive Event (T : Type)
  | callPush (item : T)
  | callPop
  | callEmpty (side : Side) (readFirst : Bool)
  | access (side : Side)
  | ret (side : Side)

def callEmpty (readFirst : Bool) : EmptyPc W := if readFirst then .readFirst else .writeFirst

/-- The producer's next access. -/
def accessProducer (N : Capacity W) (s : State T W) : Option (State T W) :=
  match s.prod with
  | .idle => none
  | .push p => ((p.code N).sc s.mem ()).map fun n => { s with mem := n.mem, prod := .push n.pc }
  | .empty p => (p.code.sc s.mem ()).map fun n => { s with mem := n.mem, prod := .empty n.pc }

/-- The consumer's next access. -/
def accessConsumer (N : Capacity W) (s : State T W) : Option (State T W) :=
  match s.cons with
  | .idle => none
  | .pop p => ((p.code N).sc s.mem ()).map fun n => { s with mem := n.mem, cons := .pop n.pc }
  | .empty p => (p.code.sc s.mem ()).map fun n => { s with mem := n.mem, cons := .empty n.pc }

def step (N : Capacity W) (s : State T W) : Event T → Option (State T W)
  | .callPush item =>
      match s.prod with
      | .idle => some { s with prod := .push (.loadWrite item) }
      | _ => none
  | .callPop =>
      match s.cons with
      | .idle => some { s with cons := .pop .loadRead }
      | _ => none
  | .callEmpty .producer readFirst =>
      match s.prod with
      | .idle => some { s with prod := .empty (callEmpty readFirst) }
      | _ => none
  | .callEmpty .consumer readFirst =>
      match s.cons with
      | .idle => some { s with cons := .empty (callEmpty readFirst) }
      | _ => none
  | .access .producer => accessProducer N s
  | .access .consumer => accessConsumer N s
  | .ret .producer =>
      match s.prod with
      | .push (.done _ _) => some { s with prod := .idle }
      | .empty (.done _) => some { s with prod := .idle }
      | _ => none
  | .ret .consumer =>
      match s.cons with
      | .pop (.done _) => some { s with cons := .idle }
      | .empty (.done _) => some { s with cons := .idle }
      | _ => none

/-- A new queue and two idle threads. -/
def machine (T : Type) (N : Capacity W) : Machine (State T W) (Event T) where
  init := { mem := Mem.initial, prod := .idle, cons := .idle }
  step := step N

/-- What the callers see of a step. -/
def obs (s : State T W) : Event T → Option (BoundedQueue.Obs T)
  | .callPush item => some (.callPush item)
  | .callPop => some .callPop
  | .callEmpty side _ => some (.callEmpty side)
  | .access _ => none
  | .ret .producer =>
      match s.prod with
      | .push (.done item ok) => some (.retPush item ok)
      | .empty (.done b) => some (.retEmpty .producer b)
      | _ => none
  | .ret .consumer =>
      match s.cons with
      | .pop (.done res) => some (.retPop res)
      | .empty (.done b) => some (.retEmpty .consumer b)
      | _ => none

/-! ### The destructor

`push` and `pop` compare a wrapped difference of the counters, or test them for equality.
The destructor compares them as numbers.
-/

/-- The loop of the destructor: the slots it destroys, in order. -/
def destroyLoop (N : Capacity W) (r w : BitVec W) : List Nat :=
  if r < w then r.toNat % N.val :: destroyLoop N (r + 1) w else []
termination_by w.toNat - r.toNat
decreasing_by
  rename_i hlt
  have hlt' : r.toNat < w.toNat := hlt
  rw [toNat_succ_of_lt hlt]
  omega

/-- The slots the destructor destroys before it gives the storage back. -/
def destructor (N : Capacity W) (m : Mem T W) : List Nat :=
  destroyLoop N (m .read_) (m .write_)

/-- What an access does to a slot. -/
def slotAction (N : Capacity W) (s : State T W) : Event T → Option (SlotAction T (DestroyedBy T))
  | .access .producer =>
      match s.prod with
      | .push p => p.slotAction N
      | _ => none
  | .access .consumer =>
      match s.cons with
      | .pop p => p.slotAction N
      | _ => none
  | _ => none

/-- Everything that was done to the slots of a queue that has been used and destroyed. -/
def slotActions (N : Capacity W) (es : List (Event T)) (m : Mem T W) :
    List (SlotAction T (DestroyedBy T)) :=
  (machine T N).log (slotAction N) es ++
    (destructor N m).map fun slot => .destroy slot .destructor

end CustomSpscQueue

end MarketData
