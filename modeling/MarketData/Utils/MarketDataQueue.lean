/-
The queue classes as their users see them.

`BaseGenerator` and `IDisseminator` are templates over `MarketDataQueue`; all they
ask of it is `push(item)` and `pop(item, stop_token)`.  `QueueCode` is that
interface: program counters and instructions for the two operations.
`SpinSpscQueue` and `WaitableSpscQueue` are two values of it.

A stop token is a flag with at most one registered callback, guarded by the stop
state's own lock.  `request_stop` sets the flag and claims the registered
callback in one step, runs it, and reports it finished; a callback constructed
after the request is run by its constructor instead, and a destructor waits for a
callback that is running.  The only callback of the program is the one
`WaitableSpscQueue::pop` registers, so its body stands in `StopPc`.

`machine` puts one producer thread, one consumer thread and one thread that
requests a stop on a queue.  Each of their accesses takes effect at once, for all of
them; the machine of `StoreBuffers` is there for stores that take effect later.
-/
import MarketData.Utils.CustomSpscQueue

namespace MarketData

open Lib

variable {T : Type} {W : Nat}

/-! ### Stop tokens -/

inductive Callback
  | none
  | registered
  | running
deriving DecidableEq, Repr

/-- The state a stop source and its tokens share. -/
structure StopState where
  requested : Bool
  callback : Callback
deriving DecidableEq, Repr

/-- A new `std::stop_source`. -/
def StopState.initial : StopState := { requested := false, callback := .none }

/-- `request_stop`, on the thread that calls it. -/
inductive StopPc
  | request
  | callbackStore
  | callbackNotify
  | callbackDone
  | done
deriving DecidableEq, Repr

def StopPc.code : StopPc → Code T W StopState StopPc
  | .request => .lib fun st =>
      if st.requested then (st, .done)
      else if st.callback = .registered then
        ({ requested := true, callback := .running }, .callbackStore)
      else ({ st with requested := true }, .done)
  | .callbackStore => .store .isSleeping_ false .release .callbackNotify
  | .callbackNotify => .notify .callbackDone
  | .callbackDone => .lib fun st => ({ st with callback := .none }, .done)
  | .done => .halt

/-! ### The interface -/

/-- A queue class: how `push` and `pop` run, and what a notify does to a pop that
is blocked in `wait`. -/
structure QueueCode (T : Type) (W : Nat) where
  PushPc : Type
  PopPc : Type
  push : T → PushPc
  pushCode : PushPc → Code T W StopState PushPc
  pushRet : PushPc → Option Bool
  pop : PopPc
  popCode : PopPc → Code T W StopState PopPc
  popRet : PopPc → Option (Option T)
  wake : PopPc → PopPc

namespace MarketDataQueue

/-- The queue's memory, the stop state of the consumer's token, and the call each
thread is in, if any. -/
structure State (Q : QueueCode T W) where
  mem : Mem T W
  stop : StopState
  prod : Option Q.PushPc
  cons : Option Q.PopPc
  stopper : Option StopPc

/-- A thread calls an operation, makes its next step, or returns.  A blocked pop
may also be unblocked spuriously; it then tests the flag again. -/
inductive Event (T : Type)
  | callPush (item : T)
  | callPop
  | callRequestStop
  | push
  | pop
  | requestStop
  | spurious
  | retPush
  | retPop

variable {Q : QueueCode T W}

/-- Carry a notify over to the consumer. -/
def woken (b : Bool) (c : Option Q.PopPc) : Option Q.PopPc := if b then c.map Q.wake else c

def stepPush (s : State Q) (p : Q.PushPc) : Option (State Q) :=
  ((Q.pushCode p).sc s.mem s.stop).map fun n =>
    { s with mem := n.mem, stop := n.obj, prod := some n.pc, cons := woken n.woken s.cons }

def stepPop (s : State Q) (c : Q.PopPc) : Option (State Q) :=
  ((Q.popCode c).sc s.mem s.stop).map fun n =>
    { s with mem := n.mem, stop := n.obj, cons := some n.pc }

def stepStop (s : State Q) (p : StopPc) : Option (State Q) :=
  (p.code.sc s.mem s.stop).map fun n =>
    { s with mem := n.mem, stop := n.obj, stopper := some n.pc, cons := woken n.woken s.cons }

def step (s : State Q) : Event T → Option (State Q)
  | .callPush item =>
      match s.prod with
      | none => some { s with prod := some (Q.push item) }
      | some _ => none
  | .callPop =>
      match s.cons with
      | none => some { s with cons := some Q.pop }
      | some _ => none
  | .callRequestStop =>
      match s.stopper with
      | none => some { s with stopper := some .request }
      | some _ => none
  | .push => s.prod.bind (stepPush s)
  | .pop => s.cons.bind (stepPop s)
  | .requestStop => s.stopper.bind (stepStop s)
  | .spurious => some { s with cons := s.cons.map Q.wake }
  | .retPush =>
      match s.prod.bind Q.pushRet with
      | some _ => some { s with prod := none }
      | none => none
  | .retPop =>
      match s.cons.bind Q.popRet with
      | some _ => some { s with cons := none }
      | none => none

def machine (Q : QueueCode T W) : Machine (State Q) (Event T) where
  init := { mem := Mem.initial, stop := StopState.initial, prod := none, cons := none,
            stopper := none }
  step := step

/-- What the callers see of a step. -/
inductive Obs (T : Type)
  | callPush (item : T)
  | retPush (ok : Bool)
  | callPop
  | retPop (res : Option T)
  | callRequestStop
deriving DecidableEq

def obs (s : State Q) : Event T → Option (Obs T)
  | .callPush item => some (.callPush item)
  | .callPop => some .callPop
  | .callRequestStop => some .callRequestStop
  | .retPush => (s.prod.bind Q.pushRet).map .retPush
  | .retPop => (s.cons.bind Q.popRet).map .retPop
  | _ => none

end MarketDataQueue

end MarketData
