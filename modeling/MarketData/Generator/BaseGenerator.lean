/-
`BaseGenerator`: its rate, its thread and `generation_loop`.

The loop is a template over the queue class, and so it is here: it calls `push` of a
`QueueCode` and goes on by what the call returns.  What it asks of its surroundings
comes with the step: the reading of the clock, in nanoseconds, and the message that
`generate_msg_impl` of the derived class returns.

The thread fetches its token from `stop_source_` when it first runs.  `start` replaces
`stop_source_` only while there is no thread, so a flag next to the thread will do.
-/
import MarketData.Utils.MarketDataQueue
import MarketData.Utils.Types

namespace MarketData

open Lib

namespace BaseGenerator

/-- Where the thread is in `generation_loop`, with `next_time` and, while there is one,
the message. -/
inductive Pc
  | begin
  | checkStop (nextTime : Nat)
  | readClock (nextTime : Nat)
  | generate (nextTime : Nat)
  | retry (nextTime : Nat) (msg : MarketDataMsg)
  | pushing (nextTime : Nat) (msg : MarketDataMsg)
  | finished

/-- The members; `thread` is `none` while `generating_thread_` is not joinable. -/
structure State where
  messagesPerSec : BitVec 32
  interval : Nat
  stopRequested : Bool
  thread : Option Pc

/-- A new generator. -/
def State.initial : State :=
  { messagesPerSec := 0, interval := 0, stopRequested := false, thread := none }

def State.goto (g : State) (pc : Pc) : State := { g with thread := some pc }

inductive Error
  | invalidArgument (what : String)
  | logicError (what : String)
deriving DecidableEq, Repr

def setRate (g : State) (messagesPerSecond : BitVec 32) : Except Error State :=
  if messagesPerSecond < 1 then .error (.invalidArgument "Rate must be > 0")
  else .ok { g with messagesPerSec := messagesPerSecond,
                    interval := 1000000000 / messagesPerSecond.toNat }

def start (g : State) : Except Error State :=
  if g.messagesPerSec = 0 then
    .error (.logicError "Generator rate has not been configured.")
  else
    match g.thread with
    | none => .ok { g with stopRequested := false, thread := some .begin }
    | some _ => .ok g

/-- The first half of `stop`. -/
def requestStop (g : State) : State :=
  match g.thread with
  | none => g
  | some _ => { g with stopRequested := true }

/-- The second half of `stop`: it waits for the thread to finish. -/
def join (g : State) : Option State :=
  match g.thread with
  | none => some g
  | some .finished => some { g with thread := none }
  | some _ => none

/-- The message as it is pushed. -/
def stamped (now : Nat) (msg : MarketDataMsg) : MarketDataMsg :=
  msg.setEnqueueTimestamp (BitVec.ofNat 64 now)

variable {W : Nat} {Q : QueueCode MarketDataMsg W}

/-- The next step of `generation_loop` that is not an access inside `push`. -/
def generationLoop (g : State) (q : MarketDataQueue.State Q) (now : Nat) (msg : MarketDataMsg) :
    Option (State × MarketDataQueue.State Q) :=
  match g.thread with
  | none => none
  | some .begin => some (g.goto (.checkStop now), q)
  | some (.checkStop nextTime) =>
      some (g.goto (if g.stopRequested then .finished else .readClock nextTime), q)
  | some (.readClock nextTime) =>
      some (g.goto (if nextTime ≤ now then .generate nextTime else .checkStop nextTime), q)
  | some (.generate nextTime) => some (g.goto (.retry nextTime (stamped now msg)), q)
  | some (.retry nextTime msg) =>
      if g.stopRequested then some (g.goto (.checkStop (nextTime + g.interval)), q)
      else
        (MarketDataQueue.step q (.callPush msg)).map fun q' =>
          (g.goto (.pushing nextTime msg), q')
  | some (.pushing nextTime msg) =>
      (q.prod.bind Q.pushRet).bind fun ok =>
        (MarketDataQueue.step q .retPush).map fun q' =>
          (g.goto (if ok then .checkStop (nextTime + g.interval) else .retry nextTime msg), q')
  | some .finished => none

end BaseGenerator

end MarketData
