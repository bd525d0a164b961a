/-
A generator and a disseminator on one queue, as `run_benchmark_pipeline` wires them.

The generator's thread, the disseminator's thread and whoever calls `start` and `stop`
on the two interleave freely.  Inside `push` and `pop` a step is one access; the parts
of the loops between them are single steps.  A call that throws, or that finds nothing
to do, leaves everything as it is.

`Session` is the history of one session of the generator: what it generated, what it
gave up, and whether it has been asked to stop.
-/
import MarketData.Disseminator.RunLoop
import MarketData.Generator.BaseGenerator

namespace MarketData

open Lib

namespace Pipeline

variable {W : Nat}

/-- `worker` is `none` while the disseminator's thread is not joinable. -/
structure State (Q : QueueCode MarketDataMsg W) where
  generator : BaseGenerator.State
  queue : MarketDataQueue.State Q
  worker : Option IDisseminator.Pc

/-- Calls on the generator, steps of its thread, accesses inside its `push`; the same
for the disseminator, whose `request_stop` runs the callback that `pop` registers. -/
inductive Event
  | setRate (messagesPerSecond : BitVec 32)
  | startGenerator
  | requestStopGenerator
  | joinGenerator
  | generator (now : Nat) (msg : MarketDataMsg)
  | push
  | startDisseminator
  | callRequestStop
  | requestStop
  | joinDisseminator
  | disseminator (uninitialised : Bytes topicHeaderSize) (now : Nat)
  | pop
  | spurious

variable {Q : QueueCode MarketDataMsg W}

/-- The generator after a call that may throw. -/
def afterCall (g : BaseGenerator.State) :
    Except BaseGenerator.Error BaseGenerator.State → BaseGenerator.State
  | .ok g' => g'
  | .error _ => g

def State.withQueue (s : State Q) (q : MarketDataQueue.State Q) : State Q := { s with queue := q }

/-- `IDisseminator::start`: a new thread with a new stop state. -/
def startDisseminator (s : State Q) : State Q :=
  match s.worker with
  | some _ => s
  | none =>
      { s with worker := some .begin,
               queue := { s.queue with stop := StopState.initial, stopper := none } }

/-- `IDisseminator::stop` up to its `request_stop`. -/
def callRequestStop (s : State Q) : Option (State Q) :=
  match s.worker with
  | none => some s
  | some _ => (MarketDataQueue.step s.queue .callRequestStop).map s.withQueue

/-- The rest of `IDisseminator::stop`, when `request_stop` has returned. -/
def joinDisseminator (s : State Q) : Option (State Q) :=
  match s.worker with
  | none => some s
  | some .finished =>
      match s.queue.stopper with
      | some .done => some { s with worker := none }
      | _ => none
  | some _ => none

def step (s : State Q) : Event → Option (State Q)
  | .setRate r =>
      some { s with generator := afterCall s.generator (BaseGenerator.setRate s.generator r) }
  | .startGenerator =>
      some { s with generator := afterCall s.generator (BaseGenerator.start s.generator) }
  | .requestStopGenerator => some { s with generator := BaseGenerator.requestStop s.generator }
  | .joinGenerator => (BaseGenerator.join s.generator).map fun g => { s with generator := g }
  | .generator now msg =>
      (BaseGenerator.generationLoop s.generator s.queue now msg).map fun (g, q) =>
        { s with generator := g, queue := q }
  | .push => (MarketDataQueue.step s.queue .push).map s.withQueue
  | .startDisseminator => some (startDisseminator s)
  | .callRequestStop => callRequestStop s
  | .requestStop => (MarketDataQueue.step s.queue .requestStop).map s.withQueue
  | .joinDisseminator => joinDisseminator s
  | .disseminator uninitialised now =>
      s.worker.bind fun pc =>
        (IDisseminator.runLoopStep pc s.queue uninitialised now).map fun (pc', q) =>
          { s with worker := some pc', queue := q }
  | .pop => (MarketDataQueue.step s.queue .pop).map s.withQueue
  | .spurious => (MarketDataQueue.step s.queue .spurious).map s.withQueue

/-- A new generator without a rate, an empty queue and an idle disseminator. -/
def machine (Q : QueueCode MarketDataMsg W) : Machine (State Q) Event where
  init := { generator := BaseGenerator.State.initial,
            queue := (MarketDataQueue.machine Q).init, worker := none }
  step := step

/-! ### What can be seen of a run -/

/-- The message a step passes to `send_impl`. -/
def sent (s : State Q) : Event → Option MarketDataMsg
  | .disseminator _ _ =>
      match s.worker with
      | some (.send _ msg) => some msg
      | _ => none
  | _ => none

/-- What happens to a session of the generator. -/
inductive Mark
  | started
  | generated (msg : MarketDataMsg)
  | dropped (msg : MarketDataMsg)
  | stopRequested

/-- A call of `start` that creates a thread starts a session. -/
def startMark (g : BaseGenerator.State) : Option Mark :=
  if g.messagesPerSec = 0 then none
  else
    match g.thread with
    | none => some .started
    | some _ => none

/-- A message is generated when it has its enqueue stamp, and dropped when the loop
leaves its retries because of the stop request. -/
def loopMark (g : BaseGenerator.State) (now : Nat) (msg : MarketDataMsg) : Option Mark :=
  match g.thread with
  | some (.generate _) => some (.generated (BaseGenerator.stamped now msg))
  | some (.retry _ msg') => if g.stopRequested then some (.dropped msg') else none
  | _ => none

def mark (s : State Q) : Event → Option Mark
  | .startGenerator => startMark s.generator
  | .requestStopGenerator => s.generator.thread.map fun _ => .stopRequested
  | .generator now msg => loopMark s.generator now msg
  | _ => none

/-- The history of a session. -/
structure Session where
  generated : List MarketDataMsg
  dropped : List MarketDataMsg
  stopRequested : Bool

/-- A session that has just been started. -/
def Session.start : Session := { generated := [], dropped := [], stopRequested := false }

/-- What the session generated, less what it dropped at the end. -/
def Session.kept (s : Session) : List MarketDataMsg :=
  s.generated.take (s.generated.length - s.dropped.length)

/-- The earlier sessions, and the latest one. -/
structure Sessions where
  past : List Session
  latest : Option Session

def Sessions.all (ss : Sessions) : List Session := ss.past ++ ss.latest.toList

/-- A new session, or one more entry in the latest one. -/
def Sessions.record (ss : Sessions) : Mark → Sessions
  | .started => { past := ss.all, latest := some Session.start }
  | .generated msg =>
      { ss with latest := ss.latest.map fun s => { s with generated := s.generated ++ [msg] } }
  | .dropped msg =>
      { ss with latest := ss.latest.map fun s => { s with dropped := s.dropped ++ [msg] } }
  | .stopRequested =>
      { ss with latest := ss.latest.map fun s => { s with stopRequested := true } }

/-- The sessions of a run. -/
def sessions (Q : QueueCode MarketDataMsg W) (es : List Event) : Sessions :=
  ((machine Q).log mark es).foldl Sessions.record { past := [], latest := none }

end Pipeline

end MarketData
