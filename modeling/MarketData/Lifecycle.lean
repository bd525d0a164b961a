/-
`start` and `stop` of the three classes that own a thread, and the threads they create.

One thread calls `start` and `stop` on a `BaseGenerator`, an `IDisseminator` and an
`IFeedHandler`; its calls are cut into the steps between which another thread can run.
A thread is never removed: `threads` holds every thread there has been, and a thread has
a component, a place in its loop and the stop token it tests.

Stop states are numbered as they are made, since what matters is which one a token
refers to.  A `jthread` makes one of its own and passes its token to a function that
takes one: that is how a disseminator's and a feed handler's worker get theirs.  The
generator's function takes none.  It fetches its token from `stop_source_` when it
first runs, `start` puts a new stop source there before it creates the thread, and
`stop` requests the stop on whatever `stop_source_` is then.

Of a worker's loop there is what leads from one test of the stop token to the next; the
result of the work in between is in the event.
-/
import MarketData.Lib.Machine
import Mathlib.Logic.Function.Basic

namespace MarketData

open Lib

namespace Lifecycle

inductive Component
  | generator
  | disseminator
  | feedHandler
deriving DecidableEq, Repr

/-- Where a worker is: at a test of its stop token (`checkStop`, and `retry` before a
`push`), or at the work after it. -/
inductive Pc
  | begin
  | checkStop
  | readClock
  | retry
  | pushing
  | popping
  | sending
  | receiving
  | finished
deriving DecidableEq, Repr

/-- A thread; the generator's has no token until it has fetched it. -/
structure Thread where
  component : Component
  token : Option Nat
  pc : Pc
deriving DecidableEq, Repr

/-- A joinable `std::jthread`: its thread and the stop state it made. -/
structure Jthread where
  thread : Nat
  source : Nat
deriving DecidableEq, Repr

/-- Where the controlling thread is inside a call. -/
inductive Control
  | startTest (c : Component)
  | newStopSource
  | spawn (c : Component)
  | assign (c : Component) (j : Jthread)
  | stopTest (c : Component)
  | requestStop (c : Component)
  | join (c : Component)
deriving DecidableEq, Repr

/-- `stopRequested` has an entry for each stop state; `jthread` are the members
`generating_thread_`, `worker_` and `receiver_thread_`, `none` where not joinable. -/
structure State where
  messagesPerSec : BitVec 32
  stopRequested : List Bool
  stopSource : Nat
  threads : List Thread
  jthread : Component → Option Jthread
  control : Option Control

/-- Three new objects: `stop_source_` refers to the first stop state. -/
def State.initial : State :=
  { messagesPerSec := 0, stopRequested := [false], stopSource := 0, threads := [],
    jthread := fun _ => none, control := none }

def State.goto (s : State) (pc : Option Control) : State := { s with control := pc }

/-- Calls, the next step inside a call, and a step of the thread with number `t`. -/
inductive Event
  | setRate (messagesPerSecond : BitVec 32)
  | start (c : Component)
  | stop (c : Component)
  | control
  | worker (t : Nat) (outcome : Bool)
deriving DecidableEq, Repr

/-! ### The controlling thread -/

/-- `start` up to where it decides whether there is something to do. -/
def startTest (s : State) (c : Component) : State :=
  if c = .generator ∧ s.messagesPerSec = 0 then s.goto none
  else
    match s.jthread c with
    | some _ => s.goto none
    | none => s.goto (some (if c = .generator then .newStopSource else .spawn c))

/-- `stop_source_ = std::stop_source()`. -/
def newStopSource (s : State) : State :=
  { s with stopSource := s.stopRequested.length, stopRequested := s.stopRequested ++ [false],
           control := some (.spawn .generator) }

/-- The constructor of a `jthread`: a stop state, and a thread that may run at once. -/
def spawn (s : State) (c : Component) : State :=
  { s with
    stopRequested := s.stopRequested ++ [false]
    threads := s.threads ++
      [{ component := c, pc := .begin,
         token := if c = .generator then none else some s.stopRequested.length }]
    control := some (.assign c { thread := s.threads.length, source := s.stopRequested.length }) }

/-- The new `jthread` becomes the member, and `start` returns. -/
def assign (s : State) (c : Component) (j : Jthread) : State :=
  { s with jthread := Function.update s.jthread c (some j), control := none }

def stopTest (s : State) (c : Component) : State :=
  match s.jthread c with
  | none => s.goto none
  | some _ => s.goto (some (.requestStop c))

/-- The stop state on which `stop` of the component requests the stop. -/
def source (s : State) : Component → Jthread → Nat
  | .generator, _ => s.stopSource
  | _, j => j.source

/-- `request_stop` on the stop state with number `k`. -/
def State.request (s : State) (k : Nat) : State :=
  { s with stopRequested := s.stopRequested.set k true }

def requestStop (s : State) (c : Component) : Option State :=
  (s.jthread c).map fun j => (s.request (source s c j)).goto (some (.join c))

/-- `join` waits for the thread to finish, and `stop` returns. -/
def join (s : State) (c : Component) : Option State :=
  (s.jthread c).bind fun j =>
    match (s.threads[j.thread]?).map Thread.pc with
    | some .finished =>
        some { s with jthread := Function.update s.jthread c none, control := none }
    | _ => none

def controlStep (s : State) : Control → Option State
  | .startTest c => some (startTest s c)
  | .newStopSource => some (newStopSource s)
  | .spawn c => some (spawn s c)
  | .assign c j => some (assign s c j)
  | .stopTest c => some (stopTest s c)
  | .requestStop c => requestStop s c
  | .join c => join s c

/-! ### The worker threads -/

/-- `generation_loop`: `outcome` is whether a message is due, or what `push` returns. -/
def generationLoop (stopRequested outcome : Bool) : Pc → Option Pc
  | .begin => some .checkStop
  | .checkStop => some (if stopRequested then .finished else .readClock)
  | .readClock => some (if outcome then .retry else .checkStop)
  | .retry => some (if stopRequested then .checkStop else .pushing)
  | .pushing => some (if outcome then .checkStop else .retry)
  | _ => none

/-- `run_loop` and the loop of `pop` inside it; `outcome` is whether there was a message. -/
def runLoop (stopRequested outcome : Bool) : Pc → Option Pc
  | .begin => some .checkStop
  | .checkStop => some (if stopRequested then .finished else .popping)
  | .popping => some (if outcome then .sending else .checkStop)
  | .sending => some .checkStop
  | _ => none

/-- `receive_loop_impl`; `outcome` is false when the socket has been shut down, on which
`ZmqFeedHandler` leaves its loop. -/
def receiveLoop (stopRequested outcome : Bool) : Pc → Option Pc
  | .begin => some .checkStop
  | .checkStop => some (if stopRequested then .finished else .receiving)
  | .receiving => some (if outcome then .checkStop else .finished)
  | _ => none

def loop : Component → Bool → Bool → Pc → Option Pc
  | .generator => generationLoop
  | .disseminator => runLoop
  | .feedHandler => receiveLoop

/-- The stop state whose token the thread has, or would get if it fetched it now. -/
def Thread.stopState (s : State) (th : Thread) : Nat := th.token.getD s.stopSource

/-- What a test of its stop token tells the thread. -/
def Thread.seesStop (s : State) (th : Thread) : Bool :=
  (s.stopRequested[th.stopState s]?).getD false

/-- A step of a thread; with the first one it has its token. -/
def Thread.step (s : State) (th : Thread) (outcome : Bool) : Option Thread :=
  (loop th.component (th.seesStop s) outcome th.pc).map fun pc =>
    { th with token := some (th.stopState s), pc := pc }

def workerStep (s : State) (t : Nat) (outcome : Bool) : Option State :=
  (s.threads[t]?).bind fun th =>
    (th.step s outcome).map fun th' => { s with threads := s.threads.set t th' }

def step (s : State) : Event → Option State
  | .setRate r =>
      if s.control = none then some (if r < 1 then s else { s with messagesPerSec := r }) else none
  | .start c => if s.control = none then some (s.goto (some (.startTest c))) else none
  | .stop c => if s.control = none then some (s.goto (some (.stopTest c))) else none
  | .control => s.control.bind (controlStep s)
  | .worker t outcome => workerStep s t outcome

def machine : Machine State Event where
  init := State.initial
  step := step

/-! ### What can be seen of a run -/

/-- A thread that has not finished. -/
def Live (s : State) (c : Component) (t : Nat) : Prop :=
  ∃ th, s.threads[t]? = some th ∧ th.component = c ∧ th.pc ≠ .finished

/-- `push` of the market-data queue is called in `generation_loop`, -/
def CanPush (s : State) (t : Nat) : Prop := Live s .generator t

/-- and `pop` in `run_loop`. -/
def CanPop (s : State) (t : Nat) : Prop := Live s .disseminator t

/-- What happens in a run: a `start` creates the thread `t`, a `stop` is called, makes
its stop request and returns, and the thread `t` tests its stop token. -/
inductive Act
  | created (c : Component) (t : Nat)
  | stopCalled (c : Component)
  | stopRequested (c : Component)
  | stopReturned (c : Component)
  | tested (c : Component) (t : Nat) (seen : Bool)
deriving DecidableEq, Repr

def controlAct (s : State) : Control → Option Act
  | .spawn c => some (.created c s.threads.length)
  | .stopTest c => if s.jthread c = none then some (.stopReturned c) else none
  | .requestStop c => some (.stopRequested c)
  | .join c => some (.stopReturned c)
  | _ => none

/-- A thread tests its token at these two places. -/
def workerAct (s : State) (t : Nat) (th : Thread) : Option Act :=
  if th.pc = .checkStop ∨ th.pc = .retry then some (.tested th.component t (th.seesStop s))
  else none

def act (s : State) : Event → Option Act
  | .stop c => some (.stopCalled c)
  | .control => s.control.bind (controlAct s)
  | .worker t _ => (s.threads[t]?).bind (workerAct s t)
  | _ => none

end Lifecycle

end MarketData
