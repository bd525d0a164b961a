/-
`UdpFeedHandler` as it runs.

A client thread calls `subscribe` and `unsubscribe`; each call packs its symbol and
pushes a command, and drops the result of the push.  The thread of the receive loop
tests its stop token, pops commands until a pop fails, receives once and handles
what it got, and starts over.  `start` creates that thread, with a new stop token
and with new locals; `stop` requests the stop and joins.

The two threads meet only in the command queue, so its accesses are the steps here;
everything between two of them is one step.
-/
import MarketData.FeedHandler.IFeedHandler
import MarketData.Utils.CustomSpscQueue

namespace MarketData

open Lib

namespace UdpFeedHandler

open IFeedHandler

variable {W : Nat}

/-- Where the thread is in `receive_loop_impl`. -/
inductive LoopPc (W : Nat)
  | checkStop
  | drain (p : PopPc SubCommand W)
  | receive
  | finished

/-- The thread of one session and its locals. -/
structure Receiver (W : Nat) where
  pc : LoopPc W
  buffer : Bytes receiveBufferSize
  subscriptions : Finset (BitVec 64)

/-- The handler: its command queue, the call the client is in, the thread of the
receive loop while it is joinable, and that thread's stop token. -/
structure State (W : Nat) where
  commandQueue : Mem SubCommand W
  client : Option (PushPc SubCommand W)
  receiver : Option (Receiver W)
  stopRequested : Bool

/-- The client calls, makes its next access or returns; a session is started, asked
to stop, or joined; the receive loop makes its next step, or receives.  The buffer
of a new session holds anything. -/
inductive Event
  | call (c : Call)
  | client
  | ret
  | start (buffer : Bytes receiveBufferSize)
  | requestStop
  | join
  | loop
  | recv (r : Recv) (now : BitVec 64)
deriving DecidableEq

/-- The thread of the receive loop has become `r`. -/
def State.withReceiver (s : State W) (r : Receiver W) : State W := { s with receiver := some r }

/-- The client's next access. -/
def stepClient (N : Capacity W) (s : State W) (p : PushPc SubCommand W) : Option (State W) :=
  ((p.code N).sc s.commandQueue ()).map fun n =>
    { s with commandQueue := n.mem, client := some n.pc }

/-- The receive loop's next step outside `recvfrom`: the test of the stop token, an
access of a pop, or what follows a pop. -/
def stepLoop (N : Capacity W) (s : State W) (r : Receiver W) : Option (State W) :=
  match r.pc with
  | .checkStop =>
      some (s.withReceiver { r with pc := if s.stopRequested then .finished else .drain .loadRead })
  | .drain (.done (some cmd)) =>
      some (s.withReceiver
        { r with pc := .drain .loadRead, subscriptions := applyCommand r.subscriptions cmd })
  | .drain (.done none) => some (s.withReceiver { r with pc := .receive })
  | .drain p =>
      ((p.code N).sc s.commandQueue ()).map fun n =>
        { s with commandQueue := n.mem }.withReceiver { r with pc := .drain n.pc }
  | .receive => none
  | .finished => none

/-- `recvfrom` and the rest of the iteration, as far as the handler's state goes. -/
def stepRecv (s : State W) (r : Receiver W) (res : Recv) : Option (State W) :=
  match r.pc with
  | .receive =>
      some (s.withReceiver { r with pc := .checkStop, buffer := (recvfrom r.buffer res).1 })
  | _ => none

def step (N : Capacity W) (s : State W) : Event → Option (State W)
  | .call c =>
      match s.client with
      | none => some { s with client := some (.loadWrite (command c)) }
      | some _ => none
  | .client => s.client.bind (stepClient N s)
  | .ret =>
      match s.client with
      | some (.done _ _) => some { s with client := none }
      | _ => none
  | .start buffer =>
      match s.receiver with
      | none =>
          some ({ s with stopRequested := false }.withReceiver
            { pc := .checkStop, buffer := buffer, subscriptions := ∅ })
      | some _ => none
  | .requestStop => s.receiver.map fun _ => { s with stopRequested := true }
  | .join =>
      match s.receiver.map Receiver.pc with
      | some .finished => some { s with receiver := none }
      | _ => none
  | .loop => s.receiver.bind (stepLoop N s)
  | .recv res _ => s.receiver.bind fun r => stepRecv s r res

/-- A new handler. -/
def machine (N : Capacity W) : Machine (State W) Event where
  init := { commandQueue := Mem.initial, client := none, receiver := none,
            stopRequested := false }
  step := step N

/-! ### What can be seen of a run -/

/-- The calls made. -/
def called (_ : State W) : Event → Option Call
  | .call c => some c
  | _ => none

/-- The command a step puts into the command queue: the client's store of `write_`. -/
def accepted (s : State W) : Event → Option SubCommand
  | .client =>
      match s.client with
      | some (.publish cmd _) => some cmd
      | _ => none
  | _ => none

/-- The command a step applies to the subscriptions. -/
def drained (s : State W) : Event → Option SubCommand
  | .loop =>
      match s.receiver.map Receiver.pc with
      | some (.drain (.done (some cmd))) => some cmd
      | _ => none
  | _ => none

/-- The callback a step makes. -/
def delivered (cb : Callbacks) (s : State W) : Event → Option Delivery
  | .recv res now =>
      s.receiver.bind fun r =>
        handle cb r.subscriptions now (recvfrom r.buffer res).1 (recvfrom r.buffer res).2
  | _ => none

end UdpFeedHandler

end MarketData
