/-
`ZmqFeedHandler`: its thread, `receive_loop_impl` and the socket it reads.

A message on the socket has one frame or more, and `recv` hands out one frame at a time.
Of the library it is assumed that frames come in order, and that `rcvmore` tells whether
the frame received last was not the last of its message.  A call of `recv` can also time
out or throw, and then consumes nothing.

A frame in the model knows where it came from; the code looks at its bytes only.  The
socket outlives the thread, so a session goes on at the frame where the one before left
off.
-/
import MarketData.FeedHandler.IFeedHandler
import MarketData.Lib.Machine

namespace MarketData

open Lib IFeedHandler

namespace ZmqFeedHandler

/-- A message of at least one frame. -/
structure Multipart where
  first : List Byte
  rest : List (List Byte)
deriving DecidableEq

def Multipart.frames (m : Multipart) : List (List Byte) := m.first :: m.rest

/-- A received frame, with the number of its message and its place in it. -/
structure Frame where
  message : Nat
  index : Nat
  bytes : List Byte
deriving DecidableEq

/-- Where the thread is in `receive_loop_impl`. -/
inductive Pc
  | checkStop
  | recvTopic
  | getRcvmore (topic : Frame)
  | recvPayload (topic : Frame)
  | finished
deriving DecidableEq

/-- `stream` is everything that has arrived at the socket, `message` and `frame` are the
place of the frame that `recv` returns next; `thread` is `none` while the thread is not
joinable. -/
structure State where
  stream : List Multipart
  message : Nat
  frame : Nat
  rcvmore : Bool
  stopRequested : Bool
  thread : Option Pc

def State.initial : State :=
  { stream := [], message := 0, frame := 0, rcvmore := false, stopRequested := false,
    thread := none }

def State.goto (s : State) (pc : Pc) : State := { s with thread := some pc }

/-- How a call of `recv` ends: with a frame, with a timeout, or with an exception, which
for `ETERM` and `ENOTSOCK` ends the loop. -/
inductive Outcome
  | frame
  | timeout
  | error
  | terminated
deriving DecidableEq

/-- The next frame of the socket, and the socket after it. -/
def recv (s : State) : Option (Frame × State) :=
  (s.stream[s.message]?).bind fun m =>
    (m.frames[s.frame]?).map fun bytes =>
      (⟨s.message, s.frame, bytes⟩,
        if s.frame + 1 < m.frames.length then { s with frame := s.frame + 1, rcvmore := true }
        else { s with message := s.message + 1, frame := 0, rcvmore := false })

inductive Event
  | start
  | requestStop
  | join
  | arrive (m : Multipart)
  | checkStop
  | recv (outcome : Outcome) (now : BitVec 64)
  | rcvmore

def start (s : State) : State :=
  match s.thread with
  | some _ => s
  | none => { s with stopRequested := false, thread := some .checkStop }

/-- The first half of `stop`. -/
def requestStop (s : State) : State :=
  match s.thread with
  | some _ => { s with stopRequested := true }
  | none => s

/-- The second half of `stop`: it waits for the thread to finish. -/
def join (s : State) : Option State :=
  match s.thread with
  | none => some s
  | some .finished => some { s with thread := none }
  | some _ => none

/-- Where the loop goes on after a call of `recv` that brought no frame. -/
def afterFailure : Outcome → Pc
  | .terminated => .finished
  | _ => .checkStop

/-- A call of `recv` in the loop. -/
def recvStep (s : State) (outcome : Outcome) : Option State :=
  match s.thread with
  | some .recvTopic =>
      if outcome = .frame then (recv s).map fun (topic, s') => s'.goto (.getRcvmore topic)
      else some (s.goto (afterFailure outcome))
  | some (.recvPayload _) =>
      if outcome = .frame then (recv s).map fun (_, s') => s'.goto .checkStop
      else some (s.goto (afterFailure outcome))
  | _ => none

def step (s : State) : Event → Option State
  | .start => some (start s)
  | .requestStop => some (requestStop s)
  | .join => join s
  | .arrive m => some { s with stream := s.stream ++ [m] }
  | .checkStop =>
      match s.thread with
      | some .checkStop => some (s.goto (if s.stopRequested then .finished else .recvTopic))
      | _ => none
  | .recv outcome _ => recvStep s outcome
  | .rcvmore =>
      match s.thread with
      | some (.getRcvmore topic) =>
          some (s.goto (if s.rcvmore then .recvPayload topic else .checkStop))
      | _ => none

def machine : Machine State Event where
  init := State.initial
  step := step

/-! ### What can be seen of a run -/

/-- The two frames an iteration takes for a topic and its payload. -/
structure Handled where
  topic : Frame
  payload : Frame
  now : BitVec 64
deriving DecidableEq

/-- Observer: the iterations that get both frames. -/
def handled (s : State) : Event → Option Handled
  | .recv .frame now =>
      match s.thread with
      | some (.recvPayload topic) => (recv s).map fun (payload, _) => ⟨topic, payload, now⟩
      | _ => none
  | _ => none

/-- Observer: the message in whose middle a call of `recv` brought no frame. -/
def interrupted (s : State) : Event → Option Nat
  | .recv outcome _ =>
      match s.thread with
      | some (.recvPayload topic) => if outcome = .frame then none else some topic.message
      | _ => none
  | _ => none

/-- What the iteration delivers. -/
def Handled.deliver (cb : Callbacks) (h : Handled) : Option Delivery :=
  handle cb h.now h.topic.bytes h.payload.bytes

/-- Observer: the callback a step makes. -/
def delivered (cb : Callbacks) (s : State) (e : Event) : Option Delivery :=
  (handled s e).bind (Handled.deliver cb)

/-- The deliveries whose topic came from the message with number `j`. -/
def deliveriesOf (cb : Callbacks) (j : Nat) (es : List Event) : List Delivery :=
  ((machine.log handled es).filter fun h => h.topic.message = j).filterMap (Handled.deliver cb)

end ZmqFeedHandler

end MarketData
