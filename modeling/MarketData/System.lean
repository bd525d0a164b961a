/-
The whole program: pipeline, network, feed handler and latency monitor.

`run_benchmark_pipeline` is a template over the disseminator and the feed handler.  Here
a `Transport` is such a pair: what `send_impl` puts on the network for a message, and the
machine of the feed handler, with what it takes from the network.

The network keeps everything that was ever sent.  It may hand any of it to the feed
handler, at any time and any number of times, and it need not; so packets are lost,
delayed, reordered and duplicated.  What it hands over has been sent.

The clock is read by the generator, the disseminator and the feed handler.  A reading is
a count of nanoseconds that the stamps hold in 64 bits.
-/
import MarketData.FeedHandler.UdpFeedHandler
import MarketData.FeedHandler.ZmqFeedHandler
import MarketData.Monitor.LatencyMonitor
import MarketData.Pipeline

namespace MarketData

open Lib IDisseminator IFeedHandler

/-- A disseminator and a feed handler.  `Env` is what `send_impl` finds in its buffer. -/
structure Transport where
  Env : Type
  Packet : Type
  decidableEq : DecidableEq Packet
  sendImpl : Env → Bytes topicHeaderSize → (msg : MarketDataMsg) → Bytes (payloadSize msg) → Packet
  Handler : Type
  Event : Type
  handler : Machine Handler Event
  arriving : Event → Option Packet
  delivered : Callbacks → Handler → Event → Option Delivery

namespace Transport

instance (T : Transport) : DecidableEq T.Packet := T.decidableEq

/-- `UdpDisseminator` and `UdpFeedHandler`, with a command queue of the given capacity. -/
def udp {V : Nat} (M : Capacity V) : Transport where
  Env := Bytes UdpDisseminator.bufferSize
  Packet := List Byte
  decidableEq := inferInstance
  sendImpl := UdpDisseminator.sendImpl
  Handler := UdpFeedHandler.State V
  Event := UdpFeedHandler.Event
  handler := UdpFeedHandler.machine M
  arriving
    | .recv (.datagram bytes) _ => some bytes
    | _ => none
  delivered := UdpFeedHandler.delivered

/-- `ZmqDisseminator` and `ZmqFeedHandler`. -/
def zmq : Transport where
  Env := Unit
  Packet := ZmqFeedHandler.Multipart
  decidableEq := inferInstance
  sendImpl := fun env topic msg data =>
    let (first, second) := ZmqDisseminator.sendImpl env topic msg data
    { first := first, rest := [second] }
  Handler := ZmqFeedHandler.State
  Event := ZmqFeedHandler.Event
  handler := ZmqFeedHandler.machine
  arriving
    | .arrive m => some m
    | _ => none
  delivered := fun cb s e => (ZmqFeedHandler.handled s e).bind (ZmqFeedHandler.Handled.deliver cb)

end Transport

namespace System

variable {W : Nat}

structure State (Q : QueueCode MarketDataMsg W) (T : Transport) where
  pipeline : Pipeline.State Q
  network : List T.Packet
  handler : T.Handler
  monitor : LatencyMonitor.State

/-- A step of the pipeline, with the padding of the payload and the contents of the
buffer in case it sends something, or a step of the feed handler. -/
inductive Event (T : Transport)
  | pipeline (e : Pipeline.Event) (padding : Bytes 4) (env : T.Env)
  | handler (e : T.Event)

/-- Readings of the clock are 64-bit counts. -/
def fits : Pipeline.Event → Bool
  | .generator now _ => now < 2 ^ 64
  | .disseminator _ now => now < 2 ^ 64
  | _ => true

variable {Q : QueueCode MarketDataMsg W} {T : Transport}

/-- What a step of the pipeline puts on the network. -/
def packet (s : Pipeline.State Q) (e : Pipeline.Event) (padding : Bytes 4) (env : T.Env) :
    Option T.Packet :=
  match e with
  | .disseminator _ _ =>
      match s.worker with
      | some (.send topic msg) => some (T.sendImpl env topic msg (payload padding msg))
      | _ => none
  | _ => none

/-- The callback a step makes: the arguments of `on_quote` or `on_trade`. -/
def delivered (cb : Callbacks) (s : State Q T) : Event T → Option Delivery
  | .handler e => T.delivered cb s.handler e
  | .pipeline _ _ _ => none

def pipelineStep (s : State Q T) (e : Pipeline.Event) (padding : Bytes 4) (env : T.Env) :
    Option (State Q T) :=
  if fits e then
    (Pipeline.step s.pipeline e).map fun p =>
      { s with pipeline := p, network := s.network ++ (packet s.pipeline e padding env).toList }
  else none

/-- Whether what the step takes from the network has been sent. -/
def fromNetwork (s : State Q T) (e : T.Event) : Bool :=
  (T.arriving e).all fun p => decide (p ∈ s.network)

def handlerStep (cb : Callbacks) (s : State Q T) (e : T.Event) : Option (State Q T) :=
  if fromNetwork s e then
    (T.handler.step s.handler e).map fun h =>
      { s with handler := h,
               monitor := (T.delivered cb s.handler e).elim s.monitor
                 (LatencyMonitor.callback s.monitor) }
  else none

def step (cb : Callbacks) (s : State Q T) : Event T → Option (State Q T)
  | .pipeline e padding env => pipelineStep s e padding env
  | .handler e => handlerStep cb s e

def machine (Q : QueueCode MarketDataMsg W) (T : Transport) (cb : Callbacks) :
    Machine (State Q T) (Event T) where
  init := { pipeline := (Pipeline.machine Q).init, network := [], handler := T.handler.init,
            monitor := LatencyMonitor.State.initial }
  step := step cb

/-! ### The readings of the clock -/

/-- Three of the generator's steps read the clock: the one before its loop, the test
whether a message is due, and the stamp; of the disseminator's, the stamp. -/
def pipelineReading (s : Pipeline.State Q) : Pipeline.Event → Option Nat
  | .generator now _ =>
      match s.generator.thread with
      | some .begin => some now
      | some (.readClock _) => some now
      | some (.generate _) => some now
      | _ => none
  | .disseminator _ now =>
      match s.worker with
      | some (.stamp _ _) => some now
      | _ => none
  | _ => none

/-- Observer: the reading of the clock that a step takes. -/
def reading (cb : Callbacks) (s : State Q T) : Event T → Option Nat
  | .pipeline e _ _ => pipelineReading s.pipeline e
  | .handler e => (T.delivered cb s.handler e).map fun d => d.receiveTimestamp.toNat

end System

end MarketData
