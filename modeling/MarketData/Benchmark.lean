/-
`run_benchmark_pipeline`: what the main thread calls, in its order.

The main thread configures the generator, starts the feed handler, subscribes to the
symbols of the file, starts the disseminator and the generator, and stops the three in
the order generator, disseminator, feed handler.  In between it sleeps, and how long
plays no part.  Meanwhile the threads it has started run, so a run of the benchmark is a
run of the system whose calls are those of the main thread.

A `stop` is cut in two: its stop request, and the join that waits for the thread.  A call
that is several accesses to something another thread uses has a first event and then
steps of its own (`inside`): `request_stop` on the disseminator, whose callback shares
the waitable queue's flag, and `subscribe` on a `UdpFeedHandler`, which is a push into the
command queue.  `subscribe` on a `ZmqFeedHandler` sets a filter of the socket; in the
model that is a matter of what arrives there.
-/
import MarketData.Main
import MarketData.System

namespace MarketData

open Lib

namespace Main

/-- A call of the main thread, or the half of one. -/
inductive MainCall
  | setRate (messagesPerSecond : BitVec 32)
  | startHandler
  | subscribe (c : Call)
  | subscribed
  | startDisseminator
  | startGenerator
  | requestStopGenerator
  | joinGenerator
  | requestStopDisseminator
  | joinDisseminator
  | requestStopHandler
  | joinHandler
deriving DecidableEq

/-- How the calls on a feed handler show in its events, what a `subscribe` is, and whether
`receiver_thread_` is joinable. -/
structure HandlerCalls (T : Transport) where
  joinable : T.Handler → Bool
  call : T.Event → Option MainCall
  inside : T.Event → Bool
  subscribe : List Byte → List MainCall

def udpCalls {V : Nat} (M : Capacity V) : HandlerCalls (.udp M) where
  joinable s := s.receiver.isSome
  call
    | .start _ => some .startHandler
    | .call c => some (.subscribe c)
    | .ret => some .subscribed
    | .requestStop => some .requestStopHandler
    | .join => some .joinHandler
    | _ => none
  inside
    | .client => true
    | _ => false
  subscribe := fun symbol => [.subscribe { isSubscribe := true, symbol := symbol }, .subscribed]

def zmqCalls : HandlerCalls .zmq where
  joinable s := s.thread.isSome
  call
    | .start => some .startHandler
    | .requestStop => some .requestStopHandler
    | .join => some .joinHandler
    | _ => none
  inside _ := false
  subscribe _ := []

/-- What `run_benchmark_pipeline` calls, from `configure` to its last `stop`. -/
def runBenchmarkPipeline {T : Transport} (X : HandlerCalls T) (messageRate : BitVec 32)
    (symbolsFile : List Byte) : List MainCall :=
  [.setRate messageRate, .startHandler] ++
    (subscribedSymbols symbolsFile).flatMap X.subscribe ++
    [.startDisseminator, .startGenerator, .requestStopGenerator, .joinGenerator,
      .requestStopDisseminator, .joinDisseminator, .requestStopHandler, .joinHandler]

/-- The calls of a benchmark that has been set up. -/
def Benchmark.calls (files : String → List Byte) (b : Benchmark) {T : Transport}
    (X : HandlerCalls T) : List MainCall :=
  runBenchmarkPipeline X b.config.messageRate (files b.config.symbolsFile)

/-- The calls on the generator and the disseminator. -/
def pipelineCall : Pipeline.Event → Option MainCall
  | .setRate r => some (.setRate r)
  | .startGenerator => some .startGenerator
  | .requestStopGenerator => some .requestStopGenerator
  | .joinGenerator => some .joinGenerator
  | .startDisseminator => some .startDisseminator
  | .callRequestStop => some .requestStopDisseminator
  | .joinDisseminator => some .joinDisseminator
  | _ => none

variable {T : Transport} (X : HandlerCalls T)

def mainCall : System.Event T → Option MainCall
  | .pipeline e _ _ => pipelineCall e
  | .handler e => X.call e

/-- A step of the main thread inside a call. -/
def insideCall : System.Event T → Bool
  | .pipeline .requestStop _ _ => true
  | .pipeline _ _ _ => false
  | .handler e => X.inside e

def isMain (e : System.Event T) : Bool := (mainCall X e).isSome || insideCall X e

/-- The calls made in a run. -/
def callsOf (es : List (System.Event T)) : List MainCall := es.filterMap (mainCall X)

/-- The run is one of a main thread that makes these calls and may not be done with them. -/
def Follows (calls : List MainCall) (es : List (System.Event T)) : Prop := callsOf X es <+: calls

/-- The main thread has made all of them. -/
def Returned (calls : List MainCall) (es : List (System.Event T)) : Prop := callsOf X es = calls

end Main

end MarketData
