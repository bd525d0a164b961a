/-
`LatencyMonitor`: three differences of time stamps for every message delivered.

The stamps are `uint64_t`, and so are the differences: a later stamp taken from an
earlier one wraps around.

`State` has the records alone, which is all that the rest of the program is about.
`Vectors` has the two vectors with the room that the constructor reserves in them.
-/
import MarketData.FeedHandler.IFeedHandler
import MarketData.Lib.Vec

namespace MarketData

open Lib

structure LatencyRecord where
  queueNs : BitVec 64
  networkNs : BitVec 64
  totalNs : BitVec 64
deriving DecidableEq

namespace LatencyMonitor

structure State where
  quoteLatencies : List LatencyRecord
  tradeLatencies : List LatencyRecord
deriving DecidableEq

def State.initial : State := { quoteLatencies := [], tradeLatencies := [] }

def onQuote (m : State) (quote : Quote) (receiveTimestamp : BitVec 64) : State :=
  { m with quoteLatencies := m.quoteLatencies ++
      [{ queueNs := quote.disseminateTimestamp - quote.enqueueTimestamp,
         networkNs := receiveTimestamp - quote.disseminateTimestamp,
         totalNs := receiveTimestamp - quote.enqueueTimestamp }] }

def onTrade (m : State) (trade : Trade) (receiveTimestamp : BitVec 64) : State :=
  { m with tradeLatencies := m.tradeLatencies ++
      [{ queueNs := trade.disseminateTimestamp - trade.enqueueTimestamp,
         networkNs := receiveTimestamp - trade.disseminateTimestamp,
         totalNs := receiveTimestamp - trade.enqueueTimestamp }] }

/-- The callback that `run_benchmark_pipeline` sets for the message's type. -/
def callback (m : State) (d : Delivery) : State :=
  match d.msg with
  | .quote q => onQuote m q d.receiveTimestamp
  | .trade t => onTrade m t d.receiveTimestamp

/-! ### The vectors and their room -/

structure Vectors where
  quoteLatencies : Vec LatencyRecord
  tradeLatencies : Vec LatencyRecord

/-- The records in the vectors. -/
def Vectors.state (v : Vectors) : State :=
  { quoteLatencies := v.quoteLatencies.elems, tradeLatencies := v.tradeLatencies.elems }

namespace Vectors

/-- The constructor. -/
def construct (G : Growth) (preallocateCount : BitVec 64) : Vectors where
  quoteLatencies := Vec.empty.reserve G preallocateCount.toNat
  tradeLatencies := Vec.empty.reserve G preallocateCount.toNat

def onQuote (G : Growth) (v : Vectors) (quote : Quote) (receiveTimestamp : BitVec 64) : Vectors :=
  { v with
    quoteLatencies := v.quoteLatencies.pushBack G
      { queueNs := quote.disseminateTimestamp - quote.enqueueTimestamp,
        networkNs := receiveTimestamp - quote.disseminateTimestamp,
        totalNs := receiveTimestamp - quote.enqueueTimestamp } }

def onTrade (G : Growth) (v : Vectors) (trade : Trade) (receiveTimestamp : BitVec 64) : Vectors :=
  { v with
    tradeLatencies := v.tradeLatencies.pushBack G
      { queueNs := trade.disseminateTimestamp - trade.enqueueTimestamp,
        networkNs := receiveTimestamp - trade.disseminateTimestamp,
        totalNs := receiveTimestamp - trade.enqueueTimestamp } }

def callback (G : Growth) (v : Vectors) (d : Delivery) : Vectors :=
  match d.msg with
  | .quote q => onQuote G v q d.receiveTimestamp
  | .trade t => onTrade G v t d.receiveTimestamp

/-- The vectors record what the monitor without them records. -/
theorem state_callback (G : Growth) (v : Vectors) (d : Delivery) :
    (v.callback G d).state = LatencyMonitor.callback v.state d := by
  obtain ⟨msg, receiveTimestamp⟩ := d
  cases msg with
  | quote q => simp [callback, onQuote, LatencyMonitor.callback, LatencyMonitor.onQuote, state]
  | trade t => simp [callback, onTrade, LatencyMonitor.callback, LatencyMonitor.onTrade, state]

theorem state_construct (G : Growth) (preallocateCount : BitVec 64) :
    (construct G preallocateCount).state = State.initial := by
  simp [construct, state, State.initial, Vec.empty]

end Vectors

end LatencyMonitor

end MarketData
