/-
The worker thread of `IDisseminator`.

`run_loop` pops until a pop returns false, stamps each message, writes its header over
the last one's and hands both to `send_impl`.  `IDisseminator.lean` has what happens to
the bytes; here is how the loop runs beside the other threads.  The worker's stop token
is the stop state of `MarketDataQueue.State`, since `pop` is what looks at it.
-/
import MarketData.Disseminator.IDisseminator
import MarketData.Utils.MarketDataQueue

namespace MarketData

open Lib

namespace IDisseminator

/-- Where the worker is in `run_loop`, with `topic_buf` and, while there is one, the
message. -/
inductive Pc
  | begin
  | callPop (topic : Bytes topicHeaderSize)
  | popping (topic : Bytes topicHeaderSize)
  | stamp (topic : Bytes topicHeaderSize) (msg : MarketDataMsg)
  | send (topic : Bytes topicHeaderSize) (msg : MarketDataMsg)
  | finished

variable {W : Nat} {Q : QueueCode MarketDataMsg W}

/-- The next step of `run_loop` that is not an access inside `pop`; it is given what
`topic_buf` holds before it is written, and the reading of the clock. -/
def runLoopStep (pc : Pc) (q : MarketDataQueue.State Q) (uninitialised : Bytes topicHeaderSize)
    (now : Nat) : Option (Pc × MarketDataQueue.State Q) :=
  match pc with
  | .begin => some (.callPop (startTopic uninitialised), q)
  | .callPop topic => (MarketDataQueue.step q .callPop).map fun q' => (.popping topic, q')
  | .popping topic =>
      (q.cons.bind Q.popRet).bind fun res =>
        (MarketDataQueue.step q .retPop).map fun q' =>
          match res with
          | some msg => (.stamp topic msg, q')
          | none => (.finished, q')
  | .stamp topic msg =>
      let msg' := msg.setDisseminateTimestamp (BitVec.ofNat 64 now)
      some (.send (writeTopic topic msg') msg', q)
  | .send topic _ => some (.callPop topic, q)
  | .finished => none

end IDisseminator

end MarketData
