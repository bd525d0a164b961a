/-
One iteration of `IDisseminator::run_loop`, and the two `send_impl`s it may call.

`topic_buf` lives as long as the loop: only its second byte is set before the first
message, and each message overwrites the type byte and the eight symbol bytes.  The
datagram array of `UdpDisseminator` is a new uninitialised local at every call; its
contents before the copies are an input here.
-/
import MarketData.Utils.Types

namespace MarketData

open Lib

/-- A character of the source as a byte. -/
def byteOf (c : Char) : Byte := BitVec.ofNat 8 c.toNat

/-- One byte as an array. -/
def oneByte (b : Byte) : Bytes 1 := ⟨[b], rfl⟩

namespace IDisseminator

/-- `topic_buf` before the loop. -/
def startTopic (uninitialised : Bytes topicHeaderSize) : Bytes topicHeaderSize :=
  uninitialised.memcpy 1 (oneByte (byteOf ':')) (by decide)

def typeByte : MarketDataMsg → Byte
  | .quote _ => byteOf 'Q'
  | .trade _ => byteOf 'T'

/-- The header of a message, written over the previous one. -/
def writeTopic (topic : Bytes topicHeaderSize) (msg : MarketDataMsg) : Bytes topicHeaderSize :=
  (topic.memcpy 0 (oneByte (typeByte msg)) (by decide)).memcpy 2 msg.symbol (by decide)

/-- `sizeof(T)` of the alternative a message holds. -/
def payloadSize : MarketDataMsg → Nat
  | .quote _ => sizeofQuote
  | .trade _ => sizeofTrade

/-- The bytes `send_impl` is given. -/
def payload (padding : Bytes 4) : (msg : MarketDataMsg) → Bytes (payloadSize msg)
  | .quote q => q.bytes
  | .trade t => t.bytes padding

/-- What an iteration is given: the popped message, the reading of the clock, the
values of the padding bytes, and whatever else a `send_impl` finds in place. -/
structure Turn (E : Type) where
  msg : MarketDataMsg
  now : BitVec 64
  padding : Bytes 4
  env : E

/-- The message as `send_impl` gets it. -/
def Turn.stamped {E : Type} (t : Turn E) : MarketDataMsg := t.msg.setDisseminateTimestamp t.now

/-- The iterations of `run_loop`, after their `pop`s: stamp the message, write the
header over the old one, hand both to `send_impl`. -/
def runLoop {E S : Type} (sendImpl : E → Bytes topicHeaderSize → (msg : MarketDataMsg) →
      Bytes (payloadSize msg) → S) : Bytes topicHeaderSize → List (Turn E) → List S
  | _, [] => []
  | topic, t :: rest =>
      let topic' := writeTopic topic t.stamped
      sendImpl t.env topic' t.stamped (payload t.padding t.stamped) ::
        runLoop sendImpl topic' rest

end IDisseminator

namespace UdpDisseminator

open IDisseminator

def bufferSize : Nat := topicHeaderSize + max sizeofQuote sizeofTrade

/-- **The payload fits the datagram buffer.**  `sendImpl` cannot be stated without. -/
theorem payload_fits (msg : MarketDataMsg) : topicHeaderSize + payloadSize msg ≤ bufferSize := by
  cases msg with
  | quote q => exact Nat.add_le_add_left (Nat.le_max_left _ _) _
  | trade t => exact Nat.add_le_add_left (Nat.le_max_right _ _) _

/-- What `sendto` is given: the header and the payload, cut to their size. -/
def sendImpl (datagram : Bytes bufferSize) (topic : Bytes topicHeaderSize)
    (msg : MarketDataMsg) (data : Bytes (payloadSize msg)) : List Byte :=
  (((datagram.memcpy 0 topic (by decide)).memcpy topicHeaderSize data
    (payload_fits msg)).slice 0 (topicHeaderSize + payloadSize msg)
      (by rw [Nat.zero_add]; exact payload_fits msg)).toList

end UdpDisseminator

namespace ZmqDisseminator

open IDisseminator

/-- The two frames of a multipart message. -/
def sendImpl (_ : Unit) (topic : Bytes topicHeaderSize) (msg : MarketDataMsg)
    (data : Bytes (payloadSize msg)) : List Byte × List Byte :=
  (topic.toList, data.toList)

end ZmqDisseminator

end MarketData
