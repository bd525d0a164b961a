/-
What the two feed handlers do with one message.

`UdpFeedHandler` decides and decodes from its receive buffer, which keeps whatever
earlier datagrams left behind the end of the last one; lengths are signed where the
source has `ssize_t` and 64-bit unsigned where it has `size_t`.  `ZmqFeedHandler`
looks at the two frames of a message that the socket's own filters let through.
-/
import MarketData.Disseminator.IDisseminator
import MarketData.Lib.Updates
import Mathlib.Data.Multiset.Count

namespace MarketData

open Lib

/-- A callback and its arguments: the message and the time of receipt. -/
structure Delivery where
  msg : MarketDataMsg
  receiveTimestamp : BitVec 64
deriving DecidableEq

namespace IFeedHandler

/-- Which callbacks have been set. -/
structure Callbacks where
  onQuote : Bool
  onTrade : Bool

/-- The overload of `deliver_to_client` for the message's type. -/
def deliverToClient (cb : Callbacks) (now : BitVec 64) : MarketDataMsg → Option Delivery
  | .quote q => if cb.onQuote then some { msg := .quote q, receiveTimestamp := now } else none
  | .trade t => if cb.onTrade then some { msg := .trade t, receiveTimestamp := now } else none

def Callbacks.both : Callbacks := { onQuote := true, onTrade := true }

@[simp] theorem deliverToClient_both (now : BitVec 64) (msg : MarketDataMsg) :
    deliverToClient Callbacks.both now msg = some { msg := msg, receiveTimestamp := now } := by
  cases msg <;> rfl

end IFeedHandler

open IFeedHandler

/-- `pack_symbol`: at most eight bytes of the string, copied over a zero. -/
def packSymbol (sym : List Byte) : BitVec 64 :=
  ((Bytes.zero 8).memcpy 0 (⟨sym.take 8, rfl⟩ : Bytes (sym.take 8).length)
    (by simp)).toBitVec

/-- A call of `subscribe` or of `unsubscribe`. -/
structure Call where
  isSubscribe : Bool
  symbol : List Byte
deriving DecidableEq

structure SubCommand where
  isSubscribe : Bool
  symbolId : BitVec 64
deriving DecidableEq

namespace UdpFeedHandler

/-- The command that `subscribe_impl` or `unsubscribe_impl` pushes. -/
def command (c : Call) : SubCommand where
  isSubscribe := c.isSubscribe
  symbolId := packSymbol c.symbol

/-- The receive loop applies a command to `local_subscriptions_`. -/
def applyCommand (subscriptions : Finset (BitVec 64)) (cmd : SubCommand) : Finset (BitVec 64) :=
  if cmd.isSubscribe then insert cmd.symbolId subscriptions
  else subscriptions.erase cmd.symbolId

def receiveBufferSize : Nat := 1024

/-- A result of `recvfrom`: an error, or a datagram of any length. -/
inductive Recv
  | fail
  | datagram (bytes : List Byte)
deriving DecidableEq

/-- `recvfrom`: the buffer afterwards and the return value. -/
def recvfrom (buffer : Bytes receiveBufferSize) : Recv → Bytes receiveBufferSize × Int
  | .fail => (buffer, -1)
  | .datagram bytes =>
      (buffer.memcpy 0 (⟨bytes.take receiveBufferSize, rfl⟩ :
          Bytes (bytes.take receiveBufferSize).length) (by simp),
        (bytes.take receiveBufferSize).length)

/-- The id in the header, `buffer + 2`. -/
def incomingSymbol (buffer : Bytes receiveBufferSize) : BitVec 64 :=
  (buffer.slice 2 8 (by decide)).toBitVec

/-- Whether the id passes the filter. -/
def contains (subscriptions : Finset (BitVec 64)) (buffer : Bytes receiveBufferSize) : Bool :=
  decide (incomingSymbol buffer ∈ subscriptions)

/-- From the type byte, the payload size and `payload_data` to a message. -/
def unpack (buffer : Bytes receiveBufferSize) (payloadSize : BitVec 64) :
    Option MarketDataMsg :=
  let msgType := buffer.get 0 (by decide)
  if msgType = byteOf 'Q' ∧ payloadSize = BitVec.ofNat 64 sizeofQuote then
    some (.quote (Quote.ofBytes (buffer.slice topicHeaderSize sizeofQuote (by decide))))
  else if msgType = byteOf 'T' ∧ payloadSize = BitVec.ofNat 64 sizeofTrade then
    some (.trade (Trade.ofBytes (buffer.slice topicHeaderSize sizeofTrade (by decide))))
  else none

/-- The part of an iteration after `recvfrom`. -/
def handle (cb : Callbacks) (subscriptions : Finset (BitVec 64)) (now : BitVec 64)
    (buffer : Bytes receiveBufferSize) (bytesRecvd : Int) : Option Delivery :=
  if bytesRecvd < 0 then none
  else if bytesRecvd < topicHeaderSize then none
  else if contains subscriptions buffer then
    (unpack buffer (BitVec.ofInt 64 (bytesRecvd - topicHeaderSize))).bind
      (deliverToClient cb now)
  else none

/-- The iterations of the receive loop while the subscriptions stay as they are; each
is given a result of `recvfrom` and a reading of the clock. -/
def receive (cb : Callbacks) (subscriptions : Finset (BitVec 64)) :
    Bytes receiveBufferSize → List (Recv × BitVec 64) → List Delivery
  | _, [] => []
  | buffer, (r, now) :: rest =>
      let (buffer', bytesRecvd) := recvfrom buffer r
      (handle cb subscriptions now buffer' bytesRecvd).toList ++
        receive cb subscriptions buffer' rest

end UdpFeedHandler

namespace ZmqFeedHandler

/-- The filters of a SUB socket, with repetitions. -/
abbrev Filters := Multiset (List Byte)

/-- One instance is added, or one removed if there is one. -/
def setFilter (filters : Filters) (isSubscribe : Bool) (filter : List Byte) : Filters :=
  if isSubscribe then filter ::ₘ filters else filters.erase filter

/-- The text of a filter. -/
def topicOf (type : Char) (symbol : List Byte) : List Byte :=
  byteOf type :: byteOf ':' :: symbol

/-- `subscribe_impl` and `unsubscribe_impl`: the quote filter, then the trade filter. -/
def applyCall (filters : Filters) (c : Call) : Filters :=
  setFilter (setFilter filters c.isSubscribe (topicOf 'Q' c.symbol)) c.isSubscribe
    (topicOf 'T' c.symbol)

/-- Whether the socket hands a message on: some filter is a prefix of its first frame. -/
def passes (filters : Filters) (frame : List Byte) : Prop := ∃ filter ∈ filters, filter <+: frame

instance (filters : Filters) (frame : List Byte) : Decidable (passes filters frame) :=
  Multiset.decidableExistsMultiset

/-- The part of an iteration after both frames have been received. -/
def handle (cb : Callbacks) (now : BitVec 64) (topic data : List Byte) : Option Delivery :=
  match topic with
  | [] => none
  | type :: _ =>
      if h : type = byteOf 'Q' ∧ data.length = sizeofQuote then
        deliverToClient cb now (.quote (Quote.ofBytes ⟨data, h.2⟩))
      else if h : type = byteOf 'T' ∧ data.length = sizeofTrade then
        deliverToClient cb now (.trade (Trade.ofBytes ⟨data, h.2⟩))
      else none

/-- The iterations of the receive loop over messages of two frames. -/
def receive (cb : Callbacks) (messages : List ((List Byte × List Byte) × BitVec 64)) :
    List Delivery :=
  messages.filterMap fun m => handle cb m.2 m.1.1 m.1.2

end ZmqFeedHandler

end MarketData
