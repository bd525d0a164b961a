/-
Decoding undoes encoding, on both transports.

The encoder writes over buffers it reuses, the decoder reads out of a buffer it
reuses.  Two facts make that harmless.  `writeTopic_eq`: once the colon is in
place, the header of a message is written in full, so nothing of the previous one
is left in it; and `sendImpl_eq`: the part of the datagram array that is sent has
been written in full.  `recvfrom_slice` is the decoder's side: within the length
received, the receive buffer holds the datagram.
-/
import MarketData.FeedHandler.IFeedHandler

namespace MarketData

open Lib

/-! ### What is sent -/

namespace IDisseminator

/-- The header of a message. -/
def header (msg : MarketDataMsg) : List Byte :=
  typeByte msg :: byteOf ':' :: msg.symbol.toList

/-- The colon is in place. -/
def HasColon (topic : Bytes topicHeaderSize) : Prop := topic.toList[1]? = some (byteOf ':')

theorem hasColon_startTopic (u : Bytes topicHeaderSize) : HasColon (startTopic u) := by
  have hlen : u.toList.length = topicHeaderSize := u.length_eq
  unfold HasColon startTopic
  simp [Bytes.memcpy, oneByte, hlen, topicHeaderSize]

/-- Every byte of the header but the second is the message's own. -/
theorem writeTopic_toList (topic : Bytes topicHeaderSize) (msg : MarketDataMsg) :
    ∃ c, topic.toList[1]? = some c ∧
      (writeTopic topic msg).toList = typeByte msg :: c :: msg.symbol.toList := by
  obtain ⟨bs, hlen⟩ := topic
  rcases bs with _ | ⟨a, _ | ⟨b, rest⟩⟩
  · simp [topicHeaderSize] at hlen
  · simp [topicHeaderSize] at hlen
  · have hrest : rest.length = 8 := by simpa [topicHeaderSize] using hlen
    have hpast : rest.drop 8 = [] := List.drop_eq_nil_of_le (by omega)
    refine ⟨b, rfl, ?_⟩
    simp [writeTopic, Bytes.memcpy, oneByte, hpast]

/-- The header is the message's own, whatever the buffer held before. -/
theorem writeTopic_eq {topic : Bytes topicHeaderSize} (h : HasColon topic) (msg : MarketDataMsg) :
    (writeTopic topic msg).toList = header msg := by
  obtain ⟨c, hc, htopic⟩ := writeTopic_toList topic msg
  have hcolon : c = byteOf ':' := Option.some.inj (hc.symm.trans h)
  rw [htopic, hcolon]
  rfl

theorem hasColon_writeTopic {topic : Bytes topicHeaderSize} (h : HasColon topic)
    (msg : MarketDataMsg) : HasColon (writeTopic topic msg) := by
  unfold HasColon
  rw [writeTopic_eq h]
  rfl

@[simp] theorem length_header (msg : MarketDataMsg) : (header msg).length = topicHeaderSize := by
  simp [header, topicHeaderSize]

/-- **No byte of an earlier message is sent.**  Whatever `send_impl` does with the
header and the payload, it is given those of the message itself. -/
theorem runLoop_eq {E S : Type} (sendImpl : E → Bytes topicHeaderSize → (msg : MarketDataMsg) →
    Bytes (payloadSize msg) → S) (turns : List (Turn E)) :
    ∀ {topic : Bytes topicHeaderSize}, HasColon topic →
      runLoop sendImpl topic turns = turns.map fun t =>
        sendImpl t.env ⟨header t.stamped, length_header _⟩ t.stamped
          (payload t.padding t.stamped) := by
  induction turns with
  | nil => intro topic _; rfl
  | cons t rest ih =>
      intro topic h
      have htopic : writeTopic topic t.stamped = ⟨header t.stamped, length_header _⟩ := by
        ext1
        exact writeTopic_eq h t.stamped
      rw [runLoop, List.map_cons, ih (hasColon_writeTopic h t.stamped), htopic]

end IDisseminator

namespace UdpDisseminator

open IDisseminator

/-- The datagram is the header and the payload, whatever was in the array. -/
theorem sendImpl_eq (datagram : Bytes bufferSize) (topic : Bytes topicHeaderSize)
    (msg : MarketDataMsg) (data : Bytes (payloadSize msg)) :
    sendImpl datagram topic msg data = topic.toList ++ data.toList := by
  simp [sendImpl, Bytes.slice, Bytes.memcpy, List.take_append]

end UdpDisseminator

/-! ### What is received -/

namespace UdpFeedHandler

open IDisseminator IFeedHandler

/-- The id a datagram carries in bytes 2 to 9. -/
def datagramId (d : List Byte) : BitVec 64 := (Bytes.ofList 8 (d.drop 2)).toBitVec

/-- The message a datagram stands for, from its length, its first byte and the bytes
after the header. -/
def meaning (d : List Byte) : Option MarketDataMsg :=
  if d.length = topicHeaderSize + sizeofQuote ∧ d[0]? = some (byteOf 'Q') then
    some (.quote (Quote.ofBytes (Bytes.ofList sizeofQuote (d.drop topicHeaderSize))))
  else if d.length = topicHeaderSize + sizeofTrade ∧ d[0]? = some (byteOf 'T') then
    some (.trade (Trade.ofBytes (Bytes.ofList sizeofTrade (d.drop topicHeaderSize))))
  else none

/-- What the kernel hands over of a datagram. -/
def received (bytes : List Byte) : List Byte := bytes.take receiveBufferSize

theorem length_received (bytes : List Byte) : (received bytes).length ≤ receiveBufferSize := by
  simp [received]

theorem recvfrom_toList (buffer : Bytes receiveBufferSize) (bytes : List Byte) :
    (recvfrom buffer (.datagram bytes)).1.toList =
      received bytes ++ buffer.toList.drop (received bytes).length := by
  simp [recvfrom, Bytes.memcpy, received]

/-- Within the length received, the buffer holds the datagram. -/
theorem recvfrom_slice (buffer : Bytes receiveBufferSize) (bytes : List Byte) {off len : Nat}
    (h : off + len ≤ receiveBufferSize) (hlen : off + len ≤ (received bytes).length) :
    (recvfrom buffer (.datagram bytes)).1.slice off len h =
      Bytes.ofList len ((received bytes).drop off) := by
  ext1
  rw [Bytes.ofList_of_le (by rw [List.length_drop]; omega)]
  show ((recvfrom buffer (.datagram bytes)).1.toList.drop off).take len = _
  rw [recvfrom_toList, List.drop_append_of_le_length (by omega),
    List.take_append_of_le_length (by rw [List.length_drop]; omega)]

theorem incomingSymbol_recvfrom (buffer : Bytes receiveBufferSize) {bytes : List Byte}
    (h : topicHeaderSize ≤ (received bytes).length) :
    incomingSymbol (recvfrom buffer (.datagram bytes)).1 = datagramId (received bytes) := by
  have hlen : 10 ≤ (received bytes).length := h
  unfold incomingSymbol datagramId
  rw [recvfrom_slice buffer bytes (by decide) (by omega)]

theorem firstByte_recvfrom (buffer : Bytes receiveBufferSize) {bytes : List Byte} {b : Byte}
    (h : topicHeaderSize ≤ (received bytes).length) :
    (recvfrom buffer (.datagram bytes)).1.get 0 (by decide) = b ↔
      (received bytes)[0]? = some b := by
  have hlen : 10 ≤ (received bytes).length := h
  rw [Bytes.get_eq_iff, recvfrom_toList, List.getElem?_append_left (by omega)]

/-- The `size_t` comparison is the comparison of lengths. -/
theorem payloadSize_eq_iff {n k : Nat} (hn : n ≤ receiveBufferSize) (hk : k ≤ receiveBufferSize)
    (h : topicHeaderSize ≤ n) :
    BitVec.ofInt 64 ((n : Int) - topicHeaderSize) = BitVec.ofNat 64 k ↔
      n = topicHeaderSize + k := by
  have hsize : receiveBufferSize = 1024 := rfl
  have hcast : (n : Int) - (topicHeaderSize : Nat) = ((n - topicHeaderSize : Nat) : Int) := by
    omega
  rw [hcast, BitVec.ofInt_natCast]
  constructor
  · intro heq
    have hnat := congrArg BitVec.toNat heq
    rw [BitVec.toNat_ofNat, BitVec.toNat_ofNat, Nat.mod_eq_of_lt (by omega),
      Nat.mod_eq_of_lt (by omega)] at hnat
    omega
  · intro heq
    rw [heq, Nat.add_sub_cancel_left]

/-- Unpacking from the buffer is reading the datagram. -/
theorem unpack_recvfrom (buffer : Bytes receiveBufferSize) {bytes : List Byte}
    (h : topicHeaderSize ≤ (received bytes).length) :
    unpack (recvfrom buffer (.datagram bytes)).1
        (BitVec.ofInt 64 (((received bytes).length : Int) - topicHeaderSize)) =
      meaning (received bytes) := by
  have hmax := length_received bytes
  unfold unpack meaning
  simp only [firstByte_recvfrom buffer h, payloadSize_eq_iff hmax (k := sizeofQuote) (by decide) h,
    payloadSize_eq_iff hmax (k := sizeofTrade) (by decide) h]
  by_cases hquote : (received bytes).length = topicHeaderSize + sizeofQuote ∧
      (received bytes)[0]? = some (byteOf 'Q')
  · rw [if_pos hquote, if_pos hquote.symm, recvfrom_slice buffer bytes (by decide) (by omega)]
  · rw [if_neg hquote, if_neg (fun hq => hquote hq.symm)]
    by_cases htrade : (received bytes).length = topicHeaderSize + sizeofTrade ∧
        (received bytes)[0]? = some (byteOf 'T')
    · rw [if_pos htrade, if_pos htrade.symm, recvfrom_slice buffer bytes (by decide) (by omega)]
    · rw [if_neg htrade, if_neg (fun ht => htrade ht.symm)]

/-- **One datagram.**  It is delivered if its id is subscribed and it stands for a
message, and then as that message; what the buffer held before does not matter. -/
theorem handle_datagram (cb : Callbacks) (subs : Finset (BitVec 64)) (now : BitVec 64)
    (buffer : Bytes receiveBufferSize) (bytes : List Byte) :
    handle cb subs now (recvfrom buffer (.datagram bytes)).1
        (recvfrom buffer (.datagram bytes)).2 =
      if datagramId (received bytes) ∈ subs then
        (meaning (received bytes)).bind (deliverToClient cb now)
      else none := by
  have hn : (recvfrom buffer (.datagram bytes)).2 = ((received bytes).length : Int) := rfl
  rw [hn]
  unfold handle
  rw [if_neg (by omega)]
  by_cases hshort : ((received bytes).length : Int) < topicHeaderSize
  · rw [if_pos hshort]
    have hmeaning : meaning (received bytes) = none := by
      unfold meaning
      rw [if_neg (by rintro ⟨hlen, -⟩; omega), if_neg (by rintro ⟨hlen, -⟩; omega)]
    rw [hmeaning]
    simp
  · rw [if_neg hshort]
    have hlong : topicHeaderSize ≤ (received bytes).length := by omega
    have hmax := length_received bytes
    unfold contains
    rw [incomingSymbol_recvfrom buffer hlong]
    by_cases hsub : datagramId (received bytes) ∈ subs
    · rw [if_pos hsub, if_pos (by simpa using hsub), unpack_recvfrom buffer hlong]
    · rw [if_neg hsub, if_neg (by simpa using hsub)]

/-- The datagram of a result of `recvfrom`, if there is one. -/
def Recv.datagram? : Recv → Option (List Byte)
  | .fail => none
  | .datagram bytes => some bytes

@[simp] theorem Recv.datagram?_fail : Recv.fail.datagram? = none := rfl

@[simp] theorem Recv.datagram?_datagram (bytes : List Byte) :
    (Recv.datagram bytes).datagram? = some bytes := rfl

/-- What a datagram delivers under a set of subscriptions. -/
def delivers (subs : Finset (BitVec 64)) (bytes : List Byte) : Option MarketDataMsg :=
  if datagramId (received bytes) ∈ subs then meaning (received bytes) else none

/-- The loop delivers datagram by datagram; failures and earlier buffer contents have
no part in it. -/
theorem receive_msgs (subs : Finset (BitVec 64)) (rs : List (Recv × BitVec 64)) :
    ∀ buffer, (receive Callbacks.both subs buffer rs).map Delivery.msg =
      (rs.filterMap fun r => r.1.datagram?).filterMap (delivers subs) := by
  induction rs with
  | nil => intro buffer; rfl
  | cons r rest ih =>
      intro buffer
      obtain ⟨r, now⟩ := r
      cases r with
      | fail =>
          simp only [receive, List.filterMap_cons, Recv.datagram?_fail]
          rw [List.map_append, ih]
          rfl
      | datagram bytes =>
          simp only [receive, List.filterMap_cons, Recv.datagram?_datagram]
          rw [List.map_append, ih, handle_datagram]
          by_cases hsub : datagramId (received bytes) ∈ subs
          · rw [if_pos hsub, show delivers subs bytes = meaning (received bytes) from if_pos hsub]
            cases meaning (received bytes) <;> simp
          · rw [if_neg hsub, show delivers subs bytes = none from if_neg hsub]
            rfl

/-! ### There and back -/

/-- What the disseminator sends is not cut. -/
theorem received_of_fits {bytes : List Byte} {msg : MarketDataMsg}
    (h : bytes.length = topicHeaderSize + payloadSize msg) : received bytes = bytes := by
  refine List.take_of_length_le ?_
  rw [h]
  exact Nat.le_trans (UdpDisseminator.payload_fits msg) (by decide)

/-- A message as it goes over the wire. -/
def encoded (padding : Bytes 4) (msg : MarketDataMsg) : List Byte :=
  header msg ++ (payload padding msg).toList

theorem length_encoded (padding : Bytes 4) (msg : MarketDataMsg) :
    (encoded padding msg).length = topicHeaderSize + payloadSize msg := by
  simp [encoded]

theorem received_encoded (padding : Bytes 4) (msg : MarketDataMsg) :
    received (encoded padding msg) = encoded padding msg :=
  received_of_fits (length_encoded padding msg)

theorem drop_encoded (padding : Bytes 4) (msg : MarketDataMsg) :
    (encoded padding msg).drop topicHeaderSize = (payload padding msg).toList := by
  unfold encoded
  exact List.drop_left' (length_header msg)

theorem datagramId_encoded (padding : Bytes 4) (msg : MarketDataMsg) :
    datagramId (encoded padding msg) = msg.symbol.toBitVec := by
  unfold datagramId
  rw [Bytes.toBitVec_inj]
  ext1
  have hdrop : (encoded padding msg).drop 2 =
      msg.symbol.toList ++ (payload padding msg).toList := by
    simp [encoded, header]
  rw [hdrop, Bytes.ofList_of_le (by simp), List.take_left' (by simp)]

theorem meaning_encoded (padding : Bytes 4) (msg : MarketDataMsg) :
    meaning (encoded padding msg) = some msg := by
  have hlen := length_encoded padding msg
  have hdrop := drop_encoded padding msg
  unfold meaning
  cases msg with
  | quote q =>
      have hpayload : (payload padding (.quote q)).toList = q.bytes.toList := rfl
      rw [if_pos ⟨hlen, rfl⟩, hdrop, hpayload, Bytes.ofList_toList, Quote.ofBytes_bytes]
  | trade t =>
      have hpayload : (payload padding (.trade t)).toList = (t.bytes padding).toList := rfl
      have hnot : ¬ ((encoded padding (.trade t)).length = topicHeaderSize + sizeofQuote ∧
          (encoded padding (.trade t))[0]? = some (byteOf 'Q')) := by
        rintro ⟨hquote, -⟩
        rw [hlen] at hquote
        simp [payloadSize, sizeofQuote, sizeofTrade] at hquote
      rw [if_neg hnot, if_pos ⟨hlen, rfl⟩, hdrop, hpayload, Bytes.ofList_toList,
        Trade.ofBytes_bytes]

theorem delivers_encoded {subs : Finset (BitVec 64)} (padding : Bytes 4) {msg : MarketDataMsg}
    (h : msg.symbol.toBitVec ∈ subs) : delivers subs (encoded padding msg) = some msg := by
  unfold delivers
  rw [received_encoded, datagramId_encoded, if_pos h, meaning_encoded]

end UdpFeedHandler

namespace ZmqFeedHandler

open IDisseminator IFeedHandler

/-- The two frames of a message give the message back. -/
theorem handle_frames (cb : Callbacks) (now : BitVec 64) (padding : Bytes 4)
    (msg : MarketDataMsg) :
    handle cb now (header msg) (payload padding msg).toList = deliverToClient cb now msg := by
  unfold handle header
  cases msg with
  | quote q =>
      have hquote : typeByte (.quote q) = byteOf 'Q' ∧
          (payload padding (.quote q)).toList.length = sizeofQuote := ⟨rfl, by simp [payloadSize]⟩
      have hbytes : (⟨(payload padding (.quote q)).toList, hquote.2⟩ : Bytes sizeofQuote) =
          q.bytes := rfl
      simp only [dif_pos hquote, hbytes, Quote.ofBytes_bytes]
  | trade t =>
      have hnot : ¬ (typeByte (.trade t) = byteOf 'Q' ∧
          (payload padding (.trade t)).toList.length = sizeofQuote) := by
        rintro ⟨htype, -⟩
        have hsame : byteOf 'T' = byteOf 'Q' := htype
        exact absurd hsame (by decide)
      have htrade : typeByte (.trade t) = byteOf 'T' ∧
          (payload padding (.trade t)).toList.length = sizeofTrade := ⟨rfl, by simp [payloadSize]⟩
      have hbytes : (⟨(payload padding (.trade t)).toList, htrade.2⟩ : Bytes sizeofTrade) =
          t.bytes padding := rfl
      simp only [dif_neg hnot, dif_pos htrade, hbytes, Trade.ofBytes_bytes]

/-- The loop delivers message by message. -/
theorem receive_msgs (turns : List (Turn Unit)) :
    ∀ {ms : List ((List Byte × List Byte) × BitVec 64)},
      ms.map Prod.fst = turns.map (fun t =>
        (header t.stamped, (payload t.padding t.stamped).toList)) →
      (receive Callbacks.both ms).map Delivery.msg = turns.map Turn.stamped := by
  induction turns with
  | nil =>
      intro ms hms
      have hnil : ms = [] := by simpa using hms
      rw [hnil]
      rfl
  | cons t rest ih =>
      intro ms hms
      obtain ⟨m, ms', rfl, hm, hms'⟩ := List.map_eq_cons_iff.mp hms
      have hhandle := handle_frames Callbacks.both m.2 t.padding t.stamped
      rw [deliverToClient_both] at hhandle
      unfold receive at ih ⊢
      rw [List.filterMap_cons, hm, hhandle, List.map_cons, List.map_cons, ih hms']

end ZmqFeedHandler

/-! ### The result -/

open IDisseminator IFeedHandler

/-- The datagrams of a session of `UdpDisseminator`; what its buffers hold before they
are written is given by `u` and by the turns. -/
def udpSends (u : Bytes topicHeaderSize) (turns : List (Turn (Bytes UdpDisseminator.bufferSize))) :
    List (List Byte) :=
  runLoop UdpDisseminator.sendImpl (startTopic u) turns

/-- The messages of a session of `ZmqDisseminator`. -/
def zmqSends (u : Bytes topicHeaderSize) (turns : List (Turn Unit)) :
    List (List Byte × List Byte) :=
  runLoop ZmqDisseminator.sendImpl (startTopic u) turns

/-- What is sent for a message depends on nothing but the message. -/
theorem udpSends_eq (u : Bytes topicHeaderSize)
    (turns : List (Turn (Bytes UdpDisseminator.bufferSize))) :
    udpSends u turns = turns.map fun t => UdpFeedHandler.encoded t.padding t.stamped := by
  unfold udpSends
  rw [runLoop_eq _ turns (hasColon_startTopic u)]
  refine List.map_congr_left fun t _ => ?_
  rw [UdpDisseminator.sendImpl_eq]
  rfl

theorem zmqSends_eq (u : Bytes topicHeaderSize) (turns : List (Turn Unit)) :
    zmqSends u turns = turns.map fun t =>
      (header t.stamped, (payload t.padding t.stamped).toList) := by
  unfold zmqSends
  rw [runLoop_eq _ turns (hasColon_startTopic u)]
  rfl

/--
**Decoding undoes encoding.**  For every sequence of messages and any contents of the
buffers: the UDP handler, given the datagrams in order with any failures of `recvfrom`
in between and all symbols subscribed, and the ZMQ handler, given the two frames of
each message, deliver the messages in order, equal in every field but the
disseminate timestamp, which is the one stamped.  Each payload fits the datagram
buffer, and what is sent for a message is a function of that message alone.
-/
theorem wire_round_trip (u : Bytes topicHeaderSize)
    (turns : List (Turn (Bytes UdpDisseminator.bufferSize))) (turns' : List (Turn Unit))
    (subs : Finset (BitVec 64)) (hsubs : ∀ t ∈ turns, t.msg.symbol.toBitVec ∈ subs)
    (buffer : Bytes UdpFeedHandler.receiveBufferSize)
    (rs : List (UdpFeedHandler.Recv × BitVec 64))
    (hrs : rs.filterMap (fun r => r.1.datagram?) = udpSends u turns)
    (ms : List ((List Byte × List Byte) × BitVec 64)) (hms : ms.map Prod.fst = zmqSends u turns') :
    (UdpFeedHandler.receive Callbacks.both subs buffer rs).map Delivery.msg =
        turns.map Turn.stamped ∧
      (ZmqFeedHandler.receive Callbacks.both ms).map Delivery.msg = turns'.map Turn.stamped ∧
      (∀ t ∈ turns, topicHeaderSize + payloadSize t.stamped ≤ UdpDisseminator.bufferSize) ∧
      udpSends u turns = turns.map (fun t => UdpFeedHandler.encoded t.padding t.stamped) ∧
      zmqSends u turns' =
        turns'.map fun t => (header t.stamped, (payload t.padding t.stamped).toList) := by
  refine ⟨?_, ?_, fun t _ => UdpDisseminator.payload_fits t.stamped, udpSends_eq u turns,
    zmqSends_eq u turns'⟩
  · rw [UdpFeedHandler.receive_msgs, hrs, udpSends_eq, List.filterMap_map]
    rw [← List.filterMap_eq_map]
    refine List.filterMap_congr fun t ht => ?_
    exact UdpFeedHandler.delivers_encoded t.padding (by simpa [Turn.stamped] using hsubs t ht)
  · rw [zmqSends_eq] at hms
    exact ZmqFeedHandler.receive_msgs turns' hms

/-- A trade and a quote, the buffers full of ones. -/
def sampleTurns {E : Type} (env : E) : List (Turn E) :=
  [{ msg := .trade { symbol := Bytes.ofList 8 ("MSFT".toList.map byteOf), price := 7, size := 3,
                     enqueueTimestamp := 1, disseminateTimestamp := 0 },
     now := 5, padding := Bytes.ofList 4 (List.replicate 4 1), env := env },
   { msg := .quote { symbol := Bytes.ofList 8 ("AAPL".toList.map byteOf), bidPrice := 8,
                     askPrice := 9, bidSize := 2, askSize := 4, enqueueTimestamp := 6,
                     disseminateTimestamp := 0 },
     now := 7, padding := Bytes.ofList 4 (List.replicate 4 1), env := env }]

/-- An array full of ones. -/
def ones (n : Nat) : Bytes n := Bytes.ofList n (List.replicate n 1)

theorem wire_round_trip_sampleTurns :
    (UdpFeedHandler.receive Callbacks.both
        {packSymbol ("MSFT".toList.map byteOf), packSymbol ("AAPL".toList.map byteOf)} (ones _)
        ((udpSends (ones _) (sampleTurns (ones _))).map fun d => (.datagram d, 11))).map
          Delivery.msg = (sampleTurns (ones UdpDisseminator.bufferSize)).map Turn.stamped ∧
      (ZmqFeedHandler.receive Callbacks.both
        ((zmqSends (ones _) (sampleTurns ())).map fun m => (m, 11))).map Delivery.msg =
          (sampleTurns ()).map Turn.stamped := by
  have h := wire_round_trip (ones _) (sampleTurns (ones _)) (sampleTurns ())
    {packSymbol ("MSFT".toList.map byteOf), packSymbol ("AAPL".toList.map byteOf)}
    (by decide +kernel) (ones _)
    ((udpSends (ones _) (sampleTurns (ones _))).map fun d => (.datagram d, 11))
    (by simp [List.filterMap_map, Function.comp_def])
    ((zmqSends (ones _) (sampleTurns ())).map fun m => (m, 11))
    (by simp [Function.comp_def])
  exact ⟨h.1, h.2.1⟩

end MarketData
