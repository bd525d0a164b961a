/-
The two transports' subscription filters, compared message by message.

`UdpFeedHandler` keeps a set of eight-byte ids: a message passes if the last call whose
symbol, cut or padded to eight bytes, is the message's field was a subscribe
(`mem_udpSubscriptions_iff`).  `ZmqFeedHandler` leaves the filtering to the socket, which
counts text filters and matches prefixes: a message passes if some prefix of its field
has been subscribed and not unsubscribed as often (`passes_iff`).

`filters_agree_iff` says when the two agree.  They differ on a symbol that extends a
subscribed one, on a symbol subscribed twice and unsubscribed once, and on a subscribed
symbol of more than eight bytes.
-/
import MarketData.Proofs.SymbolIdentity

namespace MarketData

open Lib IDisseminator IFeedHandler

/-! ### The two sessions -/

/-- `local_subscriptions_` after all the calls of a history have been applied. -/
def udpSubscriptions (history : List Call) : Finset (BitVec 64) :=
  (history.map UdpFeedHandler.command).foldl UdpFeedHandler.applyCommand ∅

/-- The socket's filters after all the calls of a history have been applied. -/
def zmqFilters (history : List Call) : ZmqFeedHandler.Filters :=
  history.foldl ZmqFeedHandler.applyCall 0

/-- What the client gets of one message over UDP. -/
def udpDelivered (history : List Call) (u : Bytes topicHeaderSize)
    (t : Turn (Bytes UdpDisseminator.bufferSize)) (buffer : Bytes UdpFeedHandler.receiveBufferSize)
    (now : BitVec 64) : List Delivery :=
  UdpFeedHandler.receive Callbacks.both (udpSubscriptions history) buffer
    ((udpSends u [t]).map fun d => (.datagram d, now))

/-- What the client gets of one message over ZMQ. -/
def zmqDelivered (history : List Call) (u : Bytes topicHeaderSize) (t : Turn Unit)
    (now : BitVec 64) : List Delivery :=
  ZmqFeedHandler.receive Callbacks.both
    (((zmqSends u [t]).filter fun m => ZmqFeedHandler.passes (zmqFilters history) m.1).map
      fun m => (m, now))

/-! ### What the filters depend on -/

/-- The last call of the history whose symbol, cut or padded to eight bytes, is `f`. -/
def lastNaming (f : Bytes 8) (history : List Call) : Option Call :=
  (history.filter fun c => Bytes.ofList 8 c.symbol = f).getLast?

/-- How often `s` is subscribed: an unsubscribe takes one away if there is one. -/
def surplus (s : List Byte) (history : List Call) : Nat :=
  history.foldl (fun n c =>
    if c.symbol = s then (if c.isSubscribe then n + 1 else n - 1) else n) 0

/-- Some prefix of the field is still subscribed. -/
def PrefixSubscribed (f : Bytes 8) (history : List Call) : Prop :=
  ∃ s, s <+: f.toList ∧ 0 < surplus s history

theorem lastNaming_snoc (f : Bytes 8) (history : List Call) (c : Call) :
    lastNaming f (history ++ [c]) =
      if Bytes.ofList 8 c.symbol = f then some c else lastNaming f history := by
  unfold lastNaming
  by_cases h : Bytes.ofList 8 c.symbol = f
  · rw [List.filter_append, if_pos h]
    simp [h]
  · rw [List.filter_append, if_neg h]
    simp [h]

theorem surplus_snoc (s : List Byte) (history : List Call) (c : Call) :
    surplus s (history ++ [c]) =
      if c.symbol = s then
        (if c.isSubscribe then surplus s history + 1 else surplus s history - 1)
      else surplus s history := by
  unfold surplus
  rw [List.foldl_append]
  rfl

/-! ### UDP -/

theorem udpSubscriptions_eq (history : List Call) :
    udpSubscriptions history = Update.applyAll
      (history.map fun c => ⟨c.isSubscribe, packSymbol c.symbol⟩) := by
  unfold udpSubscriptions Update.applyAll
  rw [List.foldl_map, List.foldl_map]
  rfl

/-- An id is subscribed if the last call naming its field was a subscribe. -/
theorem mem_udpSubscriptions_iff (f : Bytes 8) (history : List Call) :
    f.toBitVec ∈ udpSubscriptions history ↔
      (lastNaming f history).map Call.isSubscribe = some true := by
  rw [udpSubscriptions_eq, Update.mem_applyAll_iff, Update.lastFor_of_map]
  simp only [packSymbol_eq, Bytes.toBitVec_inj]
  rfl

/-- Over UDP the one datagram delivers the message or nothing. -/
theorem udpDelivered_msgs (history : List Call) (u : Bytes topicHeaderSize)
    (t : Turn (Bytes UdpDisseminator.bufferSize)) (buffer : Bytes UdpFeedHandler.receiveBufferSize)
    (now : BitVec 64) :
    (udpDelivered history u t buffer now).map Delivery.msg =
      if t.msg.symbol.toBitVec ∈ udpSubscriptions history then [t.stamped] else [] := by
  have hsymbol : t.stamped.symbol = t.msg.symbol :=
    MarketDataMsg.symbol_setDisseminateTimestamp t.now t.msg
  unfold udpDelivered
  rw [UdpFeedHandler.receive_msgs, udpSends_eq, ← hsymbol]
  by_cases hmem : t.stamped.symbol.toBitVec ∈ udpSubscriptions history
  · rw [if_pos hmem]
    simp [UdpFeedHandler.delivers_encoded t.padding hmem]
  · have hnone : UdpFeedHandler.delivers (udpSubscriptions history)
        (UdpFeedHandler.encoded t.padding t.stamped) = none := by
      unfold UdpFeedHandler.delivers
      rw [UdpFeedHandler.received_encoded, UdpFeedHandler.datagramId_encoded, if_neg hmem]
    rw [if_neg hmem]
    simp [hnone]

theorem udpDelivered_iff {history : List Call} {u : Bytes topicHeaderSize}
    {t : Turn (Bytes UdpDisseminator.bufferSize)} {buffer : Bytes UdpFeedHandler.receiveBufferSize}
    {now : BitVec 64} :
    udpDelivered history u t buffer now ≠ [] ↔
      (lastNaming t.msg.symbol history).map Call.isSubscribe = some true := by
  have hmsgs := udpDelivered_msgs history u t buffer now
  rw [← mem_udpSubscriptions_iff, ne_eq, ← List.map_eq_nil_iff (f := Delivery.msg), hmsgs]
  by_cases hmem : t.msg.symbol.toBitVec ∈ udpSubscriptions history <;> simp [hmem]

/-! ### ZMQ -/

theorem zmqFilters_snoc (history : List Call) (c : Call) :
    zmqFilters (history ++ [c]) = ZmqFeedHandler.applyCall (zmqFilters history) c := by
  unfold zmqFilters
  rw [List.foldl_append]
  rfl

theorem count_setFilter (filters : ZmqFeedHandler.Filters) (b : Bool) (x y : List Byte) :
    (ZmqFeedHandler.setFilter filters b y).count x =
      if y = x then (if b then filters.count x + 1 else filters.count x - 1)
      else filters.count x := by
  unfold ZmqFeedHandler.setFilter
  by_cases hxy : y = x
  · subst hxy
    cases b <;> simp
  · cases b <;> simp [hxy, Ne.symm hxy]

theorem topicOf_eq_iff {type : Char} {s s' : List Byte} :
    ZmqFeedHandler.topicOf type s = ZmqFeedHandler.topicOf type s' ↔ s = s' := by
  simp [ZmqFeedHandler.topicOf]

theorem topicOf_ne (s s' : List Byte) :
    ZmqFeedHandler.topicOf 'Q' s ≠ ZmqFeedHandler.topicOf 'T' s' := by
  intro h
  have htype : byteOf 'Q' = byteOf 'T' := (List.cons.inj h).1
  exact absurd htype (by decide)

/-- The quote filters and the trade filters are counted alike. -/
theorem count_zmqFilters {type : Char} (htype : type = 'Q' ∨ type = 'T') (s : List Byte)
    (history : List Call) :
    (zmqFilters history).count (ZmqFeedHandler.topicOf type s) = surplus s history := by
  induction history using List.reverseRecOn with
  | nil => rfl
  | append_singleton history c ih =>
      rw [zmqFilters_snoc, surplus_snoc, ← ih]
      unfold ZmqFeedHandler.applyCall
      rw [count_setFilter, count_setFilter]
      rcases htype with rfl | rfl
      · rw [if_neg (topicOf_ne s c.symbol).symm]
        simp only [topicOf_eq_iff]
      · rw [if_neg (topicOf_ne c.symbol s)]
        simp only [topicOf_eq_iff]

theorem mem_setFilter {filters : ZmqFeedHandler.Filters} {b : Bool} {x y : List Byte}
    (h : x ∈ ZmqFeedHandler.setFilter filters b y) : x = y ∨ x ∈ filters := by
  unfold ZmqFeedHandler.setFilter at h
  cases b with
  | true => simpa using h
  | false => exact Or.inr (Multiset.mem_of_mem_erase (by simpa using h))

/-- Every filter is the text of a quote or trade filter. -/
theorem exists_of_mem_zmqFilters {filter : List Byte} {history : List Call}
    (h : filter ∈ zmqFilters history) :
    ∃ type s, (type = 'Q' ∨ type = 'T') ∧ filter = ZmqFeedHandler.topicOf type s := by
  induction history using List.reverseRecOn with
  | nil => simp [zmqFilters] at h
  | append_singleton history c ih =>
      rw [zmqFilters_snoc] at h
      rcases mem_setFilter h with rfl | h
      · exact ⟨'T', c.symbol, Or.inr rfl, rfl⟩
      · rcases mem_setFilter h with rfl | h
        · exact ⟨'Q', c.symbol, Or.inl rfl, rfl⟩
        · exact ih h

/-- A message passes if some prefix of its field is still subscribed, whatever its
type. -/
theorem passes_iff (msg : MarketDataMsg) (history : List Call) :
    ZmqFeedHandler.passes (zmqFilters history) (header msg) ↔
      PrefixSubscribed msg.symbol history := by
  have hheader : ∃ type, (type = 'Q' ∨ type = 'T') ∧ typeByte msg = byteOf type := by
    cases msg with
    | quote q => exact ⟨'Q', Or.inl rfl, rfl⟩
    | trade t => exact ⟨'T', Or.inr rfl, rfl⟩
  obtain ⟨type, htype, hbyte⟩ := hheader
  constructor
  · rintro ⟨filter, hmem, hprefix⟩
    obtain ⟨type', s, htype', rfl⟩ := exists_of_mem_zmqFilters hmem
    have hs : s <+: msg.symbol.toList := by
      unfold ZmqFeedHandler.topicOf header at hprefix
      simpa using (List.cons_prefix_cons.mp (List.cons_prefix_cons.mp hprefix).2).2
    refine ⟨s, hs, ?_⟩
    rw [← count_zmqFilters htype' s history, Multiset.count_pos]
    exact hmem
  · rintro ⟨s, hs, hpos⟩
    refine ⟨ZmqFeedHandler.topicOf type s, ?_, ?_⟩
    · rw [← Multiset.count_pos, count_zmqFilters htype s history]
      exact hpos
    · unfold ZmqFeedHandler.topicOf header
      rw [hbyte]
      exact List.cons_prefix_cons.mpr ⟨rfl, List.cons_prefix_cons.mpr ⟨rfl, hs⟩⟩

theorem zmqDelivered_iff {history : List Call} {u : Bytes topicHeaderSize} {t : Turn Unit}
    {now : BitVec 64} :
    zmqDelivered history u t now ≠ [] ↔ PrefixSubscribed t.msg.symbol history := by
  have hsymbol : t.stamped.symbol = t.msg.symbol :=
    MarketDataMsg.symbol_setDisseminateTimestamp t.now t.msg
  rw [← hsymbol, ← passes_iff]
  unfold zmqDelivered
  rw [zmqSends_eq]
  by_cases hpass : ZmqFeedHandler.passes (zmqFilters history) (header t.stamped)
  · simp [ZmqFeedHandler.receive, hpass, ZmqFeedHandler.handle_frames]
  · simp [ZmqFeedHandler.receive, hpass]

/-! ### When they agree -/

theorem ofList_of_lastNaming {f : Bytes 8} {c : Call} {history : List Call}
    (h : lastNaming f history = some c) : Bytes.ofList 8 c.symbol = f := by
  have hmem := List.mem_of_getLast? h
  simpa using (List.mem_filter.mp hmem).2

/-- A symbol whose subscribe is the last call naming the field is still subscribed. -/
theorem surplus_pos_of_lastNaming {f : Bytes 8} {s : List Byte} {history : List Call}
    (h : lastNaming f history = some ⟨true, s⟩) : 0 < surplus s history := by
  induction history using List.reverseRecOn with
  | nil => simp [lastNaming] at h
  | append_singleton history c ih =>
      rw [lastNaming_snoc] at h
      rw [surplus_snoc]
      by_cases hc : Bytes.ofList 8 c.symbol = f
      · rw [if_pos hc, Option.some.injEq] at h
        subst h
        simp
      · rw [if_neg hc] at h
        have hs : Bytes.ofList 8 s = f := ofList_of_lastNaming h
        have hne : c.symbol ≠ s := by
          intro heq
          exact hc (by rw [heq]; exact hs)
        rw [if_neg hne]
        exact ih h

theorem prefixSubscribed_of_lastNaming {f : Bytes 8} {s : List Byte} {history : List Call}
    (h : lastNaming f history = some ⟨true, s⟩) (hlen : s.length ≤ 8) :
    PrefixSubscribed f history := by
  refine ⟨s, ?_, surplus_pos_of_lastNaming h⟩
  rw [← ofList_of_lastNaming h, toList_ofList_of_le hlen]
  exact List.prefix_append _ _

/-- The condition on a history and a symbol field under which the filters agree.  If
the last call naming the field is a subscribe, its symbol has at most eight bytes, or
some prefix of the field is still subscribed; otherwise no prefix of it is. -/
def FiltersAgree (f : Bytes 8) (history : List Call) : Prop :=
  match lastNaming f history with
  | some ⟨true, s⟩ => s.length ≤ 8 ∨ PrefixSubscribed f history
  | _ => ¬ PrefixSubscribed f history

/--
**When the two transports filter alike.**  For every history of calls and every message
of `run_loop`, whatever the buffers held: UDP delivers the message if and only if ZMQ
does, exactly under `FiltersAgree`.
-/
theorem filters_agree_iff (history : List Call) (u u' : Bytes topicHeaderSize)
    (t : Turn (Bytes UdpDisseminator.bufferSize)) (buffer : Bytes UdpFeedHandler.receiveBufferSize)
    (now now' : BitVec 64) :
    (udpDelivered history u t buffer now ≠ [] ↔
        zmqDelivered history u' { t with env := () } now' ≠ []) ↔
      FiltersAgree t.msg.symbol history := by
  rw [udpDelivered_iff, zmqDelivered_iff]
  show (_ ↔ PrefixSubscribed t.msg.symbol history) ↔ _
  unfold FiltersAgree
  rcases hlast : lastNaming t.msg.symbol history with _ | ⟨_ | _, s⟩
  · simp
  · simp
  · simp only [Option.map_some, true_iff]
    constructor
    · exact Or.inr
    · rintro (hlen | hsub)
      · exact prefixSubscribed_of_lastNaming hlast hlen
      · exact hsub

/-- A quote for `AAPL`, about to be sent. -/
def aapl {E : Type} (env : E) : Turn E where
  msg := .quote (RandomWalkGenerator.generateQuote ("AAPL".toList.map byteOf) 0 0 50 50 0)
  now := 0
  padding := Bytes.zero 4
  env := env

/-- **A prefix is enough for one and not for the other.**  After one subscribe to `A` a
quote for `AAPL` is delivered over ZMQ and not over UDP. -/
theorem filters_differ :
    udpDelivered [⟨true, [byteOf 'A']⟩] (Bytes.zero _) (aapl (Bytes.zero _)) (Bytes.zero _) 0 = [] ∧
      zmqDelivered [⟨true, [byteOf 'A']⟩] (Bytes.zero _) (aapl ()) 0 ≠ [] := by
  constructor
  · decide +kernel
  · decide +kernel

end MarketData
