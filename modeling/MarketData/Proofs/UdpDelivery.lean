/-
What the UDP receive loop delivers, and under which subscriptions.

One result of `recvfrom` makes at most one callback, and `handle_datagram` says which,
given the subscriptions at that moment.  These are what the commands drained so far
make of the empty set.  It remains to say how far the loop has got with draining:
before it receives it has seen the queue empty, so everything accepted before that
look at the queue has been drained.
-/
import MarketData.Proofs.RoundTrip
import MarketData.Proofs.Subscriptions

namespace MarketData

open Lib

namespace UdpFeedHandler

open IDisseminator IFeedHandler

variable {W : Nat} {N : Capacity W} {s s' : State W} {e : Event}

/-! ### One datagram -/

theorem received_of_le {bytes : List Byte} (h : bytes.length ≤ receiveBufferSize) :
    received bytes = bytes := List.take_of_length_le h

/-- A datagram that means something is not cut, and one that is cut means nothing. -/
theorem meaning_of_long {bytes : List Byte} (h : receiveBufferSize ≤ bytes.length) :
    meaning bytes = none := by
  have hsize : receiveBufferSize = 1024 := rfl
  have hheader : topicHeaderSize = 10 := rfl
  have hquote : sizeofQuote = 48 := rfl
  have htrade : sizeofTrade = 40 := rfl
  unfold meaning
  rw [if_neg (by rintro ⟨hlen, -⟩; omega), if_neg (by rintro ⟨hlen, -⟩; omega)]

/-- Cutting a datagram to the size of the buffer makes no difference. -/
theorem delivers_eq (subs : Finset (BitVec 64)) (bytes : List Byte) :
    delivers subs bytes = if datagramId bytes ∈ subs then meaning bytes else none := by
  unfold delivers
  by_cases hlen : bytes.length ≤ receiveBufferSize
  · rw [received_of_le hlen]
  · have hcut : receiveBufferSize ≤ (received bytes).length := by
      unfold received
      rw [List.length_take]
      omega
    rw [meaning_of_long hcut, meaning_of_long (by omega : receiveBufferSize ≤ bytes.length)]
    simp

theorem meaning_eq_quote_iff {bytes : List Byte} {q : Quote} :
    meaning bytes = some (.quote q) ↔
      bytes.length = topicHeaderSize + sizeofQuote ∧ bytes[0]? = some (byteOf 'Q') ∧
        q = Quote.ofBytes (Bytes.ofList sizeofQuote (bytes.drop topicHeaderSize)) := by
  unfold meaning
  by_cases hquote : bytes.length = topicHeaderSize + sizeofQuote ∧ bytes[0]? = some (byteOf 'Q')
  · rw [if_pos hquote]
    simp [hquote.1, hquote.2, eq_comm]
  · rw [if_neg hquote]
    constructor
    · intro h
      split at h <;> simp at h
    · rintro ⟨hlen, hbyte, -⟩
      exact absurd ⟨hlen, hbyte⟩ hquote

theorem meaning_eq_trade_iff {bytes : List Byte} {t : Trade} :
    meaning bytes = some (.trade t) ↔
      bytes.length = topicHeaderSize + sizeofTrade ∧ bytes[0]? = some (byteOf 'T') ∧
        t = Trade.ofBytes (Bytes.ofList sizeofTrade (bytes.drop topicHeaderSize)) := by
  unfold meaning
  by_cases htrade : bytes.length = topicHeaderSize + sizeofTrade ∧ bytes[0]? = some (byteOf 'T')
  · -- The two sizes differ, so the first test fails.
    have hquote : ¬ (bytes.length = topicHeaderSize + sizeofQuote ∧
        bytes[0]? = some (byteOf 'Q')) := by
      rintro ⟨hlen, -⟩
      rw [htrade.1] at hlen
      exact absurd hlen (by decide)
    rw [if_neg hquote, if_pos htrade]
    simp [htrade.1, htrade.2, eq_comm]
  · rw [if_neg htrade]
    constructor
    · intro h
      split at h <;> simp at h
    · rintro ⟨hlen, hbyte, -⟩
      exact absurd ⟨hlen, hbyte⟩ htrade

/-- The callback made for a result of `recvfrom`. -/
theorem delivered_recv {r : Receiver W} (hr : s.receiver = some r) (res : Recv)
    (now : BitVec 64) :
    delivered Callbacks.both s (.recv res now) = (res.datagram?.bind (delivers r.subscriptions)).map
      fun msg => { msg := msg, receiveTimestamp := now } := by
  simp only [delivered, hr, Option.bind_some]
  cases res with
  | fail => rfl
  | datagram bytes =>
      rw [handle_datagram, Recv.datagram?_datagram, Option.bind_some]
      unfold delivers
      by_cases hsub : datagramId (received bytes) ∈ r.subscriptions
      · rw [if_pos hsub, if_pos hsub]
        cases meaning (received bytes) <;> simp
      · rw [if_neg hsub, if_neg hsub]
        rfl

/-- A message is delivered exactly if the result is a datagram with a subscribed id
that stands for it. -/
theorem delivered_recv_iff {r : Receiver W} (hr : s.receiver = some r) {res : Recv}
    {now t : BitVec 64} {msg : MarketDataMsg} :
    delivered Callbacks.both s (.recv res now) = some { msg := msg, receiveTimestamp := t } ↔
      t = now ∧ ∃ bytes, res = .datagram bytes ∧ meaning bytes = some msg ∧
        datagramId bytes ∈ r.subscriptions := by
  rw [delivered_recv hr]
  cases res with
  | fail => simp
  | datagram bytes =>
      rw [Recv.datagram?_datagram, Option.bind_some, delivers_eq]
      by_cases hsub : datagramId bytes ∈ r.subscriptions
      · rw [if_pos hsub]
        simp [hsub, and_comm, eq_comm]
      · rw [if_neg hsub]
        simp [hsub]

/-! ### How far the loop has drained -/

def Event.isRecv : Event → Bool
  | .recv _ _ => true
  | _ => false

/-- The drain loop has ended, and nothing has been received since. -/
def drainOver (s : State W) : Bool :=
  match s.receiver.map Receiver.pc with
  | some (.drain (.done none)) => true
  | some .receive => true
  | _ => false

theorem drainOver_pop {p : PopPc SubCommand W}
    (h : s.receiver.map Receiver.pc = some (.drain p)) (hover : drainOver s = true) :
    p = .done none := by
  unfold drainOver at hover
  rw [h] at hover
  split at hover
  · next heq => simpa using heq
  · next heq => simp at heq
  · simp at hover

/-- A drain loop ends where a pop loads `write_` and finds the queue empty; from then
until the next `recvfrom` nothing is drained. -/
theorem Moves.to_drainOver {xs : List SubCommand} (h : Moves N s e s')
    (hq : QueueInv N s.commandQueue s.client (inPop s) xs) (hover : drainOver s' = true) :
    (drainOver s = true ∧ e.isRecv = false ∧ drained s e = none) ∨
      (e = .loop ∧ inHand s ++ xs = [] ∧
        (∃ r, s.receiver.map Receiver.pc = some (.drain (.loadWrite r))) ∧
        s'.receiver.map Receiver.pc = some (.drain (.done none))) := by
  cases h with
  | start buffer hr => exact absurd hover (by simp [drainOver, State.withReceiver])
  | join hr hpc => exact absurd hover (by simp [drainOver])
  | test hr hpc =>
      refine absurd hover ?_
      cases s.stopRequested <;> simp [drainOver, State.withReceiver]
  | @pop r p n hr hpc hn =>
      have hfails : n.pc = .done none := drainOver_pop rfl hover
      obtain ⟨r', rfl⟩ := PopPc.loadWrite_of_fails hn hfails
      have hin := inPop_of_drain hr hpc
      rw [hin] at hq
      obtain ⟨-, rfl⟩ := hq.pop_fails hn hfails
      refine Or.inr ⟨rfl, ?_, ⟨r', by rw [hr, Option.map_some, hpc]⟩, ?_⟩
      · rw [inHand_of_inPop hin]
        rfl
      · simp [State.withReceiver, hfails]
  | apply hr hpc => exact absurd hover (by simp [drainOver, State.withReceiver])
  | drainEnds hr hpc =>
      refine Or.inl ⟨by simp [drainOver, hr, hpc], rfl, ?_⟩
      exact drained_loop (inHand_of_inPop (inPop_of_drain hr hpc))
  | recv res now hr hpc => exact absurd hover (by simp [drainOver, State.withReceiver])
  | client hp hn => exact Or.inl ⟨hover, rfl, rfl⟩
  | _ => exact Or.inl ⟨hover, rfl, rfl⟩

/-- The pop that ended the latest drain loop of the run `es` loaded `write_` right after
`pre`: the step after `pre` is that load, the pop fails by it, and nothing has been
received since. -/
def DrainEnded (N : Capacity W) (pre es : List Event) : Prop :=
  ∃ rest s s' r, es = pre ++ .loop :: rest ∧ (∀ e ∈ rest, e.isRecv = false) ∧
    (machine N).Exec pre s ∧ (machine N).step s .loop = some s' ∧
    s.receiver.map Receiver.pc = some (.drain (.loadWrite r)) ∧
    s'.receiver.map Receiver.pc = some (.drain (.done none))

theorem DrainEnded.snoc {pre es : List Event} (h : DrainEnded N pre es)
    (he : e.isRecv = false) : DrainEnded N pre (es ++ [e]) := by
  obtain ⟨rest, t, t', r, rfl, hrest, hpre⟩ := h
  refine ⟨rest ++ [e], t, t', r, by simp, ?_, hpre⟩
  intro e' he'
  rcases List.mem_append.mp he' with hold | hnew
  · exact hrest e' hold
  · rw [List.mem_singleton.mp hnew]
    exact he

/-- When the loop is about to receive, what has been drained is what had been accepted
when the drain loop's last pop looked at the queue. -/
theorem exists_drainEnded {es : List Event} (h : (machine N).Exec es s) :
    drainOver s = true → ∃ pre, DrainEnded N pre es ∧
      (machine N).log accepted pre = (machine N).log drained es := by
  refine Machine.Exec.induction (P := fun es s => drainOver s = true →
    ∃ pre, DrainEnded N pre es ∧
      (machine N).log accepted pre = (machine N).log drained es)
    (fun h0 => absurd h0 (by simp [drainOver, machine])) ?_ h
  intro es s e s' hex ih hs hover
  obtain ⟨xs, hq, haccepted⟩ := exists_queued hex
  rcases (moves_of_step hs).to_drainOver hq hover with ⟨hover', hrecv, hnone⟩ |
    ⟨rfl, hempty, ⟨r, hbefore⟩, hafter⟩
  · obtain ⟨pre, hended, heq⟩ := ih hover'
    refine ⟨pre, hended.snoc hrecv, ?_⟩
    rw [Machine.log_snoc drained hex hs, hnone, heq]
    exact (List.append_nil _).symm
  · refine ⟨es, ⟨[], s, s', r, rfl, by simp, hex, hs, hbefore, hafter⟩, ?_⟩
    have hnone : inHand s = [] := (List.append_eq_nil_iff.mp hempty).1
    rw [Machine.log_snoc drained hex hs, drained_loop hnone, haccepted, hempty]
    rfl

/-! ### Main result -/

/-- The last command for the id drained along the run is a subscribe. -/
def Subscribed (N : Capacity W) (es : List Event) (id : BitVec 64) : Prop :=
  Update.lastFor id (((machine N).log drained es).map SubCommand.update) = some true

/-- **The receive loop delivers exactly the subscribed, well-formed datagrams.**  Let a
run of one session come to a `recvfrom` that returns `res`.  The callback made, if any,
is a Quote callback exactly if `res` is a datagram of the size of a Quote with a header
that starts with `Q` and carries a subscribed id, and then with the Quote in the bytes
after the header; likewise for Trade.  The drained commands, which decide what is
subscribed, are a prefix of the accepted ones, and contain all that were accepted when
the last pop of the drain loop looked at the queue. -/
theorem delivers_exactly (N : Capacity W) (es : List Event) (s s' : State W) (res : Recv)
    (now : BitVec 64) (h : (machine N).Exec es s) (hone : starts es ≤ 1)
    (hrecv : (machine N).step s (.recv res now) = some s') :
    (∀ q t, delivered Callbacks.both s (.recv res now) =
        some { msg := .quote q, receiveTimestamp := t } ↔
      t = now ∧ ∃ bytes, res = .datagram bytes ∧
        bytes.length = topicHeaderSize + sizeofQuote ∧ bytes[0]? = some (byteOf 'Q') ∧
        q = Quote.ofBytes (Bytes.ofList sizeofQuote (bytes.drop topicHeaderSize)) ∧
        Subscribed N es (datagramId bytes)) ∧
    (∀ d t, delivered Callbacks.both s (.recv res now) =
        some { msg := .trade d, receiveTimestamp := t } ↔
      t = now ∧ ∃ bytes, res = .datagram bytes ∧
        bytes.length = topicHeaderSize + sizeofTrade ∧ bytes[0]? = some (byteOf 'T') ∧
        d = Trade.ofBytes (Bytes.ofList sizeofTrade (bytes.drop topicHeaderSize)) ∧
        Subscribed N es (datagramId bytes)) ∧
    (machine N).log drained es <+: (machine N).log accepted es ∧
    ∃ pre, DrainEnded N pre es ∧
      (machine N).log accepted pre <+: (machine N).log drained es := by
  obtain ⟨r, hr, hpc⟩ : ∃ r, s.receiver = some r ∧ r.pc = .receive := by
    have hmoves : Moves N s (.recv res now) s' := moves_of_step hrecv
    cases hmoves with
    | recv _ _ hr hpc => exact ⟨_, hr, hpc⟩
  have hsubs : ∀ id, id ∈ r.subscriptions ↔ Subscribed N es id := by
    intro id
    rw [(subscriptions_eq h hone).2 r hr]
    exact Update.mem_applyAll_iff id _
  refine ⟨?_, ?_, ?_, ?_⟩
  · intro q t
    rw [delivered_recv_iff hr]
    simp only [meaning_eq_quote_iff, hsubs, and_assoc]
  · intro d t
    rw [delivered_recv_iff hr]
    simp only [meaning_eq_trade_iff, hsubs, and_assoc]
  · obtain ⟨xs, -, haccepted⟩ := exists_queued h
    rw [haccepted]
    exact List.prefix_append _ _
  · obtain ⟨pre, hended, heq⟩ := exists_drainEnded h (by simp [drainOver, hr, hpc])
    exact ⟨pre, hended, heq ▸ List.prefix_rfl⟩

/-- A datagram with the header of a Quote for `B`. -/
def quoteForB : List Byte :=
  byteOf 'Q' :: byteOf ':' :: 66 :: List.replicate 7 0 ++ List.replicate sizeofQuote 1

theorem drainedRun_receives :
    ((machine slots128).step ((machine slots128).final drainedRun drainedRun_goes)
      (.recv (.datagram quoteForB) 7)).isSome = true := by
  decide +kernel

theorem delivers_exactly_drainedRun : ∃ s, (machine slots128).Exec drainedRun s ∧
    delivered Callbacks.both s (.recv (.datagram quoteForB) 7) =
      some { msg := .quote (Quote.ofBytes (Bytes.ofList sizeofQuote (List.replicate 48 1))),
             receiveTimestamp := 7 } :=
  ⟨_, Machine.exec_final drainedRun_goes,
    ((delivers_exactly slots128 drainedRun _ _ (.datagram quoteForB) 7
      (Machine.exec_final drainedRun_goes) (by decide)
      (Option.some_get drainedRun_receives).symm).1 _ _).mpr
      ⟨rfl, quoteForB, rfl, by decide, by decide, rfl, by unfold Subscribed; decide +kernel⟩⟩

end UdpFeedHandler

end MarketData
