/-
From the generator to the callback.

The conservation proof follows a message as far as `send_impl`.  Here it is followed the
rest of the way.  What the disseminator has sent is the network, packet by packet
(`network_eq`), since every header is written over a topic with its colon (`Headed`).
What the feed handler makes of the packets it was handed is the same argument for both
transports (`InSequence`): it is done with some of them, the rest is on its socket, and
its callbacks are made for packets it is done with, in their order, each at most once.

A packet passes without a callback when nobody subscribed to its symbol (UDP) or when a
call of `recv` failed between its two frames (ZMQ).  Where neither happens and both
callbacks are set, the callbacks are all the packets the handler is done with.  The
network loses nothing by itself in that case, so the messages can be counted from end to
end.
-/
import MarketData.Lib.Projection
import MarketData.Proofs.Latency
import MarketData.Proofs.Subscriptions

namespace MarketData

open Lib IDisseminator IFeedHandler

namespace Transport

/-! ### Packets in, callbacks out -/

/-- A message that was sent, with the padding of its payload. -/
abbrev Sending := Bytes 4 × MarketDataMsg

def Sound.packetOf {T : Transport} (S : T.Sound) (x : Sending) : T.Packet := S.packet x.1 x.2

/-- What the handler's run made of the packets `sends`.  It is done with `done`; in a
`clean` run there was a callback for each of them. -/
structure Handles {T : Transport} (S : T.Sound) (onSocket : List T.Packet)
    (callbacks : List MarketDataMsg) (clean : Prop) (sends done waiting : List Sending) :
    Prop where
  split : sends = done ++ waiting
  socket : onSocket = waiting.map S.packetOf
  inOrder : callbacks.Sublist (done.map Prod.snd)
  complete : clean → callbacks = done.map Prod.snd

/-- A feed handler that takes packets one after another.  `onSocket` is what has arrived
and was not yet received, and a run is clean when all its steps are. -/
structure InSequence {T : Transport} (S : T.Sound) where
  onSocket : T.Handler → List T.Packet
  Clean : T.Handler → T.Event → Prop
  handles : ∀ {cb : Callbacks} {es : List T.Event} {h : T.Handler} {sends : List Sending},
    T.handler.Exec es h → es.filterMap T.arriving = sends.map S.packetOf →
    ∃ done waiting, Handles S (onSocket h)
      ((T.handler.log (T.delivered cb) es).map Delivery.msg)
      (cb = Callbacks.both ∧ T.handler.Along Clean es) sends done waiting

/-- The packets of one more step. -/
theorem sends_snoc {T : Transport} {S : T.Sound} {es : List T.Event} {e : T.Event}
    {sends : List Sending}
    (h : (es ++ [e]).filterMap T.arriving = sends.map S.packetOf) :
    ∃ old new, sends = old ++ new ∧ es.filterMap T.arriving = old.map S.packetOf ∧
      (T.arriving e).toList = new.map S.packetOf := by
  rw [Machine.filterMap_snoc] at h
  obtain ⟨old, new, hsends, hold, hnew⟩ := List.append_eq_map_iff.mp h
  exact ⟨old, new, hsends, hold.symm, hnew.symm⟩

/-! ### UDP -/

section Udp

variable {V : Nat} {M : Capacity V}

/-- What `recvfrom` brings is of a symbol with a subscription. -/
def heard (s : UdpFeedHandler.State V) : UdpFeedHandler.Event → Bool
  | .recv (.datagram bytes) _ =>
      s.receiver.any fun r => decide (UdpFeedHandler.datagramId bytes ∈ r.subscriptions)
  | _ => true

/-- Without a datagram there is no callback. -/
theorem udp_delivered_none {s : UdpFeedHandler.State V} {e : UdpFeedHandler.Event}
    (cb : Callbacks) (h : (Transport.udp M).arriving e = none) :
    UdpFeedHandler.delivered cb s e = none := by
  cases e with
  | recv res now =>
      cases res with
      | fail =>
          cases hr : s.receiver <;>
            simp [UdpFeedHandler.delivered, hr, UdpFeedHandler.recvfrom, UdpFeedHandler.handle]
      | datagram bytes => cases h
  | _ => rfl

/-- A datagram of the disseminator is delivered as its message, or not at all. -/
theorem udp_delivered_encoded (s : UdpFeedHandler.State V) (now : BitVec 64) (cb : Callbacks)
    (x : Sending) {d : Delivery}
    (hd : UdpFeedHandler.delivered cb s
      (.recv (.datagram (UdpFeedHandler.encoded x.1 x.2)) now) = some d) : d.msg = x.2 := by
  refine udp_delivered (P := fun msg => msg = x.2) ?_ hd
  intro bytes now' he
  obtain ⟨hres, -⟩ := UdpFeedHandler.Event.recv.inj he
  exact ⟨x.1, x.2, rfl, (UdpFeedHandler.Recv.datagram.inj hres).symm⟩

theorem udp_delivered_both {s : UdpFeedHandler.State V} {now : BitVec 64} {x : Sending}
    (h : heard s (.recv (.datagram (UdpFeedHandler.encoded x.1 x.2)) now) = true) :
    UdpFeedHandler.delivered Callbacks.both s
      (.recv (.datagram (UdpFeedHandler.encoded x.1 x.2)) now) = some ⟨x.2, now⟩ := by
  simp only [heard] at h
  simp only [UdpFeedHandler.delivered]
  cases hr : s.receiver with
  | none =>
      rw [hr] at h
      cases h
  | some r =>
      rw [hr, Option.any_some, decide_eq_true_eq] at h
      rw [Option.bind_some, UdpFeedHandler.handle_datagram, UdpFeedHandler.received_encoded,
        if_pos h, UdpFeedHandler.meaning_encoded, Option.bind_some, deliverToClient_both]

/-- One step: it makes the callback for the datagram it takes. -/
theorem udp_step {s : UdpFeedHandler.State V} {e : UdpFeedHandler.Event} (cb : Callbacks)
    {new : List Sending}
    (hnew : ((Transport.udp M).arriving e).toList = new.map (Sound.udp M).packetOf) :
    ((UdpFeedHandler.delivered cb s e).toList.map Delivery.msg).Sublist (new.map Prod.snd) ∧
      (cb = Callbacks.both ∧ heard s e = true →
        (UdpFeedHandler.delivered cb s e).toList.map Delivery.msg = new.map Prod.snd) := by
  cases harr : (Transport.udp M).arriving e with
  | none =>
      rw [harr, Option.toList_none] at hnew
      rw [List.map_eq_nil_iff.mp hnew.symm, udp_delivered_none cb harr]
      exact ⟨List.Sublist.refl _, fun _ => rfl⟩
  | some p =>
      rw [harr, Option.toList_some] at hnew
      obtain ⟨x, rfl, hx⟩ := List.map_eq_singleton_iff.mp hnew.symm
      obtain ⟨now, rfl⟩ : ∃ now,
          e = .recv (.datagram (UdpFeedHandler.encoded x.1 x.2)) now := by
        cases e with
        | recv res now =>
            cases res with
            | fail => cases harr
            | datagram bytes =>
                have hp : bytes = p := Option.some.inj harr
                exact ⟨now, by rw [hp, ← hx]; rfl⟩
        | _ => cases harr
      constructor
      · cases hd : UdpFeedHandler.delivered cb s
          (.recv (.datagram (UdpFeedHandler.encoded x.1 x.2)) now) with
        | none => exact List.nil_sublist _
        | some d =>
            rw [Option.toList_some, List.map_singleton, udp_delivered_encoded s now cb x hd]
            exact List.Sublist.refl _
      · rintro ⟨rfl, hheard⟩
        rw [udp_delivered_both hheard]
        rfl

/-- The UDP feed handler is done with a datagram when it has received it. -/
def InSequence.udp {V : Nat} (M : Capacity V) : InSequence (Sound.udp M) where
  onSocket _ := []
  Clean s e := heard s e = true
  handles := by
    intro cb es h sends hex
    refine Machine.Exec.induction (P := fun es h => ∀ sends : List Sending,
      es.filterMap (Transport.udp M).arriving = sends.map (Sound.udp M).packetOf →
      ∃ done waiting, Handles (Sound.udp M) []
        (((Transport.udp M).handler.log ((Transport.udp M).delivered cb) es).map Delivery.msg)
        (cb = Callbacks.both ∧
          (Transport.udp M).handler.Along (fun s e => heard s e = true) es)
        sends done waiting) ?_ ?_ hex sends
    · intro sends hsends
      rw [List.map_eq_nil_iff.mp hsends.symm]
      exact ⟨[], [], rfl, rfl, List.Sublist.refl _, fun _ => rfl⟩
    · intro es s e s' hex ih hs sends hsends
      obtain ⟨old, new, rfl, hold, hnew⟩ := sends_snoc hsends
      obtain ⟨done, waiting, hsplit, hsocket, horder, hcomplete⟩ := ih old hold
      rw [List.map_eq_nil_iff.mp hsocket.symm, List.append_nil] at hsplit
      obtain ⟨hsub, heq⟩ := udp_step (s := s) cb hnew
      refine ⟨old ++ new, [], ?_, rfl, ?_, ?_⟩
      · rw [List.append_nil]
      · rw [Machine.log_snoc _ hex hs, List.map_append, List.map_append, hsplit]
        exact horder.append hsub
      · rintro ⟨hcb, hclean⟩
        rw [Machine.log_snoc _ hex hs, List.map_append, List.map_append, hsplit,
          hcomplete ⟨hcb, hclean.init⟩]
        exact congrArg _ (heq ⟨hcb, hclean.last hex⟩)

end Udp

/-! ### ZMQ -/

section Zmq

open ZmqFeedHandler (InStep Receives Moves inHand moves_of_step)

variable {s s' : ZmqFeedHandler.State} {e : ZmqFeedHandler.Event} {sends : List Sending}

def multipartOf (x : Sending) : ZmqFeedHandler.Multipart := multipart x.1 x.2

/-- No call of `recv` fails with a topic in hand. -/
def uninterrupted (s : ZmqFeedHandler.State) (e : ZmqFeedHandler.Event) : Bool :=
  (ZmqFeedHandler.interrupted s e).isNone

def arrived : ZmqFeedHandler.Event → Option ZmqFeedHandler.Multipart
  | .arrive m => some m
  | _ => none

/-- The stream grows by what arrives. -/
theorem stream_of_step (hs : ZmqFeedHandler.step s e = some s') :
    s'.stream = s.stream ++ (arrived e).toList := by
  rcases (moves_of_step hs).stream_eq with heq | ⟨m, rfl, heq⟩
  · cases e with
    | arrive m =>
        rw [← Option.some.inj hs]
        rfl
    | start | requestStop | join | checkStop | recv | rcvmore =>
        rw [heq]
        exact (List.append_nil _).symm
  · exact heq

/-- A message of the stream is one that was sent, and has two frames. -/
theorem sending_of_stream (hstream : s.stream = sends.map multipartOf) {n : Nat}
    {m : ZmqFeedHandler.Multipart} (hm : s.stream[n]? = some m) :
    ∃ x, sends[n]? = some x ∧ m = multipart x.1 x.2 ∧ m.frames.length = 2 := by
  rw [hstream, List.getElem?_map, Option.map_eq_some_iff] at hm
  obtain ⟨x, hx, rfl⟩ := hm
  exact ⟨x, hx, rfl, rfl⟩

/-- The frames of a message are delivered as that message. -/
theorem deliver_of_together {stream : List ZmqFeedHandler.Multipart} {x : ZmqFeedHandler.Handled}
    (cb : Callbacks) {padding : Bytes 4} {msg : MarketDataMsg} (hx : x.Together stream)
    (hm : stream[x.topic.message]? = some (multipart padding msg)) :
    x.deliver cb = deliverToClient cb x.now msg := by
  obtain ⟨m, hm', htopic⟩ := hx.topic
  obtain ⟨m'', hm'', hpayload⟩ := hx.payload
  rw [hm, Option.some.injEq] at hm'
  rw [hx.message, hm, Option.some.injEq] at hm''
  subst hm' hm''
  rw [hx.index] at hpayload
  obtain ⟨hlt, -⟩ := List.getElem?_eq_some_iff.mp hpayload
  have hzero : x.topic.index = 0 := by
    have hlen : (multipart padding msg).frames.length = 2 := rfl
    omega
  rw [hzero] at htopic hpayload
  have hfirst : x.topic.bytes = header msg := (Option.some.inj htopic).symm
  have hsecond : x.payload.bytes = (payload padding msg).toList := (Option.some.inj hpayload).symm
  unfold ZmqFeedHandler.Handled.deliver
  rw [hfirst, hsecond, ZmqFeedHandler.handle_frames]

/-- Where the receive loop is in the stream of the messages `sends`.  In a clean run it
never reads a second frame as a topic. -/
structure Reads (sends : List Sending) (s : ZmqFeedHandler.State)
    (callbacks : List MarketDataMsg) (clean : Prop) : Prop where
  inStep : InStep s
  stream : s.stream = sends.map multipartOf
  inOrder : callbacks.Sublist ((sends.take s.message).map Prod.snd)
  complete : clean → callbacks = (sends.take s.message).map Prod.snd
  paired : clean → s.frame ≠ 0 → inHand s.thread ≠ none

variable {callbacks : List MarketDataMsg} {clean clean' : Prop} {new : List Sending}

theorem Reads.message_le (h : Reads sends s callbacks clean) : s.message ≤ sends.length := by
  have hbound := h.inStep.bound
  rwa [h.stream, List.length_map] at hbound

/-- A step that stays at its message. -/
theorem Reads.stay (h : Reads sends s callbacks clean) (hin : InStep s')
    (hstream : s'.stream = (sends ++ new).map multipartOf)
    (hmessage : s'.message = s.message) (hclean : clean' → clean)
    (hpaired : clean' → s'.frame ≠ 0 → inHand s'.thread ≠ none) :
    Reads (sends ++ new) s' callbacks clean' := by
  have htake : (sends ++ new).take s'.message = sends.take s.message := by
    rw [hmessage, List.take_append_of_le_length h.message_le]
  refine ⟨hin, hstream, ?_, ?_, hpaired⟩
  · rw [htake]
    exact h.inOrder
  · rw [htake]
    exact fun hc => h.complete (hclean hc)

/-- A step that is done with the message `x`, with the callbacks `out`. -/
theorem Reads.advance {x : Sending} {out : List MarketDataMsg} (h : Reads sends s callbacks clean)
    (hin : InStep s') (hstream : s'.stream = (sends ++ new).map multipartOf)
    (hx : sends[s.message]? = some x) (hmessage : s'.message = s.message + 1)
    (hframe : s'.frame = 0) (hout : out.Sublist [x.2])
    (hclean : clean' → clean ∧ out = [x.2]) :
    Reads (sends ++ new) s' (callbacks ++ out) clean' := by
  obtain ⟨hlt, -⟩ := List.getElem?_eq_some_iff.mp hx
  have htake : (sends ++ new).take s'.message = sends.take s.message ++ [x] := by
    rw [hmessage, List.take_append_of_le_length hlt, List.take_add_one, hx]
    rfl
  refine ⟨hin, hstream, ?_, ?_, fun _ hne => absurd hframe hne⟩
  · rw [htake, List.map_append]
    exact h.inOrder.append hout
  · intro hc
    obtain ⟨hold, hone⟩ := hclean hc
    rw [htake, List.map_append, h.complete hold, hone]
    rfl

/-- The frame that is received next is one of two. -/
theorem Reads.receives {f : ZmqFeedHandler.Frame} {t : ZmqFeedHandler.State}
    (h : Reads sends s callbacks clean) (hr : Receives s f t) :
    (s.frame = 0 ∧ t.message = s.message ∧ t.frame = 1) ∨
      ∃ x, sends[s.message]? = some x ∧ s.stream[s.message]? = some (multipartOf x) ∧
        s.frame = 1 ∧ t.message = s.message + 1 ∧ t.frame = 0 := by
  cases hr with
  | @more m bytes hm hbytes hlen =>
      obtain ⟨x, -, -, htwo⟩ := sending_of_stream h.stream hm
      have hzero : s.frame = 0 := by omega
      exact .inl ⟨hzero, rfl, by rw [hzero]⟩
  | @last m bytes hm hbytes hlen =>
      obtain ⟨x, hx, hmx, htwo⟩ := sending_of_stream h.stream hm
      have hone : s.frame = 1 := by omega
      rw [hmx] at hm
      exact .inr ⟨x, hx, hm, hone, rfl, rfl⟩

theorem Reads.step {cb : Callbacks} (h : Reads sends s callbacks clean)
    (hs : ZmqFeedHandler.step s e = some s') (hnew : (arrived e).toList = new.map multipartOf)
    (hclean : clean' → clean ∧ cb = Callbacks.both ∧ uninterrupted s e = true) :
    Reads (sends ++ new) s'
      (callbacks ++ (ZmqFeedHandler.delivered cb s e).toList.map Delivery.msg) clean' := by
  have hm := moves_of_step hs
  have hin := h.inStep.step hm
  have hstream : s'.stream = (sends ++ new).map multipartOf := by
    rw [stream_of_step hs, h.stream, hnew, List.map_append]
  unfold uninterrupted at hclean
  unfold ZmqFeedHandler.delivered
  generalize ZmqFeedHandler.handled s e = x? at hm ⊢
  generalize ZmqFeedHandler.interrupted s e = i? at hm hclean
  have hold : clean' → clean := fun hc => (hclean hc).1
  cases hm with
  | idle hidle =>
      obtain ⟨-, hmessage, hframe, -, hthread⟩ := hidle
      rw [Option.bind_none, Option.toList_none, List.map_nil, List.append_nil]
      refine h.stay hin hstream hmessage hold ?_
      intro hc hne
      rw [hframe] at hne
      have hpaired := h.paired (hold hc) hne
      rcases hthread with heq | ⟨hnone, -⟩
      · rw [heq]
        exact hpaired
      · exact absurd hnone hpaired
  | arrive m =>
      rw [Option.bind_none, Option.toList_none, List.map_nil, List.append_nil]
      exact h.stay hin hstream rfl hold fun hc => h.paired (hold hc)
  | rcvmore hpc =>
      rw [Option.bind_none, Option.toList_none, List.map_nil, List.append_nil]
      refine h.stay hin hstream rfl hold ?_
      intro _ hne
      have hne : s.frame ≠ 0 := hne
      rw [if_pos (h.inStep.flag.mpr hne)]
      simp [inHand, ZmqFeedHandler.State.goto]
  | @topic now f t hpc hr =>
      rw [Option.bind_none, Option.toList_none, List.map_nil]
      rcases h.receives hr with ⟨-, hmessage, -⟩ | ⟨x, hx, -, hone, hmessage, hframe⟩
      · rw [List.append_nil]
        refine h.stay hin hstream hmessage hold ?_
        simp [inHand, ZmqFeedHandler.State.goto]
      · -- A second frame read as a topic: its message was interrupted.
        refine h.advance hin hstream hx hmessage hframe (List.nil_sublist _) ?_
        intro hc
        refine absurd ?_ (h.paired (hold hc) (by omega))
        rw [hpc]
        rfl
  | @payload now topic f t hpc hr =>
      have hne := h.inStep.payload topic hpc
      rcases h.receives hr with ⟨hzero, -, -⟩ | ⟨x, hx, hmsg, -, hmessage, hframe⟩
      · exact absurd hzero hne
      · obtain ⟨htopic, -, -⟩ := h.inStep.hold topic (by rw [hpc]; rfl) hne
        have hdeliver := deliver_of_together cb (h.inStep.together hpc hr now)
          (by rw [htopic]; exact hmsg)
        rw [Option.bind_some, hdeliver]
        refine h.advance hin hstream hx hmessage hframe ?_ ?_
        · cases hd : deliverToClient cb now x.2 with
          | none => exact List.nil_sublist _
          | some d =>
              rw [Option.toList_some, List.map_singleton, msg_of_deliverToClient hd]
        · intro hc
          rw [(hclean hc).2.1, deliverToClient_both]
          exact ⟨hold hc, rfl⟩
  | interrupt hpc hout =>
      rw [Option.bind_none, Option.toList_none, List.map_nil, List.append_nil]
      refine h.stay hin hstream rfl hold ?_
      intro hc
      obtain ⟨-, -, hnone⟩ := hclean hc
      cases hnone

theorem Reads.of_exec (cb : Callbacks) {es : List ZmqFeedHandler.Event}
    (h : ZmqFeedHandler.machine.Exec es s) :
    ∀ sends : List Sending, es.filterMap arrived = sends.map multipartOf →
      Reads sends s ((ZmqFeedHandler.machine.log (ZmqFeedHandler.delivered cb) es).map Delivery.msg)
        (cb = Callbacks.both ∧
          ZmqFeedHandler.machine.Along (fun s e => uninterrupted s e = true) es) := by
  refine Machine.Exec.induction (P := fun es s => ∀ sends : List Sending,
    es.filterMap arrived = sends.map multipartOf →
    Reads sends s ((ZmqFeedHandler.machine.log (ZmqFeedHandler.delivered cb) es).map Delivery.msg)
      (cb = Callbacks.both ∧
        ZmqFeedHandler.machine.Along (fun s e => uninterrupted s e = true) es)) ?_ ?_ h
  · intro sends hsends
    rw [List.map_eq_nil_iff.mp hsends.symm]
    refine ⟨ZmqFeedHandler.inStep_initial, rfl, List.Sublist.refl _, fun _ => rfl, ?_⟩
    intro _ hne
    exact absurd rfl hne
  · intro es s e s' hex ih hs sends hsends
    rw [Machine.filterMap_snoc] at hsends
    obtain ⟨old, new, rfl, hold, hnew⟩ := List.append_eq_map_iff.mp hsends
    rw [Machine.log_snoc _ hex hs, List.map_append]
    refine (ih old hold.symm).step hs hnew.symm ?_
    rintro ⟨hcb, hclean⟩
    exact ⟨⟨hcb, hclean.init⟩, hcb, hclean.last hex⟩

end Zmq

/-- The ZMQ feed handler is done with a message when it has received its last frame. -/
def InSequence.zmq : InSequence Sound.zmq where
  onSocket s := s.stream.drop s.message
  Clean s e := uninterrupted s e = true
  handles := by
    intro cb es s sends hex hsends
    have h : Reads sends s _ _ := Reads.of_exec cb hex sends hsends
    refine ⟨sends.take s.message, sends.drop s.message, ?_, ?_, h.inOrder, h.complete⟩
    · rw [List.take_append_drop]
    · rw [h.stream, List.map_drop]
      rfl

end Transport

namespace System

variable {W : Nat} {N : Capacity W} {Q : QueueCode MarketDataMsg W} {T : Transport}
  {cb : Callbacks} {es : List (Event T)} {s s' : State Q T}

/-! ### The parts of the system -/

/-- The steps of the generator, the disseminator and their queue. -/
def pipelineEvent : Event T → Option Pipeline.Event
  | .pipeline e _ _ => some e
  | .handler _ => none

def handlerEvent : Event T → Option T.Event
  | .pipeline _ _ _ => none
  | .handler e => some e

theorem pipelineStep_some {e : Pipeline.Event} {padding : Bytes 4} {env : T.Env}
    (hs : pipelineStep s e padding env = some s') :
    Pipeline.step s.pipeline e = some s'.pipeline ∧ s'.handler = s.handler ∧
      s'.network = s.network ++ (packet s.pipeline e padding env).toList := by
  obtain ⟨-, hs⟩ := Option.ite_none_right_eq_some.mp hs
  obtain ⟨p, hp, rfl⟩ := Option.map_eq_some_iff.mp hs
  exact ⟨hp, rfl, rfl⟩

theorem handlerStep_some {e : T.Event} (hs : handlerStep cb s e = some s') :
    fromNetwork s e = true ∧ T.handler.step s.handler e = some s'.handler ∧
      s'.pipeline = s.pipeline ∧ s'.network = s.network := by
  obtain ⟨hfrom, hs⟩ := Option.ite_none_right_eq_some.mp hs
  obtain ⟨h', hh', rfl⟩ := Option.map_eq_some_iff.mp hs
  exact ⟨hfrom, hh', rfl, rfl⟩

theorem pipeline_projection :
    Machine.Projection (machine Q T cb) (Pipeline.machine Q) State.pipeline pipelineEvent where
  init := rfl
  own := by
    intro s e d s' hs he
    cases e with
    | pipeline e padding env =>
        rw [← Option.some.inj he]
        exact (pipelineStep_some hs).1
    | handler e => cases he
  other := by
    intro s e s' hs he
    cases e with
    | pipeline e padding env => cases he
    | handler e => exact (handlerStep_some hs).2.2.1

theorem handler_projection :
    Machine.Projection (machine Q T cb) T.handler State.handler handlerEvent where
  init := rfl
  own := by
    intro s e d s' hs he
    cases e with
    | pipeline e padding env => cases he
    | handler e =>
        rw [← Option.some.inj he]
        exact (handlerStep_some hs).2.1
  other := by
    intro s e s' hs he
    cases e with
    | pipeline e padding env => exact (pipelineStep_some hs).2.1
    | handler e => cases he

/-! ### What was sent is what is on the network -/

/-- Observer: the message a step sends, with the padding. -/
def sending (s : State Q T) : Event T → Option Transport.Sending
  | .pipeline e padding _ => (Pipeline.sent s.pipeline e).map fun msg => (padding, msg)
  | .handler _ => none

/-- Observer: the packet that the network hands to the feed handler. -/
def handed (_ : State Q T) : Event T → Option T.Packet
  | .pipeline _ _ _ => none
  | .handler e => T.arriving e

/-- The worker writes every header over a topic with its colon. -/
structure Headed (s : Pipeline.State Q) : Prop where
  sending : ∀ topic msg, s.worker = some (.send topic msg) →
    ∃ old, HasColon old ∧ topic = writeTopic old msg
  colon : ∀ topic, topicOf s.worker = some topic → HasColon topic

theorem Headed.initial : Headed (Pipeline.machine Q).init where
  sending := by intro topic msg h; cases h
  colon := by intro topic h; cases h

theorem Headed.worker_step {p : Pipeline.State Q} {q' : MarketDataQueue.State Q} {now : Nat}
    {u : Bytes topicHeaderSize} {pc pc' : Pc} (h : Headed p) (hworker : p.worker = some pc)
    (hm : IDisseminator.Moves p.queue u now pc pc' q') :
    (∀ topic msg, pc' = .send topic msg → ∃ old, HasColon old ∧ topic = writeTopic old msg) ∧
    ∀ topic, topicOf (some pc') = some topic → HasColon topic := by
  have hcolon := h.colon
  rw [hworker] at hcolon
  cases hm with
  | begin =>
      refine ⟨(by intro topic msg hpc; cases hpc), ?_⟩
      intro topic htopic
      rw [← Option.some.inj htopic]
      exact hasColon_startTopic u
  | callPop hq => exact ⟨(by intro topic msg hpc; cases hpc), hcolon⟩
  | popped hret hq => exact ⟨(by intro topic msg hpc; cases hpc), hcolon⟩
  | stopped hret hq =>
      exact ⟨(by intro topic msg hpc; cases hpc), (by intro topic htopic; cases htopic)⟩
  | send => exact ⟨(by intro topic msg hpc; cases hpc), hcolon⟩
  | @stamp topic msg =>
      have htopic : HasColon topic := hcolon topic rfl
      refine ⟨?_, ?_⟩
      · rintro _ _ ⟨rfl, rfl⟩
        exact ⟨topic, htopic, rfl⟩
      · intro topic' htopic'
        rw [← Option.some.inj htopic']
        exact hasColon_writeTopic htopic _

theorem Headed.step {p p' : Pipeline.State Q} {e : Pipeline.Event} (h : Headed p)
    (hs : Pipeline.step p e = some p') : Headed p' := by
  cases Pipeline.moves_of_step hs with
  | disseminator hworker hm =>
      obtain ⟨hsending, hcolon⟩ := h.worker_step hworker hm
      refine ⟨?_, hcolon⟩
      intro topic msg hpc
      exact hsending topic msg (Option.some.inj hpc)
  | startDisseminator _ =>
      exact ⟨(by intro topic msg hpc; cases hpc), (by intro topic htopic; cases htopic)⟩
  | joinDisseminator _ _ =>
      exact ⟨(by intro topic msg hpc; cases hpc), (by intro topic htopic; cases htopic)⟩
  | setRate | startGenerator | requestStopGenerator | joinGenerator | generator | access | idle =>
      exact ⟨h.sending, h.colon⟩

theorem Headed.of_exec (h : (machine Q T cb).Exec es s) : Headed s.pipeline := by
  refine Machine.Exec.induction (P := fun _ p => Headed p) Headed.initial ?_
    (pipeline_projection.exec h)
  intro _ _ _ _ _ ih hs
  exact ih.step hs

/-- A step of the pipeline puts the packet of the message it sends on the network. -/
theorem Headed.packet_eq {p : Pipeline.State Q} (h : Headed p) (S : T.Sound) (e : Pipeline.Event)
    (padding : Bytes 4) (env : T.Env) :
    packet p e padding env = (Pipeline.sent p e).map fun msg => S.packet padding msg := by
  unfold packet Pipeline.sent
  cases e with
  | disseminator u now =>
      cases hworker : p.worker with
      | none => rfl
      | some pc =>
          cases pc with
          | send topic msg =>
              obtain ⟨old, hold, rfl⟩ := h.sending topic msg hworker
              exact congrArg some (S.sendImpl_eq env old msg padding hold)
          | begin | callPop | popping | stamp | finished => rfl
  | _ => rfl

/-- The network is what was sent, packet by packet. -/
theorem network_eq (S : T.Sound) (h : (machine Q T cb).Exec es s) :
    s.network = ((machine Q T cb).log sending es).map S.packetOf := by
  refine Machine.Exec.induction (P := fun es s => s.network =
    ((machine Q T cb).log sending es).map S.packetOf) rfl ?_ h
  intro es s e s' hex ih hs
  rw [Machine.log_snoc _ hex hs, List.map_append, ← ih]
  cases e with
  | pipeline e padding env =>
      rw [(pipelineStep_some hs).2.2, (Headed.of_exec hex).packet_eq S]
      simp only [sending]
      cases Pipeline.sent s.pipeline e <;> rfl
  | handler e =>
      rw [(handlerStep_some hs).2.2.2]
      exact (List.append_nil _).symm

/-- The messages sent, as the pipeline's own observer sees them. -/
theorem sent_eq (h : (machine Q T cb).Exec es s) :
    ((machine Q T cb).log sending es).map Prod.snd =
      (Pipeline.machine Q).log Pipeline.sent (es.filterMap pipelineEvent) := by
  rw [← Machine.log_map]
  refine pipeline_projection.log_eq ?_ h
  intro s e
  cases e with
  | pipeline e padding env =>
      simp only [sending, pipelineEvent, Option.map_map, Option.bind_some]
      exact Option.map_id'
  | handler e => rfl

theorem handed_eq (h : (machine Q T cb).Exec es s) :
    (machine Q T cb).log handed es = (es.filterMap handlerEvent).filterMap T.arriving := by
  rw [List.filterMap_filterMap]
  refine Machine.log_eq_filterMap ?_ h
  intro s e
  cases e <;> rfl

theorem delivered_eq (h : (machine Q T cb).Exec es s) :
    (machine Q T cb).log (delivered cb) es =
      T.handler.log (T.delivered cb) (es.filterMap handlerEvent) := by
  refine handler_projection.log_eq ?_ h
  intro s e
  cases e <;> rfl

/-- What the handler's run made of the packets it was handed. -/
theorem handles_of_exec {S : T.Sound} (K : Transport.InSequence S)
    (h : (machine Q T cb).Exec es s) {sends : List Transport.Sending}
    (hsends : (machine Q T cb).log handed es = sends.map S.packetOf) :
    ∃ done waiting, Transport.Handles S (K.onSocket s.handler)
      (((machine Q T cb).log (delivered cb) es).map Delivery.msg)
      (cb = Callbacks.both ∧ T.handler.Along K.Clean (es.filterMap handlerEvent))
      sends done waiting := by
  rw [handed_eq h] at hsends
  rw [delivered_eq h]
  exact K.handles (handler_projection.exec h) hsends

/-! ### Nothing is made up -/

/-- Everything in the handler, and every callback so far, comes from a message sent. -/
structure Origin (S : T.Sound) (cb : Callbacks) (es : List (Event T)) (s : State Q T) :
    Prop where
  holds : S.Holds (fun msg => msg ∈ ((machine Q T cb).log sending es).map Prod.snd) s.handler
  callbacks : ∀ d ∈ (machine Q T cb).log (delivered cb) es,
    d.msg ∈ ((machine Q T cb).log sending es).map Prod.snd

theorem Origin.of_exec (S : T.Sound) (h : (machine Q T cb).Exec es s) : Origin S cb es s := by
  refine Machine.Exec.induction (P := Origin S cb) ⟨S.init _, by intro d hd; cases hd⟩ ?_ h
  intro es s e s' hex ih hs
  have hmono : ∀ msg, msg ∈ ((machine Q T cb).log sending es).map Prod.snd →
      msg ∈ ((machine Q T cb).log sending (es ++ [e])).map Prod.snd := by
    intro msg hmsg
    rw [Machine.log_snoc _ hex hs, List.map_append]
    exact List.mem_append_left _ hmsg
  cases e with
  | pipeline e padding env =>
      refine ⟨?_, ?_⟩
      · rw [(pipelineStep_some hs).2.1]
        exact S.mono hmono ih.holds
      · rw [Machine.log_snoc (delivered cb) hex hs]
        intro d hd
        rcases List.mem_append.mp hd with hd | hd
        · exact hmono _ (ih.callbacks d hd)
        · cases hd
  | handler e =>
      obtain ⟨hfrom, hstep, -, -⟩ := handlerStep_some hs
      have harr : ∀ p, T.arriving e = some p → Transport.Carries S.packet
          (fun msg => msg ∈ ((machine Q T cb).log sending es).map Prod.snd) p := by
        intro p hp
        unfold fromNetwork at hfrom
        rw [hp, Option.all_some, decide_eq_true_eq, network_eq S hex] at hfrom
        obtain ⟨x, hx, rfl⟩ := List.mem_map.mp hfrom
        exact ⟨x.1, x.2, List.mem_map_of_mem hx, rfl⟩
      refine ⟨S.mono hmono (S.step ih.holds harr hstep), ?_⟩
      rw [Machine.log_snoc (delivered cb) hex hs]
      intro d hd
      rcases List.mem_append.mp hd with hd | hd
      · exact hmono _ (ih.callbacks d hd)
      · exact hmono _ (S.delivered ih.holds harr hstep (Option.mem_toList.mp hd))

/-! ### Main results -/

/-- The messages that the generator made and did not drop. -/
def kept (Q : QueueCode MarketDataMsg W) (es : List (Event T)) : List MarketDataMsg :=
  (Pipeline.sessions Q (es.filterMap pipelineEvent)).all.flatMap Pipeline.Session.kept

/-- What was sent, and behind it what is on its way, is what was generated. -/
theorem kept_eq (F : Fifo N Q) (h : (machine Q T cb).Exec es s) :
    (kept Q es).map Pipeline.unstamped =
      (((machine Q T cb).log sending es).map Prod.snd ++ Pipeline.popped F s.pipeline ++
        contents N s.pipeline.queue.mem ++ Pipeline.trying F s.pipeline).map
          Pipeline.unstamped := by
  rw [sent_eq h]
  exact (Pipeline.Conserved.of_exec (pipeline_projection.exec h)).conserved

/-- The client's callbacks next to what was sent, and what was sent next to what was
generated. -/
structure Arrives (Q : QueueCode MarketDataMsg W) (cb : Callbacks) (es : List (Event T))
    (s : State Q T) : Prop where
  sent : ∀ d ∈ (machine Q T cb).log (delivered cb) es,
    d.msg ∈ ((machine Q T cb).log sending es).map Prod.snd
  inOrder : ((machine Q T cb).log handed es).Sublist s.network →
    (((machine Q T cb).log (delivered cb) es).map Delivery.msg).Sublist
      (((machine Q T cb).log sending es).map Prod.snd)
  generated : (((machine Q T cb).log sending es).map Prod.snd).map Pipeline.unstamped <+:
    (kept Q es).map Pipeline.unstamped

theorem Arrives.of_exec (F : Fifo N Q) {S : T.Sound} (K : Transport.InSequence S)
    (h : (machine Q T cb).Exec es s) : Arrives Q cb es s := by
  refine ⟨(Origin.of_exec S h).callbacks, ?_, ?_⟩
  · intro hhanded
    rw [network_eq S h] at hhanded
    obtain ⟨sends, hsends, heq⟩ := List.sublist_map_iff.mp hhanded
    obtain ⟨done, waiting, hsplit, -, horder, -⟩ := handles_of_exec K h heq
    have hdone : done.Sublist sends := by
      rw [hsplit]
      exact List.sublist_append_left _ _
    exact horder.trans ((hdone.trans hsends).map _)
  · rw [kept_eq F h, List.append_assoc, List.append_assoc, List.map_append]
    exact List.prefix_append _ _

/-- In every run, whatever the network does, every callback is for a message that was
sent; if the network keeps the order of what it does not lose, and repeats nothing, so do
the callbacks; and up to the disseminate stamp, the messages sent are the first of those
that the generator made and kept. -/
def Faithful (Q : QueueCode MarketDataMsg W) (T : Transport) (cb : Callbacks) : Prop :=
  ∀ es s, (machine Q T cb).Exec es s → Arrives Q cb es s

/-- **What the client gets is what was generated.**  With either queue class and either
transport: no callback is made for a message that was not sent, and nothing is sent that
was not generated; over a network that neither reorders nor repeats packets, though it
may lose them, the callbacks are some of the messages sent, in the order of their
generation and each at most once. -/
theorem callbacks_follow_generator (N : Capacity W) {V : Nat} (M : Capacity V) (cb : Callbacks) :
    (Faithful (SpinSpscQueue N) (.udp M) cb ∧ Faithful (SpinSpscQueue N) .zmq cb) ∧
      Faithful (WaitableSpscQueue N) (.udp M) cb ∧ Faithful (WaitableSpscQueue N) .zmq cb :=
  ⟨⟨fun _ _ h => Arrives.of_exec (spinFifo N) (.udp M) h,
      fun _ _ h => Arrives.of_exec (spinFifo N) .zmq h⟩,
    fun _ _ h => Arrives.of_exec (waitableFifo N) (.udp M) h,
    fun _ _ h => Arrives.of_exec (waitableFifo N) .zmq h⟩

/-- Where every message is that was generated and not dropped: the client has got it, it
is on the handler's socket, on the network, in the disseminator's hands, in the queue,
or in the generator's hands. -/
structure Accounted (F : Fifo N Q) {S : T.Sound} (K : Transport.InSequence S)
    (es : List (Event T)) (s : State Q T) (onSocket inFlight : List Transport.Sending) :
    Prop where
  socket : K.onSocket s.handler = onSocket.map S.packetOf
  network : s.network = (machine Q T Callbacks.both).log handed es ++ inFlight.map S.packetOf
  messages : (kept Q es).map Pipeline.unstamped =
    (((machine Q T Callbacks.both).log (delivered Callbacks.both) es).map Delivery.msg ++
      onSocket.map Prod.snd ++ inFlight.map Prod.snd ++ Pipeline.popped F s.pipeline ++
      contents N s.pipeline.queue.mem ++ Pipeline.trying F s.pipeline).map Pipeline.unstamped

/-- In every run in which the network has handed over what was sent first, and the
handler's steps are clean, every message is accounted for. -/
def Complete (F : Fifo N Q) {S : T.Sound} (K : Transport.InSequence S) : Prop :=
  ∀ es s, (machine Q T Callbacks.both).Exec es s →
    (machine Q T Callbacks.both).log handed es <+: s.network →
    T.handler.Along K.Clean (es.filterMap handlerEvent) →
    ∃ onSocket inFlight, Accounted F K es s onSocket inFlight

theorem complete_of_inSequence (F : Fifo N Q) {S : T.Sound} (K : Transport.InSequence S) :
    Complete F K := by
  intro es s h hprefix hclean
  rw [network_eq S h] at hprefix
  obtain ⟨sends, hsends, heq⟩ := List.prefix_map_iff.mp hprefix
  obtain ⟨inFlight, hsplit⟩ := hsends
  obtain ⟨done, waiting, hdone, hsocket, -, hcomplete⟩ := handles_of_exec K h heq
  refine ⟨waiting, inFlight, hsocket, ?_, ?_⟩
  · rw [network_eq S h, ← hsplit, List.map_append, heq]
  · rw [kept_eq F h, ← hsplit, hdone, hcomplete ⟨rfl, hclean⟩]
    simp

/-- **Nothing is lost on the way to the client.**  With either queue class and either
transport, both callbacks set and a network that loses nothing: where every datagram is
of a subscribed symbol (UDP), or no call of `recv` fails between two frames (ZMQ), the
messages generated are those delivered, followed by those still on their way, in the
order of their generation. -/
theorem messages_reach_client (N : Capacity W) {V : Nat} (M : Capacity V) :
    (Complete (spinFifo N) (Transport.InSequence.udp M) ∧
      Complete (spinFifo N) Transport.InSequence.zmq) ∧
    Complete (waitableFifo N) (Transport.InSequence.udp M) ∧
      Complete (waitableFifo N) Transport.InSequence.zmq :=
  ⟨⟨complete_of_inSequence _ _, complete_of_inSequence _ _⟩, complete_of_inSequence _ _,
    complete_of_inSequence _ _⟩

/-! ### Two runs -/

/-- The message is sent and received once over ZMQ. -/
def zmqRun : List (Event .zmq) :=
  sendSteps.map (fun e => .pipeline e (Bytes.zero 4) ()) ++
    (ZmqFeedHandler.Event.start :: receiveSteps 20).map Event.handler

theorem zmqRun_goes : ((machine (SpinSpscQueue slots128) .zmq Callbacks.both).run
    (machine (SpinSpscQueue slots128) .zmq Callbacks.both).init zmqRun).isSome = true := by
  decide +kernel

/-- The client subscribes to the symbol, and the loop takes the command and a datagram. -/
def udpSteps : List UdpFeedHandler.Event :=
  UdpFeedHandler.wholeCall (UdpFeedHandler.subscribe []) ++ [.start (Bytes.zero _), .loop] ++
    UdpFeedHandler.applyOne ++ UdpFeedHandler.findEmpty ++
    [.recv (.datagram (UdpFeedHandler.encoded (Bytes.zero 4) sentTrade)) 20]

def udpRun : List (Event (.udp slots128)) :=
  sendSteps.map (fun e => .pipeline e (Bytes.zero 4) (Bytes.zero _)) ++
    udpSteps.map fun e => .handler e

theorem udpRun_goes : ((machine (SpinSpscQueue slots128) (.udp slots128) Callbacks.both).run
    (machine (SpinSpscQueue slots128) (.udp slots128) Callbacks.both).init udpRun).isSome =
      true := by
  decide +kernel

theorem callbacks_follow_generator_udpRun :
    ((machine (SpinSpscQueue slots128) (.udp slots128) Callbacks.both).log
      (delivered Callbacks.both) udpRun).map Delivery.msg = [sentTrade] ∧
    (((machine (SpinSpscQueue slots128) (.udp slots128) Callbacks.both).log
      (delivered Callbacks.both) udpRun).map Delivery.msg).Sublist
        (((machine (SpinSpscQueue slots128) (.udp slots128) Callbacks.both).log sending
          udpRun).map Prod.snd) := by
  have hnetwork : (machine (SpinSpscQueue slots128) (.udp slots128) Callbacks.both).log handed
      udpRun = ((machine (SpinSpscQueue slots128) (.udp slots128) Callbacks.both).final udpRun
        udpRun_goes).network := by
    decide +kernel
  refine ⟨by decide +kernel, ?_⟩
  refine ((callbacks_follow_generator slots128 slots128 Callbacks.both).1.1 udpRun _
    (Machine.exec_final udpRun_goes)).inOrder ?_
  rw [hnetwork]

theorem messages_reach_client_runs :
    (∃ onSocket inFlight, Accounted (spinFifo slots128) (.udp slots128) udpRun
      ((machine (SpinSpscQueue slots128) (.udp slots128) Callbacks.both).final udpRun udpRun_goes)
      onSocket inFlight) ∧
    ∃ onSocket inFlight, Accounted (spinFifo slots128) .zmq zmqRun
      ((machine (SpinSpscQueue slots128) .zmq Callbacks.both).final zmqRun zmqRun_goes)
      onSocket inFlight := by
  obtain ⟨⟨hudp, hzmq⟩, -⟩ := messages_reach_client slots128 slots128
  have hheard : (UdpFeedHandler.machine slots128).Along
      (fun s e => Transport.heard s e = true) (udpRun.filterMap handlerEvent) :=
    Machine.along_of_alongFrom (by decide +kernel)
  have hwhole : ZmqFeedHandler.machine.Along
      (fun s e => Transport.uninterrupted s e = true) (zmqRun.filterMap handlerEvent) :=
    Machine.along_of_alongFrom (by decide +kernel)
  refine ⟨hudp udpRun _ (Machine.exec_final udpRun_goes) ?_ hheard,
    hzmq zmqRun _ (Machine.exec_final zmqRun_goes) ?_ hwhole⟩
  · exact ⟨[], by decide +kernel⟩
  · exact ⟨[], by decide +kernel⟩

end System

end MarketData
