/-
No latency sample wraps.

A message gets its enqueue stamp before it is pushed, its disseminate stamp after it was
popped, and the third reading is taken when it is delivered.  Three threads do that, and
between any two of them the message travels: through the queue, through the network and
through the socket's buffer.  What is shown is that at every moment no stamp anywhere is
later than the latest reading of the clock: of the messages on their way to the
disseminator (`Stamped`, over `step_flow` of the conservation proof), of everything on
the network, and of what a feed handler holds.

The feed handlers come in by `Sound`: whatever is true of all messages that were sent is
true of the message a handler delivers, since decoding gives back what was encoded.
-/
import MarketData.Proofs.Conservation
import MarketData.Proofs.FrameBoundaries
import MarketData.Proofs.RoundTrip
import MarketData.System

namespace MarketData

open Lib IDisseminator IFeedHandler

/-- Both stamps are set, in order, by the time `t`. -/
def MarketDataMsg.OrderedBy (t : Nat) (msg : MarketDataMsg) : Prop :=
  msg.enqueueTimestamp.toNat ≤ msg.disseminateTimestamp.toNat ∧
    msg.disseminateTimestamp.toNat ≤ t

theorem MarketDataMsg.OrderedBy.mono {t t' : Nat} {msg : MarketDataMsg} (h : msg.OrderedBy t)
    (ht : t ≤ t') : msg.OrderedBy t' := ⟨h.1, Nat.le_trans h.2 ht⟩

/-! ### What a feed handler delivers -/

namespace Transport

/-- The packet is that of a message with the property `P`. -/
def Carries {T : Transport} (packet : Bytes 4 → MarketDataMsg → T.Packet)
    (P : MarketDataMsg → Prop) (p : T.Packet) : Prop :=
  ∃ padding msg, P msg ∧ p = packet padding msg

/-- What the feed handler holds, and what it delivers, comes from packets it was given.
`packet` is what `send_impl` makes of a message; `Holds P` says that everything in the
handler comes from messages with the property `P`. -/
structure Sound (T : Transport) where
  packet : Bytes 4 → MarketDataMsg → T.Packet
  sendImpl_eq : ∀ env old msg padding, HasColon old →
    T.sendImpl env (writeTopic old msg) msg (payload padding msg) = packet padding msg
  Holds : (MarketDataMsg → Prop) → T.Handler → Prop
  init : ∀ P, Holds P T.handler.init
  mono : ∀ {P P' : MarketDataMsg → Prop} {h}, (∀ msg, P msg → P' msg) → Holds P h → Holds P' h
  step : ∀ {P h e h'}, Holds P h → (∀ p, T.arriving e = some p → Carries packet P p) →
    T.handler.step h e = some h' → Holds P h'
  delivered : ∀ {P h e h' cb d}, Holds P h →
    (∀ p, T.arriving e = some p → Carries packet P p) → T.handler.step h e = some h' →
    T.delivered cb h e = some d → P d.msg

theorem msg_of_deliverToClient {cb : Callbacks} {now : BitVec 64} {msg : MarketDataMsg}
    {d : Delivery} (h : deliverToClient cb now msg = some d) : d.msg = msg := by
  cases msg with
  | quote q =>
      obtain ⟨-, h⟩ := Option.ite_none_right_eq_some.mp h
      rw [← Option.some.inj h]
  | trade t =>
      obtain ⟨-, h⟩ := Option.ite_none_right_eq_some.mp h
      rw [← Option.some.inj h]

theorem udp_sendImpl_eq (env : Bytes UdpDisseminator.bufferSize) {old : Bytes topicHeaderSize}
    (msg : MarketDataMsg) (padding : Bytes 4) (h : HasColon old) :
    UdpDisseminator.sendImpl env (writeTopic old msg) msg (payload padding msg) =
      UdpFeedHandler.encoded padding msg := by
  rw [UdpDisseminator.sendImpl_eq, writeTopic_eq h]
  rfl

/-- A datagram of the disseminator is delivered as the message it was made from. -/
theorem udp_delivered {V : Nat} {s : UdpFeedHandler.State V} {e : UdpFeedHandler.Event}
    {cb : Callbacks} {P : MarketDataMsg → Prop} {d : Delivery}
    (harr : ∀ bytes now, e = .recv (.datagram bytes) now →
      ∃ padding msg, P msg ∧ bytes = UdpFeedHandler.encoded padding msg)
    (hd : UdpFeedHandler.delivered cb s e = some d) : P d.msg := by
  cases e with
  | recv res now =>
      obtain ⟨r, -, hd⟩ := Option.bind_eq_some_iff.mp hd
      cases res with
      | fail => simp [UdpFeedHandler.recvfrom, UdpFeedHandler.handle] at hd
      | datagram bytes =>
          obtain ⟨padding, msg, hP, rfl⟩ := harr bytes now rfl
          rw [UdpFeedHandler.handle_datagram] at hd
          obtain ⟨-, hd⟩ := Option.ite_none_right_eq_some.mp hd
          rw [UdpFeedHandler.received_encoded, UdpFeedHandler.meaning_encoded,
            Option.bind_some] at hd
          rw [msg_of_deliverToClient hd]
          exact hP
  | _ => cases hd

/-- The UDP feed handler keeps nothing that it could deliver later. -/
def Sound.udp {V : Nat} (M : Capacity V) : Sound (Transport.udp M) where
  packet := UdpFeedHandler.encoded
  sendImpl_eq := fun env _ msg padding h => udp_sendImpl_eq env msg padding h
  Holds _ _ := True
  init _ := trivial
  mono _ _ := trivial
  step _ _ _ := trivial
  delivered := fun _ harr _ hd => udp_delivered (fun bytes _ he => harr bytes (by rw [he]; rfl)) hd

/-- What `send_impl` makes of a message. -/
def multipart (padding : Bytes 4) (msg : MarketDataMsg) : ZmqFeedHandler.Multipart :=
  { first := header msg, rest := [(payload padding msg).toList] }

/-- The frames of a message of the disseminator are delivered as that message. -/
theorem zmq_deliver {stream : List ZmqFeedHandler.Multipart} {x : ZmqFeedHandler.Handled}
    {cb : Callbacks} {P : MarketDataMsg → Prop} {d : Delivery}
    (hstream : ∀ m ∈ stream, ∃ padding msg, P msg ∧ m = multipart padding msg)
    (hx : x.Together stream) (hd : x.deliver cb = some d) : P d.msg := by
  obtain ⟨m, hm, htopic⟩ := hx.topic
  obtain ⟨m', hm', hpayload⟩ := hx.payload
  rw [hx.message, hm, Option.some.injEq] at hm'
  subst hm'
  rw [hx.index] at hpayload
  obtain ⟨padding, msg, hP, rfl⟩ := hstream m (List.mem_of_getElem? hm)
  -- The message has two frames, so a topic with a frame after it is its first.
  obtain ⟨hlt, -⟩ := List.getElem?_eq_some_iff.mp hpayload
  have hzero : x.topic.index = 0 := by
    have hlen : (multipart padding msg).frames.length = 2 := rfl
    omega
  rw [hzero] at htopic hpayload
  have hfirst : x.topic.bytes = header msg := (Option.some.inj htopic).symm
  have hsecond : x.payload.bytes = (payload padding msg).toList := (Option.some.inj hpayload).symm
  unfold ZmqFeedHandler.Handled.deliver at hd
  rw [hfirst, hsecond, ZmqFeedHandler.handle_frames] at hd
  rw [msg_of_deliverToClient hd]
  exact hP

/-- What is on the socket came from the disseminator. -/
structure OnSocket (P : MarketDataMsg → Prop) (s : ZmqFeedHandler.State) : Prop where
  inStep : ZmqFeedHandler.InStep s
  stream : ∀ m ∈ s.stream, ∃ padding msg, P msg ∧ m = multipart padding msg

theorem OnSocket.step {P : MarketDataMsg → Prop} {s s' : ZmqFeedHandler.State}
    {e : ZmqFeedHandler.Event} (h : OnSocket P s)
    (harr : ∀ m, e = .arrive m → ∃ padding msg, P msg ∧ m = multipart padding msg)
    (hs : ZmqFeedHandler.step s e = some s') : OnSocket P s' := by
  have hm := ZmqFeedHandler.moves_of_step hs
  refine ⟨h.inStep.step hm, ?_⟩
  rcases hm.stream_eq with heq | ⟨m, he, heq⟩
  · rw [heq]
    exact h.stream
  · rw [heq, List.forall_mem_append, List.forall_mem_singleton]
    exact ⟨h.stream, harr m he⟩

theorem OnSocket.delivered {P : MarketDataMsg → Prop} {s s' : ZmqFeedHandler.State}
    {e : ZmqFeedHandler.Event} {cb : Callbacks} {d : Delivery} (h : OnSocket P s)
    (hs : ZmqFeedHandler.step s e = some s')
    (hd : (ZmqFeedHandler.handled s e).bind (ZmqFeedHandler.Handled.deliver cb) = some d) :
    P d.msg := by
  obtain ⟨x, hx, hd⟩ := Option.bind_eq_some_iff.mp hd
  have hm := ZmqFeedHandler.moves_of_step hs
  rw [hx] at hm
  generalize ZmqFeedHandler.interrupted s e = i at hm
  cases hm with
  | payload hpc hr => exact zmq_deliver h.stream (h.inStep.together hpc hr _) hd

/-- The ZMQ feed handler holds what is on its socket. -/
def Sound.zmq : Sound Transport.zmq where
  packet := multipart
  sendImpl_eq := by
    intro env old msg padding h
    show ZmqFeedHandler.Multipart.mk (writeTopic old msg).toList [(payload padding msg).toList] = _
    rw [writeTopic_eq h]
    rfl
  Holds := OnSocket
  init _ := ⟨ZmqFeedHandler.inStep_initial, by intro m hm; cases hm⟩
  mono := by
    intro P P' h hP hh
    refine ⟨hh.inStep, fun m hm => ?_⟩
    obtain ⟨padding, msg, hmsg, heq⟩ := hh.stream m hm
    exact ⟨padding, msg, hP msg hmsg, heq⟩
  step hh harr hs := hh.step (fun m he => harr m (by rw [he]; rfl)) hs
  delivered hh _ hs hd := hh.delivered hs hd

end Transport

namespace System

variable {W : Nat} {N : Capacity W} {Q : QueueCode MarketDataMsg W} {F : Fifo N Q}

/-! ### On the way to the disseminator -/

/-- `topic_buf`, once it has its colon. -/
def topicOf : Option Pc → Option (Bytes topicHeaderSize)
  | some (.callPop topic) => some topic
  | some (.popping topic) => some topic
  | some (.stamp topic _) => some topic
  | some (.send topic _) => some topic
  | _ => none

/-- What the worker is about to send: a message with both stamps, and its header. -/
structure Sending (t : Nat) (topic : Bytes topicHeaderSize) (msg : MarketDataMsg) : Prop where
  ordered : msg.OrderedBy t
  header : ∃ old, HasColon old ∧ topic = writeTopic old msg

/-- No stamp of a message on its way is later than `t`. -/
structure Stamped (F : Fifo N Q) (t : Nat) (s : Pipeline.State Q) : Prop where
  coupled : Pipeline.Coupled F s
  enqueued : ∀ msg ∈ Pipeline.pipeline F s, msg.enqueueTimestamp.toNat ≤ t
  sending : ∀ topic msg, s.worker = some (.send topic msg) → Sending t topic msg
  colon : ∀ topic, topicOf s.worker = some topic → HasColon topic

theorem Stamped.initial : Stamped F 0 (Pipeline.machine Q).init where
  coupled := Pipeline.Coupled.initial F
  enqueued := by
    rw [Pipeline.pipeline_initial]
    intro msg hmsg
    cases hmsg
  sending := by intro topic msg h; cases h
  colon := by intro topic h; cases h

theorem Stamped.mono {s : Pipeline.State Q} {t t' : Nat} (h : Stamped F t s) (ht : t ≤ t') :
    Stamped F t' s := by
  refine ⟨h.coupled, ?_, ?_, h.colon⟩
  · intro msg hmsg
    exact Nat.le_trans (h.enqueued msg hmsg) ht
  · intro topic msg hpc
    obtain ⟨hordered, hheader⟩ := h.sending topic msg hpc
    exact ⟨hordered.mono ht, hheader⟩

/-- The disseminate stamp does not touch the other one. -/
theorem enqueueTimestamp_of_unstamped {msg msg' : MarketDataMsg}
    (h : Pipeline.unstamped msg = Pipeline.unstamped msg') :
    msg.enqueueTimestamp = msg'.enqueueTimestamp := by
  have heq := congrArg MarketDataMsg.enqueueTimestamp h
  unfold Pipeline.unstamped at heq
  rw [MarketDataMsg.enqueueTimestamp_setDisseminateTimestamp,
    MarketDataMsg.enqueueTimestamp_setDisseminateTimestamp] at heq
  exact heq

/-- A message that is generated has been stamped with the reading of the step. -/
theorem made_stamped {s : Pipeline.State Q} {e : Pipeline.Event} {msg : MarketDataMsg}
    (h : msg ∈ Pipeline.madeBy (Pipeline.mark s e)) :
    ∃ now, pipelineReading s e = some now ∧
      msg.enqueueTimestamp = BitVec.ofNat 64 now := by
  cases e with
  | generator now m =>
      cases hth : s.generator.thread with
      | none => simp [Pipeline.mark, Pipeline.loopMark, hth, Pipeline.madeBy] at h
      | some pc =>
          cases pc with
          | generate nextTime =>
              simp only [Pipeline.mark, Pipeline.loopMark, hth, Pipeline.madeBy,
                List.mem_singleton] at h
              refine ⟨now, by simp only [pipelineReading, hth], ?_⟩
              rw [h]
              exact MarketDataMsg.enqueueTimestamp_setEnqueueTimestamp _ m
          | retry nextTime m' =>
              simp only [Pipeline.mark, Pipeline.loopMark, hth] at h
              by_cases hstop : s.generator.stopRequested = true
              · rw [if_pos hstop] at h
                cases h
              · rw [if_neg hstop] at h
                cases h
          | begin | checkStop | readClock | pushing | finished =>
              simp [Pipeline.mark, Pipeline.loopMark, hth, Pipeline.madeBy] at h
  | startGenerator =>
      simp only [Pipeline.mark, Pipeline.startMark] at h
      split at h
      · cases h
      · split at h <;> cases h
  | requestStopGenerator =>
      simp only [Pipeline.mark] at h
      cases hth : s.generator.thread <;> rw [hth] at h <;> cases h
  | _ => cases h

theorem le_getD {t : Nat} {r : Option Nat} (h : ∀ now, r = some now → t ≤ now) :
    t ≤ r.getD t := by
  cases r with
  | none => exact Nat.le_refl t
  | some now => exact h now rfl

theorem Stamped.enqueued_step {s s' : Pipeline.State Q} {e : Pipeline.Event} {t : Nat}
    (h : Stamped F t s) (hs : Pipeline.step s e = some s')
    (hnow : ∀ now, pipelineReading s e = some now → t ≤ now) :
    ∀ msg ∈ Pipeline.pipeline F s',
      msg.enqueueTimestamp.toNat ≤ (pipelineReading s e).getD t := by
  intro msg hmsg
  -- By `step_flow` the message was on its way before the step, or has just been generated.
  obtain ⟨-, hflow⟩ := Pipeline.step_flow h.coupled hs
  have hmem : Pipeline.unstamped msg ∈
      (Pipeline.pipeline F s ++ Pipeline.madeBy (Pipeline.mark s e)).map Pipeline.unstamped := by
    rw [hflow]
    refine List.mem_map_of_mem ?_
    simp [hmsg]
  obtain ⟨old, hold, heq⟩ := List.mem_map.mp hmem
  rw [← enqueueTimestamp_of_unstamped heq]
  rcases List.mem_append.mp hold with hold | hmade
  · exact Nat.le_trans (h.enqueued old hold) (le_getD hnow)
  · obtain ⟨now, hr, hstamp⟩ := made_stamped hmade
    rw [hr, hstamp, BitVec.toNat_ofNat]
    exact Nat.mod_le _ _

/-- What the worker holds when it has popped or stamped a message. -/
theorem Stamped.worker_step {q' : MarketDataQueue.State Q} {s : Pipeline.State Q} {t now : Nat}
    {u : Bytes topicHeaderSize} {pc pc' : Pc} (h : Stamped F t s) (hworker : s.worker = some pc)
    (hm : IDisseminator.Moves s.queue u now pc pc' q') (hfits : now < 2 ^ 64)
    (hnow : ∀ r, pipelineReading s (.disseminator u now) = some r → t ≤ r) :
    (∀ topic msg, pc' = .send topic msg →
      Sending ((pipelineReading s (.disseminator u now)).getD t) topic msg) ∧
    ∀ topic, topicOf (some pc') = some topic → HasColon topic := by
  have hcolon := h.colon
  rw [hworker] at hcolon
  cases hm with
  | begin =>
      refine ⟨nofun, ?_⟩
      intro topic htopic
      rw [← Option.some.inj htopic]
      exact hasColon_startTopic u
  | callPop hq => exact ⟨nofun, hcolon⟩
  | popped hret hq => exact ⟨nofun, hcolon⟩
  | stopped hret hq => exact ⟨nofun, nofun⟩
  | send => exact ⟨nofun, hcolon⟩
  | @stamp topic msg =>
      have hread : pipelineReading s (.disseminator u now) = some now := by
        simp only [pipelineReading, hworker]
      have hold : msg ∈ Pipeline.pipeline F s := by
        unfold Pipeline.pipeline
        rw [hworker]
        exact List.mem_append_left _ (List.mem_append_left _ (List.mem_singleton.mpr rfl))
      have htopic : HasColon topic := hcolon topic rfl
      refine ⟨?_, ?_⟩
      · rintro _ _ ⟨rfl, rfl⟩
        refine ⟨⟨?_, ?_⟩, topic, htopic, rfl⟩
        · rw [MarketDataMsg.enqueueTimestamp_setDisseminateTimestamp,
            MarketDataMsg.disseminateTimestamp_setDisseminateTimestamp, BitVec.toNat_ofNat,
            Nat.mod_eq_of_lt hfits]
          exact Nat.le_trans (h.enqueued msg hold) (hnow now hread)
        · rw [MarketDataMsg.disseminateTimestamp_setDisseminateTimestamp, BitVec.toNat_ofNat,
            hread]
          exact Nat.mod_le _ _
      · intro topic' htopic'
        rw [← Option.some.inj htopic']
        exact hasColon_writeTopic htopic _

theorem Stamped.step {s s' : Pipeline.State Q} {e : Pipeline.Event} {t : Nat}
    (h : Stamped F t s) (hs : Pipeline.step s e = some s') (hfits : fits e = true)
    (hnow : ∀ now, pipelineReading s e = some now → t ≤ now) :
    Stamped F ((pipelineReading s e).getD t) s' := by
  have henq := h.enqueued_step hs hnow
  obtain ⟨hcoupled, -⟩ := Pipeline.step_flow h.coupled hs
  have hkeep : s'.worker = s.worker ∨ topicOf s'.worker = none →
      Stamped F ((pipelineReading s e).getD t) s' := by
    rintro (hw | hw)
    · refine ⟨hcoupled, henq, ?_, ?_⟩
      · rw [hw]
        intro topic msg hpc
        obtain ⟨hordered, hheader⟩ := h.sending topic msg hpc
        exact ⟨hordered.mono (le_getD hnow), hheader⟩
      · rw [hw]
        exact h.colon
    · refine ⟨hcoupled, henq, ?_, ?_⟩
      · intro topic msg hpc
        rw [hpc] at hw
        cases hw
      · intro topic htopic
        rw [hw] at htopic
        cases htopic
  cases Pipeline.moves_of_step hs with
  | disseminator hworker hm =>
      obtain ⟨hsending, hcolon⟩ := h.worker_step hworker hm (by simpa [fits] using hfits) hnow
      refine ⟨hcoupled, henq, ?_, hcolon⟩
      intro topic msg hpc
      exact hsending topic msg (Option.some.inj hpc)
  | startDisseminator _ => exact hkeep (.inr rfl)
  | joinDisseminator _ _ => exact hkeep (.inr rfl)
  | setRate | startGenerator | requestStopGenerator | joinGenerator | generator | access | idle =>
      exact hkeep (.inl rfl)

/-! ### The whole system -/

variable {T : Transport} {cb : Callbacks}

/-- No stamp anywhere is later than `t`. -/
structure Timely (F : Fifo N Q) (S : T.Sound) (t : Nat) (s : State Q T) : Prop where
  pipeline : Stamped F t s.pipeline
  network : ∀ p ∈ s.network, Transport.Carries S.packet (MarketDataMsg.OrderedBy t) p
  handler : S.Holds (MarketDataMsg.OrderedBy t) s.handler

theorem Timely.initial (S : T.Sound) : Timely F S 0 (machine Q T cb).init where
  pipeline := Stamped.initial
  network := by intro p hp; cases hp
  handler := S.init _

theorem carries_mono {packet : Bytes 4 → MarketDataMsg → T.Packet} {t t' : Nat} {p : T.Packet}
    (h : Transport.Carries packet (MarketDataMsg.OrderedBy t) p) (ht : t ≤ t') :
    Transport.Carries packet (MarketDataMsg.OrderedBy t') p := by
  obtain ⟨padding, msg, hmsg, heq⟩ := h
  exact ⟨padding, msg, hmsg.mono ht, heq⟩

/-- A packet is sent with both stamps. -/
theorem Stamped.packet {S : T.Sound} {s : Pipeline.State Q} {e : Pipeline.Event} {t : Nat}
    {padding : Bytes 4} {env : T.Env} {p : T.Packet} (h : Stamped F t s)
    (hp : System.packet s e padding env = some p) :
    Transport.Carries S.packet (MarketDataMsg.OrderedBy t) p := by
  unfold System.packet at hp
  split at hp
  · split at hp
    · next topic msg hworker =>
        obtain ⟨hordered, old, hold, rfl⟩ := h.sending topic msg hworker
        refine ⟨padding, msg, hordered, ?_⟩
        rw [← Option.some.inj hp]
        exact S.sendImpl_eq env old msg padding hold
    · cases hp
  · cases hp

theorem Timely.pipeline_step {S : T.Sound} {s s' : State Q T} {e : Pipeline.Event} {t : Nat}
    {padding : Bytes 4} {env : T.Env} (h : Timely F S t s)
    (hs : pipelineStep s e padding env = some s')
    (hnow : ∀ now, pipelineReading s.pipeline e = some now → t ≤ now) :
    Timely F S ((pipelineReading s.pipeline e).getD t) s' ∧ s'.monitor = s.monitor := by
  obtain ⟨hfits, hs⟩ := Option.ite_none_right_eq_some.mp hs
  obtain ⟨p, hp, rfl⟩ := Option.map_eq_some_iff.mp hs
  have hle : t ≤ (pipelineReading s.pipeline e).getD t := le_getD hnow
  refine ⟨⟨h.pipeline.step hp hfits hnow, ?_, ?_⟩, rfl⟩
  · intro q hq
    rcases List.mem_append.mp hq with hq | hq
    · exact carries_mono (h.network q hq) hle
    · exact carries_mono (h.pipeline.packet (Option.mem_toList.mp hq)) hle
  · exact S.mono (fun _ hmsg => hmsg.mono hle) h.handler

/-- The stamps of a delivery and the reading at its receipt are in order. -/
def InOrder (d : Delivery) : Prop :=
  d.msg.enqueueTimestamp ≤ d.msg.disseminateTimestamp ∧
    d.msg.disseminateTimestamp ≤ d.receiveTimestamp

theorem Timely.handler_step {S : T.Sound} {s s' : State Q T} {e : T.Event} {t : Nat}
    (h : Timely F S t s) (hs : handlerStep cb s e = some s')
    (hnow : ∀ now, reading cb s (.handler e) = some now → t ≤ now) :
    Timely F S ((reading cb s (.handler e)).getD t) s' ∧
      (∀ d, T.delivered cb s.handler e = some d → InOrder d) ∧
      s'.monitor = (T.delivered cb s.handler e).elim s.monitor
        (LatencyMonitor.callback s.monitor) := by
  obtain ⟨hfrom, hs⟩ := Option.ite_none_right_eq_some.mp hs
  obtain ⟨h', hh', rfl⟩ := Option.map_eq_some_iff.mp hs
  have hle : t ≤ (reading cb s (.handler e)).getD t := le_getD hnow
  have harr : ∀ p, T.arriving e = some p →
      Transport.Carries S.packet (MarketDataMsg.OrderedBy t) p := by
    intro p hp
    unfold fromNetwork at hfrom
    rw [hp, Option.all_some, decide_eq_true_eq] at hfrom
    exact h.network p hfrom
  refine ⟨⟨h.pipeline.mono hle, ?_, ?_⟩, ?_, rfl⟩
  · intro p hp
    exact carries_mono (h.network p hp) hle
  · exact S.mono (fun _ hmsg => hmsg.mono hle) (S.step h.handler harr hh')
  · intro d hd
    obtain ⟨hfirst, hsecond⟩ := S.delivered h.handler harr hh' hd
    refine ⟨hfirst, ?_⟩
    have hreading : t ≤ d.receiveTimestamp.toNat := hnow _ (by simp [reading, hd])
    exact Nat.le_trans hsecond hreading

theorem Timely.step {S : T.Sound} {s s' : State Q T} {e : Event T} {t : Nat}
    (h : Timely F S t s) (hs : System.step cb s e = some s')
    (hnow : ∀ now, reading cb s e = some now → t ≤ now) :
    Timely F S ((reading cb s e).getD t) s' ∧ (∀ d, delivered cb s e = some d → InOrder d) ∧
      s'.monitor = (delivered cb s e).elim s.monitor (LatencyMonitor.callback s.monitor) := by
  cases e with
  | pipeline e padding env =>
      obtain ⟨ht, hmonitor⟩ := h.pipeline_step hs hnow
      exact ⟨ht, nofun, hmonitor⟩
  | handler e => exact h.handler_step hs hnow

/-! ### Records -/

/-- The record of a delivery. -/
def recordOf (d : Delivery) : LatencyRecord where
  queueNs := d.msg.disseminateTimestamp - d.msg.enqueueTimestamp
  networkNs := d.receiveTimestamp - d.msg.disseminateTimestamp
  totalNs := d.receiveTimestamp - d.msg.enqueueTimestamp

/-- All records of the monitor. -/
def records (m : LatencyMonitor.State) : List LatencyRecord := m.quoteLatencies ++ m.tradeLatencies

theorem mem_records_callback {m : LatencyMonitor.State} {d : Delivery} {r : LatencyRecord}
    (h : r ∈ records (LatencyMonitor.callback m d)) : r ∈ records m ∨ r = recordOf d := by
  obtain ⟨msg, receiveTimestamp⟩ := d
  cases msg with
  | quote q =>
      have hmem : r ∈ (m.quoteLatencies ++ [recordOf ⟨.quote q, receiveTimestamp⟩]) ++
        m.tradeLatencies := h
      simp only [List.mem_append, List.mem_singleton] at hmem
      unfold records
      rw [List.mem_append]
      tauto
  | trade t =>
      have hmem : r ∈ m.quoteLatencies ++
        (m.tradeLatencies ++ [recordOf ⟨.trade t, receiveTimestamp⟩]) := h
      simp only [List.mem_append, List.mem_singleton] at hmem
      unfold records
      rw [List.mem_append]
      tauto

/-- The differences in the record are those of the time stamps as natural numbers. -/
structure Exact (r : LatencyRecord) (d : Delivery) : Prop where
  queue : d.msg.enqueueTimestamp.toNat + r.queueNs.toNat = d.msg.disseminateTimestamp.toNat
  network : d.msg.disseminateTimestamp.toNat + r.networkNs.toNat = d.receiveTimestamp.toNat
  total : d.msg.enqueueTimestamp.toNat + r.totalNs.toNat = d.receiveTimestamp.toNat
  sum : r.queueNs.toNat + r.networkNs.toNat = r.totalNs.toNat

theorem add_toNat_sub {x y : BitVec 64} (h : x ≤ y) : x.toNat + (y - x).toNat = y.toNat := by
  rw [BitVec.toNat_sub_of_le h]
  exact Nat.add_sub_of_le h

theorem InOrder.exact {d : Delivery} (h : InOrder d) : Exact (recordOf d) d := by
  have hqueue := add_toNat_sub h.1
  have hnetwork := add_toNat_sub h.2
  have htotal := add_toNat_sub (Nat.le_trans h.1 h.2 :
    d.msg.enqueueTimestamp ≤ d.receiveTimestamp)
  refine ⟨hqueue, hnetwork, htotal, ?_⟩
  show (d.msg.disseminateTimestamp - d.msg.enqueueTimestamp).toNat +
    (d.receiveTimestamp - d.msg.disseminateTimestamp).toNat =
      (d.receiveTimestamp - d.msg.enqueueTimestamp).toNat
  omega

/-! ### Every run -/

/-- What holds after a run: the stamps are no later than some reading `t` of the clock, and
the records come from deliveries in order. -/
structure RunInv (F : Fifo N Q) (S : T.Sound) (cb : Callbacks) (es : List (Event T))
    (s : State Q T) : Prop where
  timely : ∃ t, (t = 0 ∨ t ∈ (machine Q T cb).log (reading cb) es) ∧ Timely F S t s
  inOrder : ∀ d ∈ (machine Q T cb).log (delivered cb) es, InOrder d
  recorded : ∀ r ∈ records s.monitor,
    ∃ d ∈ (machine Q T cb).log (delivered cb) es, r = recordOf d

theorem RunInv.step {S : T.Sound} {es : List (Event T)} {s s' : State Q T} {e : Event T}
    (hex : (machine Q T cb).Exec es s) (h : RunInv F S cb es s)
    (hs : (machine Q T cb).step s e = some s')
    (hclock : ((machine Q T cb).log (reading cb) (es ++ [e])).Pairwise (· ≤ ·)) :
    RunInv F S cb (es ++ [e]) s' := by
  obtain ⟨t, hmem, ht⟩ := h.timely
  rw [Machine.log_snoc _ hex hs, List.pairwise_append] at hclock
  have hnow : ∀ now, reading cb s e = some now → t ≤ now := by
    intro now hr
    rcases hmem with rfl | hmem
    · exact Nat.zero_le now
    · exact hclock.2.2 t hmem now (Option.mem_toList.mpr hr)
  obtain ⟨ht', horder, hmonitor⟩ := ht.step hs hnow
  refine ⟨⟨_, ?_, ht'⟩, ?_, ?_⟩
  · rw [Machine.log_snoc _ hex hs]
    cases hr : reading cb s e with
    | none => exact hmem.imp_right fun hm => List.mem_append_left _ hm
    | some now => exact .inr (List.mem_append_right _ (List.mem_singleton.mpr rfl))
  · rw [Machine.log_snoc _ hex hs, List.forall_mem_append]
    exact ⟨h.inOrder, fun d hd => horder d (Option.mem_toList.mp hd)⟩
  · rw [Machine.log_snoc _ hex hs, hmonitor]
    intro r hr
    cases hd : delivered cb s e with
    | none =>
        rw [hd] at hr
        obtain ⟨d, hmem, heq⟩ := h.recorded r hr
        exact ⟨d, List.mem_append_left _ hmem, heq⟩
    | some d =>
        rw [hd] at hr
        rcases mem_records_callback hr with hr | rfl
        · obtain ⟨d', hmem, heq⟩ := h.recorded r hr
          exact ⟨d', List.mem_append_left _ hmem, heq⟩
        · exact ⟨d, List.mem_append_right _ (List.mem_singleton.mpr rfl), rfl⟩

theorem RunInv.of_exec (F : Fifo N Q) (S : T.Sound) {es : List (Event T)} {s : State Q T}
    (h : (machine Q T cb).Exec es s)
    (hclock : ((machine Q T cb).log (reading cb) es).Pairwise (· ≤ ·)) :
    RunInv F S cb es s := by
  have key : ((machine Q T cb).log (reading cb) es).Pairwise (· ≤ ·) → RunInv F S cb es s := by
    refine Machine.Exec.induction (M := machine Q T cb) (P := fun es s =>
      ((machine Q T cb).log (reading cb) es).Pairwise (· ≤ ·) → RunInv F S cb es s) ?_ ?_ h
    · intro _
      refine ⟨⟨0, .inl rfl, Timely.initial S⟩, ?_, ?_⟩
      · intro d hd
        cases hd
      · intro r hr
        cases hr
    · intro es s e s' hex ih hs hclock
      refine RunInv.step hex (ih ?_) hs hclock
      rw [Machine.log_snoc _ hex hs] at hclock
      exact (List.pairwise_append.mp hclock).1
  exact key hclock

/-- In every run in which the readings of the clock do not decrease, every record comes
from a delivery whose stamps are in order, and its three differences are exact. -/
def NoWrap (Q : QueueCode MarketDataMsg W) (T : Transport) (cb : Callbacks) : Prop :=
  ∀ es s, (machine Q T cb).Exec es s →
    ((machine Q T cb).log (reading cb) es).Pairwise (· ≤ ·) →
    ∀ r ∈ s.monitor.quoteLatencies ++ s.monitor.tradeLatencies,
      ∃ d ∈ (machine Q T cb).log (delivered cb) es, r = recordOf d ∧ InOrder d ∧ Exact r d

theorem noWrap_of_sound (F : Fifo N Q) (S : T.Sound) : NoWrap Q T cb := by
  intro es s h hclock r hr
  have hinv : RunInv F S cb es s := RunInv.of_exec F S h hclock
  obtain ⟨d, hd, rfl⟩ := hinv.recorded r hr
  exact ⟨d, hd, rfl, hinv.inOrder d hd, (hinv.inOrder d hd).exact⟩

/-- **No latency sample wraps**, with either queue class and either transport. -/
theorem no_latency_wraps (N : Capacity W) {V : Nat} (M : Capacity V) (cb : Callbacks) :
    (NoWrap (SpinSpscQueue N) (.udp M) cb ∧ NoWrap (SpinSpscQueue N) .zmq cb) ∧
      NoWrap (WaitableSpscQueue N) (.udp M) cb ∧ NoWrap (WaitableSpscQueue N) .zmq cb :=
  ⟨⟨noWrap_of_sound (spinFifo N) (.udp M), noWrap_of_sound (spinFifo N) .zmq⟩,
    noWrap_of_sound (waitableFifo N) (.udp M), noWrap_of_sound (waitableFifo N) .zmq⟩

/-! ### A run -/

/-- The sample message with both stamps. -/
def sentTrade : MarketDataMsg :=
  (Pipeline.sampleTrade.setEnqueueTimestamp 1).setDisseminateTimestamp 9

/-- The pipeline sends one message, with readings 1 and 9 of the clock. -/
def sendSteps : List Pipeline.Event :=
  [.setRate 1000, .startGenerator] ++ Pipeline.generatorSteps 5 ++ List.replicate 4 .push ++
    Pipeline.generatorSteps 1 ++ [.startDisseminator] ++ Pipeline.disseminatorSteps 2 ++
    List.replicate 7 .pop ++ Pipeline.disseminatorSteps 3

/-- The message arrives at the socket and is received. -/
def receiveSteps (now : BitVec 64) : List ZmqFeedHandler.Event :=
  [.arrive (Transport.multipart (Bytes.zero 4) sentTrade), .checkStop, .recv .frame now, .rcvmore,
    .recv .frame now]

/-- A message is sent once and delivered twice. -/
def deliveryRun : List (Event .zmq) :=
  sendSteps.map (fun e => .pipeline e (Bytes.zero 4) ()) ++
    (ZmqFeedHandler.Event.start :: receiveSteps 20 ++ receiveSteps 50).map Event.handler

theorem deliveryRun_goes : ((machine (SpinSpscQueue slots128) .zmq Callbacks.both).run
    (machine (SpinSpscQueue slots128) .zmq Callbacks.both).init deliveryRun).isSome = true := by
  decide +kernel

theorem no_latency_wraps_deliveryRun :
    ((machine (SpinSpscQueue slots128) .zmq Callbacks.both).final deliveryRun
        deliveryRun_goes).monitor =
      { quoteLatencies := [], tradeLatencies := [⟨8, 11, 19⟩, ⟨8, 41, 49⟩] } ∧
    ∀ r ∈ ((machine (SpinSpscQueue slots128) .zmq Callbacks.both).final deliveryRun
        deliveryRun_goes).monitor.tradeLatencies,
      ∃ d ∈ (machine (SpinSpscQueue slots128) .zmq Callbacks.both).log
        (delivered Callbacks.both) deliveryRun, r = recordOf d ∧ InOrder d ∧ Exact r d :=
  ⟨by decide +kernel, fun r hr =>
    (no_latency_wraps slots128 slots128 Callbacks.both).1.2 deliveryRun _
      (Machine.exec_final deliveryRun_goes) (by decide +kernel) r
      (List.mem_append_right _ hr)⟩

end System

end MarketData
