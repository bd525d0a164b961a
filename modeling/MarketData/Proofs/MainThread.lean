/-
Where the main thread is, and what that says about the threads it has started.

The calls of `run_benchmark_pipeline` follow a protocol: a component is started while it
is idle, asked to stop while it runs and joined when it has been asked, and no call is
made inside another.  `protocol` is the machine that accepts exactly such calls; a state
of it is what the main thread knows (`Stage`).  `Matches` says that the system agrees:
a component has a joinable thread unless it is idle, and one that is stopping has been
asked to stop.  It holds after every run whose calls the protocol accepts, whatever the
other threads have done in between (`Matches.of_exec`).

What is asked of a feed handler is in `HandlerLaws`, for both of them.
-/
import MarketData.Benchmark
import MarketData.Proofs.DisseminatorStops
import MarketData.Proofs.EndToEnd
import MarketData.Proofs.HandlerStops

namespace MarketData

open Lib

namespace Main

/-! ### The protocol of the calls -/

/-- What the main thread has done to a component. -/
inductive Status
  | idle
  | running
  | stopping
deriving DecidableEq

structure Stage where
  rated : Bool
  generator : Status
  disseminator : Status
  handler : Status
  calling : Bool
deriving DecidableEq

/-- What a call on the feed handler does to it, and to whether the main thread is inside a
`subscribe`; without a call nothing changes. -/
inductive HandlerMove : Option MainCall → Status × Bool → Status × Bool → Prop
  | other {st : Status} {b : Bool} : HandlerMove none (st, b) (st, b)
  | start : HandlerMove (some .startHandler) (.idle, false) (.running, false)
  | subscribe {st : Status} (c : Call) : HandlerMove (some (.subscribe c)) (st, false) (st, true)
  | subscribed {st : Status} : HandlerMove (some .subscribed) (st, true) (st, false)
  | request : HandlerMove (some .requestStopHandler) (.running, false) (.stopping, false)
  | join : HandlerMove (some .joinHandler) (.stopping, false) (.idle, false)

/-- The next stage, if the call may be made. -/
def Stage.next (m : Stage) : MainCall → Option Stage
  | .setRate r => if r ≠ 0 ∧ m.calling = false then some { m with rated := true } else none
  | .startHandler =>
      if m.handler = .idle ∧ m.calling = false then some { m with handler := .running } else none
  | .subscribe _ => if m.calling = false then some { m with calling := true } else none
  | .subscribed => if m.calling = true then some { m with calling := false } else none
  | .startDisseminator =>
      if m.disseminator = .idle ∧ m.calling = false then some { m with disseminator := .running }
      else none
  | .startGenerator =>
      if m.generator = .idle ∧ m.rated = true ∧ m.calling = false then
        some { m with generator := .running }
      else none
  | .requestStopGenerator =>
      if m.generator = .running ∧ m.calling = false then some { m with generator := .stopping }
      else none
  | .joinGenerator =>
      if m.generator = .stopping ∧ m.calling = false then some { m with generator := .idle }
      else none
  | .requestStopDisseminator =>
      if m.disseminator = .running ∧ m.calling = false then
        some { m with disseminator := .stopping }
      else none
  | .joinDisseminator =>
      if m.disseminator = .stopping ∧ m.calling = false then some { m with disseminator := .idle }
      else none
  | .requestStopHandler =>
      if m.handler = .running ∧ m.calling = false then some { m with handler := .stopping }
      else none
  | .joinHandler =>
      if m.handler = .stopping ∧ m.calling = false then some { m with handler := .idle } else none

def protocol : Machine Stage MainCall where
  init := { rated := false, generator := .idle, disseminator := .idle, handler := .idle,
            calling := false }
  step := Stage.next

/-- The calls the protocol accepts. -/
inductive Allows (m : Stage) : MainCall → Stage → Prop
  | setRate {r : BitVec 32} (hr : r ≠ 0) : Allows m (.setRate r) { m with rated := true }
  | handler {c : MainCall} {st : Status} {b : Bool}
      (h : HandlerMove (some c) (m.handler, m.calling) (st, b)) :
      Allows m c { m with handler := st, calling := b }
  | startDisseminator (h : m.disseminator = .idle) :
      Allows m .startDisseminator { m with disseminator := .running }
  | requestStopDisseminator (h : m.disseminator = .running) :
      Allows m .requestStopDisseminator { m with disseminator := .stopping }
  | joinDisseminator (h : m.disseminator = .stopping) :
      Allows m .joinDisseminator { m with disseminator := .idle }
  | startGenerator (h : m.generator = .idle) (hrated : m.rated = true) :
      Allows m .startGenerator { m with generator := .running }
  | requestStopGenerator (h : m.generator = .running) :
      Allows m .requestStopGenerator { m with generator := .stopping }
  | joinGenerator (h : m.generator = .stopping) :
      Allows m .joinGenerator { m with generator := .idle }

theorem allows_of_next {m m' : Stage} {c : MainCall} (h : m.next c = some m') :
    Allows m c m' := by
  obtain ⟨rated, generator, disseminator, handler, calling⟩ := m
  cases c with
  | setRate r =>
      obtain ⟨⟨hr, -⟩, h⟩ := Option.ite_none_right_eq_some.mp h
      rw [← Option.some.inj h]
      exact .setRate hr
  | startDisseminator =>
      obtain ⟨⟨hd, -⟩, h⟩ := Option.ite_none_right_eq_some.mp h
      rw [← Option.some.inj h]
      exact .startDisseminator hd
  | requestStopDisseminator =>
      obtain ⟨⟨hd, -⟩, h⟩ := Option.ite_none_right_eq_some.mp h
      rw [← Option.some.inj h]
      exact .requestStopDisseminator hd
  | joinDisseminator =>
      obtain ⟨⟨hd, -⟩, h⟩ := Option.ite_none_right_eq_some.mp h
      rw [← Option.some.inj h]
      exact .joinDisseminator hd
  | startGenerator =>
      obtain ⟨⟨hg, hrated, -⟩, h⟩ := Option.ite_none_right_eq_some.mp h
      rw [← Option.some.inj h]
      exact .startGenerator hg hrated
  | requestStopGenerator =>
      obtain ⟨⟨hg, -⟩, h⟩ := Option.ite_none_right_eq_some.mp h
      rw [← Option.some.inj h]
      exact .requestStopGenerator hg
  | joinGenerator =>
      obtain ⟨⟨hg, -⟩, h⟩ := Option.ite_none_right_eq_some.mp h
      rw [← Option.some.inj h]
      exact .joinGenerator hg
  | startHandler =>
      obtain ⟨⟨rfl, rfl⟩, h⟩ := Option.ite_none_right_eq_some.mp h
      rw [← Option.some.inj h]
      exact .handler .start
  | subscribe c =>
      obtain ⟨rfl, h⟩ := Option.ite_none_right_eq_some.mp h
      rw [← Option.some.inj h]
      exact .handler (.subscribe c)
  | subscribed =>
      obtain ⟨rfl, h⟩ := Option.ite_none_right_eq_some.mp h
      rw [← Option.some.inj h]
      exact .handler .subscribed
  | requestStopHandler =>
      obtain ⟨⟨rfl, rfl⟩, h⟩ := Option.ite_none_right_eq_some.mp h
      rw [← Option.some.inj h]
      exact .handler .request
  | joinHandler =>
      obtain ⟨⟨rfl, rfl⟩, h⟩ := Option.ite_none_right_eq_some.mp h
      rw [← Option.some.inj h]
      exact .handler .join

/-! ### A feed handler and its calls -/

/-- The event can happen now, whatever the network does. -/
def Enabled {T : Transport} (h : T.Handler) (e : T.Event) : Prop :=
  T.arriving e = none ∧ (T.handler.step h e).isSome = true

/-- What is asked of a feed handler.  `Tracks` says that it agrees with what the main thread
has done, `left` counts the steps inside a call. -/
structure HandlerLaws {T : Transport} (X : HandlerCalls T) where
  env : T.Env
  Tracks : Status × Bool → T.Handler → Prop
  left : T.Handler → Nat
  isReceiver : T.Event → Bool
  bound : Nat
  tracks_init : Tracks (.idle, false) T.handler.init
  left_init : left T.handler.init = 0
  tracks_step : ∀ {m m' h e h'}, Tracks m h → T.handler.step h e = some h' →
    HandlerMove (X.call e) m m' → Tracks m' h'
  left_step : ∀ {h e h'}, T.handler.step h e = some h' →
    left h' + (X.inside e).toNat ≤ left h + 4 * (X.call e).toList.length
  idle : ∀ {h b}, Tracks (.idle, b) h → X.joinable h = false
  quiet : ∀ {h b}, Tracks (.idle, b) h → ∀ cb e, T.delivered cb h e = none
  handlerCall : ∀ {e c}, X.call e = some c → ∃ m m', HandlerMove (some c) m m'
  subscribe : ∀ {m : Stage} symbol, m.calling = false →
    protocol.run m (X.subscribe symbol) = some m
  canStart : ∀ {h b}, Tracks (.idle, b) h → ∃ e, X.call e = some .startHandler ∧ Enabled h e
  canSubscribe : ∀ {h st c symbol}, MainCall.subscribe c ∈ X.subscribe symbol →
    Tracks (st, false) h → ∃ e, X.call e = some (.subscribe c) ∧ Enabled h e
  canReturn : ∀ {h st}, Tracks (st, true) h →
    ∃ e, (X.call e = some .subscribed ∨ X.call e = none ∧ X.inside e = true) ∧ Enabled h e
  canRequest : ∀ {h b}, Tracks (.running, b) h →
    ∃ e, X.call e = some .requestStopHandler ∧ Enabled h e
  stops : ∀ {es h fs h'}, T.handler.Exec es h → Tracks (.stopping, false) h →
    T.handler.run h fs = some h' → (∀ e ∈ fs, X.call e = none ∧ X.inside e = false) →
    (∃ e, X.call e = some .joinHandler ∧ Enabled h' e) ∨
      (fs.countP isReceiver < bound ∧ ∃ e, isReceiver e = true ∧ Enabled h' e)

section Udp

open UdpFeedHandler (StopsWithin stopsWithin exists_queued)

variable {V : Nat} {M : Capacity V}

/-- The receiver's thread and the client's call agree with the main thread. -/
structure UdpTracks (m : Status × Bool) (s : UdpFeedHandler.State V) : Prop where
  idle : m.1 = .idle → s.receiver = none
  joinable : m.1 ≠ .idle → s.receiver ≠ none
  stopping : m.1 = .stopping → s.stopRequested = true
  calling : s.client.isSome = m.2

/-- How many steps the client's push has left. -/
def clientLeft (s : UdpFeedHandler.State V) : Nat := s.client.elim 0 PushPc.left

theorem udpTracks_step {m m' : Status × Bool} {s s' : UdpFeedHandler.State V}
    {e : UdpFeedHandler.Event} (h : UdpTracks m s) (hs : UdpFeedHandler.step M s e = some s')
    (hm : HandlerMove ((udpCalls M).call e) m m') : UdpTracks m' s' := by
  cases UdpFeedHandler.moves_of_step hs with
  | call c hidle =>
      cases hm with
      | subscribe _ => exact ⟨h.idle, h.joinable, h.stopping, rfl⟩
  | client hp hn =>
      cases hm with
      | other =>
          refine ⟨h.idle, h.joinable, h.stopping, ?_⟩
          rw [← h.calling, hp]
          rfl
  | ret hp =>
      cases hm with
      | subscribed => exact ⟨h.idle, h.joinable, h.stopping, rfl⟩
  | start buffer hr =>
      cases hm with
      | start =>
          refine ⟨fun hst => absurd hst (by simp), ?_, fun hst => absurd hst (by simp), h.calling⟩
          simp [UdpFeedHandler.State.withReceiver]
  | requestStop hr =>
      cases hm with
      | request => exact ⟨fun hst => absurd hst (by simp), by simp [hr], fun _ => rfl, h.calling⟩
  | join hr hpc =>
      cases hm with
      | join => exact ⟨fun _ => rfl, by simp, fun hst => absurd hst (by simp), h.calling⟩
  | test hr hpc | pop hr hpc hn | apply hr hpc | drainEnds hr hpc | recv res now hr hpc =>
      cases hm with
      | other =>
          refine ⟨?_, by simp [UdpFeedHandler.State.withReceiver], h.stopping, h.calling⟩
          intro hst
          rw [h.idle hst] at hr
          cases hr

theorem clientLeft_step {s s' : UdpFeedHandler.State V} {e : UdpFeedHandler.Event}
    (hs : UdpFeedHandler.step M s e = some s') :
    clientLeft s' + ((udpCalls M).inside e).toNat ≤
      clientLeft s + 4 * ((udpCalls M).call e).toList.length := by
  cases UdpFeedHandler.moves_of_step hs with
  | call c hidle => simp [clientLeft, hidle, udpCalls, PushPc.left]
  | client hp hn =>
      have hle := PushPc.left_step hn
      simpa [clientLeft, hp, udpCalls] using hle
  | _ => simp [clientLeft, udpCalls, UdpFeedHandler.State.withReceiver]

/-- Without the client's steps nothing is accepted. -/
theorem collect_accepted {fs : List UdpFeedHandler.Event}
    (hfs : ∀ e ∈ fs, (udpCalls M).inside e = false) :
    ∀ s : UdpFeedHandler.State V,
      (UdpFeedHandler.machine M).collect UdpFeedHandler.accepted s fs = [] := by
  induction fs with
  | nil => intro s; rfl
  | cons e fs ih =>
      intro s
      have hnone : UdpFeedHandler.accepted s e = none := by
        cases e with
        | client => exact absurd (hfs .client (by simp)) (by simp [udpCalls])
        | _ => rfl
      simp only [Machine.collect, hnone, Option.toList_none, List.nil_append]
      cases (UdpFeedHandler.machine M).step s e with
      | none => rfl
      | some s' => exact ih (fun e' he' => hfs e' (by simp [he'])) s'

theorem udp_stops {es fs : List UdpFeedHandler.Event} {s s' : UdpFeedHandler.State V}
    (hex : (UdpFeedHandler.machine M).Exec es s) (h : UdpTracks (.stopping, false) s)
    (hrun : (UdpFeedHandler.machine M).run s fs = some s')
    (hfs : ∀ e ∈ fs, (udpCalls M).call e = none ∧ (udpCalls M).inside e = false) :
    (UdpFeedHandler.step M s' .join).isSome = true ∨
      (fs.countP UdpFeedHandler.isReceiver < 6 * M.val + 6 ∧
        ∃ e, UdpFeedHandler.isReceiver e = true ∧ (Transport.udp M).arriving e = none ∧
          (UdpFeedHandler.step M s' e).isSome = true) := by
  obtain ⟨xs, hq, -⟩ := exists_queued hex
  have hheld : held s.commandQueue ≤ M.val := by
    rw [hq.held_eq]
    exact hq.le
  have hduring : ∀ e ∈ fs, UdpFeedHandler.duringStop e = true := by
    intro e he
    obtain ⟨hcall, -⟩ := hfs e he
    cases e with
    | start buffer => cases hcall
    | join => cases hcall
    | _ => rfl
  obtain ⟨-, hnext⟩ := stopsWithin M IFeedHandler.Callbacks.both es s hex (h.stopping rfl)
    (h.joinable (by simp)) fs s' hrun hduring
  rw [collect_accepted fun e he => (hfs e he).2] at hnext
  rcases hnext with hjoin | ⟨hlt, e, he, hsome⟩
  · exact .inl hjoin
  · have hcount : fs.countP UdpFeedHandler.isReceiver < 6 * M.val + 6 := by
      rw [List.length_nil] at hlt
      omega
    refine .inr ⟨hcount, ?_⟩
    cases e with
    | loop => exact ⟨.loop, rfl, rfl, hsome⟩
    | recv res now =>
        -- Nothing need have come.
        refine ⟨.recv .fail now, rfl, rfl, ?_⟩
        obtain ⟨t, ht⟩ := Option.isSome_iff_exists.mp hsome
        cases UdpFeedHandler.moves_of_step ht with
        | recv _ _ hr hpc => simp [UdpFeedHandler.step, hr, UdpFeedHandler.stepRecv, hpc]
    | _ => cases he

/-- The UDP feed handler is done within a drain of its whole command queue. -/
def udpLaws {V : Nat} (M : Capacity V) : HandlerLaws (udpCalls M) where
  env := Bytes.zero _
  Tracks := UdpTracks
  left := clientLeft
  isReceiver := UdpFeedHandler.isReceiver
  bound := 6 * M.val + 6
  tracks_init := ⟨fun _ => rfl, fun h => absurd rfl h, fun h => absurd h (by simp), rfl⟩
  left_init := rfl
  tracks_step h hs hm := udpTracks_step h hs hm
  left_step hs := clientLeft_step hs
  idle h := by simp [udpCalls, h.idle rfl]
  quiet := by
    intro s b h cb e
    cases e with
    | recv res now => simp [Transport.udp, UdpFeedHandler.delivered, h.idle rfl]
    | _ => rfl
  handlerCall := by
    intro e c hc
    cases e with
    | call c' =>
        rw [← Option.some.inj hc]
        exact ⟨(.idle, false), _, .subscribe c'⟩
    | ret =>
        rw [← Option.some.inj hc]
        exact ⟨(.idle, true), _, .subscribed⟩
    | start buffer =>
        rw [← Option.some.inj hc]
        exact ⟨_, _, .start⟩
    | requestStop =>
        rw [← Option.some.inj hc]
        exact ⟨_, _, .request⟩
    | join =>
        rw [← Option.some.inj hc]
        exact ⟨_, _, .join⟩
    | client | loop | recv => cases hc
  subscribe := by
    intro m symbol hm
    obtain ⟨rated, generator, disseminator, handler, calling⟩ := m
    have hm : calling = false := hm
    subst hm
    rfl
  canStart := by
    intro s b h
    refine ⟨.start (Bytes.zero _), rfl, rfl, ?_⟩
    simp [Transport.udp, UdpFeedHandler.machine, UdpFeedHandler.step, h.idle rfl]
  canSubscribe := by
    intro s st c symbol _ h
    have hidle : s.client = none := by simpa using h.calling
    refine ⟨.call c, rfl, rfl, ?_⟩
    simp [Transport.udp, UdpFeedHandler.machine, UdpFeedHandler.step, hidle]
  canReturn := by
    intro s st h
    obtain ⟨p, hp⟩ := Option.isSome_iff_exists.mp h.calling
    by_cases hleft : p.left = 0
    · refine ⟨.ret, .inl rfl, rfl, ?_⟩
      cases p with
      | done cmd ok =>
          simp [Transport.udp, UdpFeedHandler.machine, UdpFeedHandler.step, hp]
      | _ => simp [PushPc.left] at hleft
    · obtain ⟨n, hn⟩ := PushPc.enabled (N := M) hleft s.commandQueue ()
      refine ⟨.client, .inr ⟨rfl, rfl⟩, rfl, ?_⟩
      simp [Transport.udp, UdpFeedHandler.machine, UdpFeedHandler.step, hp,
        UdpFeedHandler.stepClient, hn]
  canRequest := by
    intro s b h
    obtain ⟨r, hr⟩ := Option.ne_none_iff_exists'.mp (h.joinable (by simp))
    refine ⟨.requestStop, rfl, rfl, ?_⟩
    simp [Transport.udp, UdpFeedHandler.machine, UdpFeedHandler.step, hr]
  stops := by
    intro es s fs s' hex h hrun hfs
    rcases udp_stops hex h hrun hfs with hjoin | ⟨hlt, e, he, harr, hsome⟩
    · exact .inl ⟨.join, rfl, rfl, hjoin⟩
    · exact .inr ⟨hlt, e, he, harr, hsome⟩

end Udp

section Zmq

variable {s s' : ZmqFeedHandler.State} {e : ZmqFeedHandler.Event}

structure ZmqTracks (m : Status × Bool) (s : ZmqFeedHandler.State) : Prop where
  idle : m.1 = .idle → s.thread = none
  joinable : m.1 ≠ .idle → s.thread ≠ none
  stopping : m.1 = .stopping → s.stopRequested = true
  calling : m.2 = false

/-- A step of the loop keeps its thread, and what it was asked. -/
theorem zmq_loop_frame (hs : ZmqFeedHandler.step s e = some s') (hcall : zmqCalls.call e = none) :
    (s'.thread = none ↔ s.thread = none) ∧ s'.stopRequested = s.stopRequested := by
  cases e with
  | start => cases hcall
  | requestStop => cases hcall
  | join => cases hcall
  | arrive m =>
      rw [← Option.some.inj hs]
      exact ⟨Iff.rfl, rfl⟩
  | checkStop =>
      simp only [ZmqFeedHandler.step] at hs
      split at hs
      · next hpc =>
          rw [← Option.some.inj hs, hpc]
          simp [ZmqFeedHandler.State.goto]
      · cases hs
  | rcvmore =>
      simp only [ZmqFeedHandler.step] at hs
      split at hs
      · next hpc =>
          rw [← Option.some.inj hs, hpc]
          simp [ZmqFeedHandler.State.goto]
      · cases hs
  | recv outcome now =>
      obtain ⟨hreq, hpcs⟩ := ZmqFeedHandler.recvStep_cases hs
      refine ⟨?_, hreq⟩
      rcases hpcs with ⟨hpc, topic, hpc'⟩ | ⟨hpc | ⟨topic, hpc⟩, hpc' | hpc'⟩ <;> simp [hpc, hpc']

theorem zmqTracks_step {m m' : Status × Bool} (h : ZmqTracks m s)
    (hs : ZmqFeedHandler.step s e = some s') (hm : HandlerMove (zmqCalls.call e) m m') :
    ZmqTracks m' s' := by
  cases hcall : zmqCalls.call e with
  | none =>
      rw [hcall] at hm
      obtain ⟨hthread, hreq⟩ := zmq_loop_frame hs hcall
      cases hm with
      | other =>
          refine ⟨fun hst => hthread.mpr (h.idle hst), ?_, ?_, h.calling⟩
          · intro hst hnone
            exact h.joinable hst (hthread.mp hnone)
          · intro hst
            rw [hreq]
            exact h.stopping hst
  | some c =>
      cases e with
      | start =>
          cases hm with
          | start =>
              have hs : ZmqFeedHandler.start s = s' := Option.some.inj hs
              rw [ZmqFeedHandler.start, h.idle rfl] at hs
              subst hs
              exact ⟨fun hst => absurd hst (by simp), by simp, fun hst => absurd hst (by simp), rfl⟩
      | requestStop =>
          cases hm with
          | request =>
              have hs : ZmqFeedHandler.requestStop s = s' := Option.some.inj hs
              unfold ZmqFeedHandler.requestStop at hs
              split at hs
              · next pc hpc =>
                  subst hs
                  exact ⟨fun hst => absurd hst (by simp), by simp [hpc], fun _ => rfl, rfl⟩
              · next hnone => exact absurd hnone (h.joinable (by simp))
      | join =>
          cases hm with
          | join =>
              have hs : ZmqFeedHandler.join s = some s' := hs
              unfold ZmqFeedHandler.join at hs
              split at hs
              · next hnone => exact absurd hnone (h.joinable (by simp))
              · rw [← Option.some.inj hs]
                exact ⟨fun _ => rfl, by simp, fun hst => absurd hst (by simp), rfl⟩
              · cases hs
      | arrive | checkStop | recv | rcvmore => cases hcall

theorem zmq_stops {es fs : List ZmqFeedHandler.Event} (hex : ZmqFeedHandler.machine.Exec es s)
    (h : ZmqTracks (.stopping, false) s) (hrun : ZmqFeedHandler.machine.run s fs = some s')
    (hfs : ∀ e ∈ fs, zmqCalls.call e = none ∧ zmqCalls.inside e = false) :
    (ZmqFeedHandler.step s' .join).isSome = true ∨
      (fs.countP ZmqFeedHandler.isReceiver < 4 ∧
        ∃ e, ZmqFeedHandler.isReceiver e = true ∧ Transport.zmq.arriving e = none ∧
          (ZmqFeedHandler.step s' e).isSome = true) := by
  have hduring : ∀ e ∈ fs, ZmqFeedHandler.duringStop e = true := by
    intro e he
    obtain ⟨hcall, -⟩ := hfs e he
    cases e with
    | start => cases hcall
    | join => cases hcall
    | _ => rfl
  obtain ⟨-, hnext⟩ := ZmqFeedHandler.stopsWithin IFeedHandler.Callbacks.both es s hex
    (h.stopping rfl) (h.joinable (by simp)) fs s' hrun hduring
  rcases hnext with hjoin | ⟨hlt, e, he, hsome⟩
  · exact .inl hjoin
  · refine .inr ⟨hlt, e, he, ?_, hsome⟩
    cases e with
    | arrive m => cases he
    | _ => rfl

def zmqLaws : HandlerLaws zmqCalls where
  env := ()
  Tracks := ZmqTracks
  left _ := 0
  isReceiver := ZmqFeedHandler.isReceiver
  bound := 4
  tracks_init := ⟨fun _ => rfl, fun h => absurd rfl h, fun h => absurd h (by simp), rfl⟩
  left_init := rfl
  tracks_step h hs hm := zmqTracks_step h hs hm
  left_step _ := by simp [zmqCalls]
  idle h := by simp [zmqCalls, h.idle rfl]
  quiet := by
    intro s b h cb e
    cases e with
    | recv outcome now => cases outcome <;> simp [Transport.zmq, ZmqFeedHandler.handled, h.idle rfl]
    | _ => rfl
  handlerCall := by
    intro e c hc
    cases e with
    | start =>
        rw [← Option.some.inj hc]
        exact ⟨_, _, .start⟩
    | requestStop =>
        rw [← Option.some.inj hc]
        exact ⟨_, _, .request⟩
    | join =>
        rw [← Option.some.inj hc]
        exact ⟨_, _, .join⟩
    | arrive | checkStop | recv | rcvmore => cases hc
  subscribe _ _ := rfl
  canStart _ := ⟨.start, rfl, rfl, rfl⟩
  canSubscribe hmem _ := absurd hmem (by simp [zmqCalls])
  canReturn h := absurd h.calling (by simp)
  canRequest _ := ⟨.requestStop, rfl, rfl, rfl⟩
  stops := by
    intro es s fs s' hex h hrun hfs
    rcases zmq_stops hex h hrun hfs with hjoin | ⟨hlt, e, he, harr, hsome⟩
    · exact .inl ⟨.join, rfl, rfl, hjoin⟩
    · exact .inr ⟨hlt, e, he, harr, hsome⟩

end Zmq

/-! ### The system agrees with the main thread -/

section Matching

variable {W : Nat} {Q : QueueCode MarketDataMsg W} {m m' : Stage} {p p' : Pipeline.State Q}
  {e : Pipeline.Event}

/-- The generator and the disseminator agree with what the main thread has done. -/
structure PipelineMatches (m : Stage) (p : Pipeline.State Q) : Prop where
  rated : m.rated = true → p.generator.messagesPerSec ≠ 0
  generatorIdle : m.generator = .idle → p.generator.thread = none
  generatorJoinable : m.generator ≠ .idle → p.generator.thread ≠ none
  generatorStopping : m.generator = .stopping → p.generator.stopRequested = true
  workerIdle : m.disseminator = .idle → p.worker = none
  workerJoinable : m.disseminator ≠ .idle → p.worker ≠ none
  workerRunning : m.disseminator = .running → p.queue.stopper = none
  workerStopping : m.disseminator = .stopping → p.queue.stopper ≠ none

/-- What the two loops, and the steps inside `request_stop`, leave alone. -/
structure Unaltered (p p' : Pipeline.State Q) : Prop where
  rate : p'.generator.messagesPerSec = p.generator.messagesPerSec
  thread : p'.generator.thread = none ↔ p.generator.thread = none
  stopRequested : p'.generator.stopRequested = p.generator.stopRequested
  worker : p'.worker = none ↔ p.worker = none
  stopper : p'.queue.stopper = none ↔ p.queue.stopper = none

theorem unaltered_access {qe : MarketDataQueue.Event MarketDataMsg} {q' : MarketDataQueue.State Q}
    (hq : MarketDataQueue.step p.queue qe = some q') (hne : qe ≠ .callRequestStop) :
    Unaltered p (p.withQueue q') := by
  refine ⟨rfl, Iff.rfl, rfl, Iff.rfl, ?_⟩
  cases MarketDataQueue.moves_of_step hq with
  | callRequestStop h => exact absurd rfl hne
  | requestStop q n h hn => simp [Pipeline.State.withQueue, h]
  | _ => exact Iff.rfl

theorem unaltered_of_step (hs : Pipeline.step p e = some p') (hcall : pipelineCall e = none) :
    Unaltered p p' := by
  cases Pipeline.moves_of_step hs with
  | generator hm =>
      have hthread := hm.thread_ne_none
      obtain ⟨-, -, hstopper, -⟩ := hm.frame
      refine ⟨?_, ?_, ?_, Iff.rfl, by rw [hstopper]⟩
      · cases hm <;> rfl
      · cases hm <;> simp [BaseGenerator.State.goto, hthread]
      · cases hm <;> rfl
  | @access e qe q' he hq =>
      refine unaltered_access hq ?_
      rintro rfl
      cases e <;> simp [Pipeline.inQueue, pipelineCall] at he hcall
  | disseminator hworker hm =>
      obtain ⟨-, -, hstopper, -⟩ := hm.frame
      exact ⟨rfl, Iff.rfl, rfl, by simp [hworker], by rw [hstopper]⟩
  | idle he => exact ⟨rfl, Iff.rfl, rfl, Iff.rfl, Iff.rfl⟩
  | _ => cases hcall

theorem PipelineMatches.unaltered (h : PipelineMatches m p) (hu : Unaltered p p') :
    PipelineMatches m p' where
  rated hm := by
    rw [hu.rate]
    exact h.rated hm
  generatorIdle hm := hu.thread.mpr (h.generatorIdle hm)
  generatorJoinable hm hnone := h.generatorJoinable hm (hu.thread.mp hnone)
  generatorStopping hm := by
    rw [hu.stopRequested]
    exact h.generatorStopping hm
  workerIdle hm := hu.worker.mpr (h.workerIdle hm)
  workerJoinable hm hnone := h.workerJoinable hm (hu.worker.mp hnone)
  workerRunning hm := hu.stopper.mpr (h.workerRunning hm)
  workerStopping hm hnone := h.workerStopping hm (hu.stopper.mp hnone)

/-- The calls on the generator. -/
theorem PipelineMatches.generatorCall {c : MainCall} (h : PipelineMatches m p)
    (hs : Pipeline.step p e = some p') (hcall : pipelineCall e = some c) (ha : Allows m c m')
    (he : Pipeline.onDisseminator e = false) : PipelineMatches m' p' := by
  cases Pipeline.moves_of_step hs with
  | setRate r =>
      rw [← Option.some.inj hcall] at ha
      cases ha with
      | setRate hr =>
          have hlt : ¬ r < 1 := by bv_omega
          obtain ⟨hthread, hstop⟩ := Pipeline.setRate_frame p.generator r
          refine ⟨fun _ => ?_, ?_, ?_, ?_, h.workerIdle, h.workerJoinable, h.workerRunning,
            h.workerStopping⟩
          · simp only [BaseGenerator.setRate, if_neg hlt, Pipeline.afterCall]
            exact hr
          · rw [hthread]
            exact h.generatorIdle
          · rw [hthread]
            exact h.generatorJoinable
          · rw [hstop]
            exact h.generatorStopping
      | handler hm => cases hm
  | startGenerator =>
      rw [← Option.some.inj hcall] at ha
      cases ha with
      | startGenerator hidle hrated =>
          have hrate := h.rated hrated
          have hstart : Pipeline.afterCall p.generator (BaseGenerator.start p.generator) =
              { p.generator with stopRequested := false, thread := some .begin } := by
            rw [BaseGenerator.start, if_neg hrate, h.generatorIdle hidle]
            rfl
          rw [hstart]
          exact ⟨fun _ => hrate, fun hst => absurd hst (by simp), by simp,
            fun hst => absurd hst (by simp), h.workerIdle, h.workerJoinable, h.workerRunning,
            h.workerStopping⟩
      | handler hm => cases hm
  | requestStopGenerator =>
      rw [← Option.some.inj hcall] at ha
      cases ha with
      | requestStopGenerator hrunning =>
          rcases Pipeline.requestStop_cases p.generator with ⟨hnone, -⟩ | ⟨pc, hpc, heq⟩
          · exact absurd hnone (h.generatorJoinable (by simp [hrunning]))
          · rw [heq]
            exact ⟨h.rated, fun hst => absurd hst (by simp), fun _ => by simp [hpc], fun _ => rfl,
              h.workerIdle, h.workerJoinable, h.workerRunning, h.workerStopping⟩
      | handler hm => cases hm
  | joinGenerator hg =>
      rw [← Option.some.inj hcall] at ha
      cases ha with
      | joinGenerator hstopping =>
          have hne := h.generatorJoinable (by simp [hstopping])
          unfold BaseGenerator.join at hg
          split at hg
          · next hnone => exact absurd hnone hne
          · rw [← Option.some.inj hg]
            exact ⟨h.rated, fun _ => rfl, fun hst => absurd rfl hst,
              fun hst => absurd hst (by simp), h.workerIdle, h.workerJoinable, h.workerRunning,
              h.workerStopping⟩
          · cases hg
      | handler hm => cases hm
  | generator hm => cases hcall
  | disseminator hworker hm => cases hcall
  | startDisseminator hworker => cases he
  | joinDisseminator hworker hstop => cases he
  | idle hidle => exact absurd (hidle.symm.trans he) (by simp)
  | @access e qe q' hin hq =>
      cases e with
      | callRequestStop => cases he
      | push | requestStop | pop | spurious => cases hcall
      | _ => cases hin

/-- The calls on the disseminator. -/
theorem PipelineMatches.disseminatorCall {c : MainCall} (h : PipelineMatches m p)
    (hs : Pipeline.step p e = some p') (hcall : pipelineCall e = some c) (ha : Allows m c m')
    (he : Pipeline.onDisseminator e = true) : PipelineMatches m' p' := by
  cases e with
  | startDisseminator =>
      rw [← Option.some.inj hcall] at ha
      cases ha with
      | startDisseminator hidle =>
          have hs : Pipeline.startDisseminator p = p' := Option.some.inj hs
          rw [Pipeline.startDisseminator, h.workerIdle hidle] at hs
          subst hs
          exact ⟨h.rated, h.generatorIdle, h.generatorJoinable, h.generatorStopping,
            fun hst => absurd hst (by simp), by simp, fun _ => rfl, fun hst => absurd hst (by simp)⟩
      | handler hm => cases hm
  | callRequestStop =>
      rw [← Option.some.inj hcall] at ha
      cases ha with
      | requestStopDisseminator hrunning =>
          have hs : Pipeline.callRequestStop p = some p' := hs
          unfold Pipeline.callRequestStop at hs
          split at hs
          · next hnone => exact absurd hnone (h.workerJoinable (by simp [hrunning]))
          · next pc hpc =>
              obtain ⟨q', hq, rfl⟩ := Option.map_eq_some_iff.mp hs
              have hstopper : q'.stopper ≠ none := by
                cases MarketDataQueue.moves_of_step hq with
                | callRequestStop _ => simp
              exact ⟨h.rated, h.generatorIdle, h.generatorJoinable, h.generatorStopping,
                fun hst => absurd hst (by simp),
                fun _ => by simp [Pipeline.State.withQueue, hpc],
                fun hst => absurd hst (by simp), fun _ => hstopper⟩
      | handler hm => cases hm
  | joinDisseminator =>
      rw [← Option.some.inj hcall] at ha
      cases ha with
      | joinDisseminator hstopping =>
          have hs : Pipeline.joinDisseminator p = some p' := hs
          unfold Pipeline.joinDisseminator at hs
          split at hs
          · next hnone => exact absurd hnone (h.workerJoinable (by simp [hstopping]))
          · split at hs
            · rw [← Option.some.inj hs]
              exact ⟨h.rated, h.generatorIdle, h.generatorJoinable, h.generatorStopping,
                fun _ => rfl, fun hst => absurd rfl hst, fun hst => absurd hst (by simp),
                fun hst => absurd hst (by simp)⟩
            · cases hs
          · cases hs
      | handler hm => cases hm
  | _ => cases he

/-- A call takes both to the next stage. -/
theorem PipelineMatches.call {c : MainCall} (h : PipelineMatches m p)
    (hs : Pipeline.step p e = some p') (hcall : pipelineCall e = some c) (ha : Allows m c m') :
    PipelineMatches m' p' := by
  cases he : Pipeline.onDisseminator e with
  | true => exact h.disseminatorCall hs hcall ha he
  | false => exact h.generatorCall hs hcall ha he

variable {T : Transport} {X : HandlerCalls T} {cb : IFeedHandler.Callbacks}

/-- The whole system agrees with what the main thread has done. -/
structure Matches (L : HandlerLaws X) (m : Stage) (s : System.State Q T) : Prop where
  pipeline : PipelineMatches m s.pipeline
  handler : L.Tracks (m.handler, m.calling) s.handler

theorem Matches.initial (L : HandlerLaws X) :
    Matches L protocol.init (System.machine Q T cb).init where
  pipeline := ⟨fun h => absurd h (by simp [protocol]), fun _ => rfl, fun h => absurd rfl h,
    fun h => absurd h (by simp [protocol]), fun _ => rfl, fun h => absurd rfl h,
    fun h => absurd h (by simp [protocol]), fun h => absurd h (by simp [protocol])⟩
  handler := L.tracks_init

theorem HandlerMove.not_pipelineCall {c : MainCall} {x y : Status × Bool}
    (hm : HandlerMove (some c) x y) (e : Pipeline.Event) : pipelineCall e ≠ some c := by
  intro hcall
  cases hm <;> cases e <;> cases hcall

/-- A call on the generator or the disseminator. -/
theorem Allows.pipeline {c : MainCall} (ha : Allows m c m') (hcall : pipelineCall e = some c) :
    m'.handler = m.handler ∧ m'.calling = m.calling := by
  cases ha with
  | handler hm => exact absurd hcall (hm.not_pipelineCall e)
  | _ => exact ⟨rfl, rfl⟩

/-- A call on the feed handler. -/
theorem Allows.onHandler {c : MainCall} (ha : Allows m c m')
    (hc : ∃ x y, HandlerMove (some c) x y) :
    HandlerMove (some c) (m.handler, m.calling) (m'.handler, m'.calling) ∧
      m'.rated = m.rated ∧ m'.generator = m.generator ∧ m'.disseminator = m.disseminator := by
  obtain ⟨x, y, hxy⟩ := hc
  cases ha with
  | handler hm => exact ⟨hm, rfl, rfl, rfl⟩
  | _ => cases hxy

theorem Matches.step {L : HandlerLaws X} {s s' : System.State Q T} {e : System.Event T}
    (h : Matches L m s) (hs : System.step cb s e = some s')
    (hother : mainCall X e = none → m' = m)
    (hcall : ∀ c, mainCall X e = some c → Allows m c m') : Matches L m' s' := by
  cases e with
  | pipeline e padding env =>
      obtain ⟨hp, hhandler, -⟩ := System.pipelineStep_some hs
      cases hc : pipelineCall e with
      | none =>
          rw [hother hc]
          refine ⟨h.pipeline.unaltered (unaltered_of_step hp hc), ?_⟩
          rw [hhandler]
          exact h.handler
      | some c =>
          obtain ⟨hst, hb⟩ := (hcall c hc).pipeline hc
          refine ⟨h.pipeline.call hp hc (hcall c hc), ?_⟩
          rw [hhandler, hst, hb]
          exact h.handler
  | handler e =>
      obtain ⟨-, hh, hp, -⟩ := System.handlerStep_some hs
      cases hc : X.call e with
      | none =>
          rw [hother hc]
          refine ⟨by rw [hp]; exact h.pipeline, L.tracks_step h.handler hh ?_⟩
          rw [hc]
          exact .other
      | some c =>
          obtain ⟨hm, hrated, hg, hd⟩ := (hcall c hc).onHandler (L.handlerCall hc)
          refine ⟨?_, L.tracks_step h.handler hh (by rw [hc]; exact hm)⟩
          obtain ⟨h₁, h₂, h₃, h₄, h₅, h₆, h₇, h₈⟩ := h.pipeline
          rw [hp]
          refine ⟨?_, ?_, ?_, ?_, ?_, ?_, ?_, ?_⟩ <;> first | rw [hrated] | rw [hg] | rw [hd]
          all_goals assumption

theorem callsOf_snoc (X : HandlerCalls T) (es : List (System.Event T)) (e : System.Event T) :
    callsOf X (es ++ [e]) = callsOf X es ++ (mainCall X e).toList := Machine.filterMap_snoc es e

/-- **The system keeps up with the protocol**, whatever the other threads do. -/
theorem Matches.of_exec (L : HandlerLaws X) {es : List (System.Event T)} {s : System.State Q T}
    (h : (System.machine Q T cb).Exec es s) :
    ∀ m, protocol.Exec (callsOf X es) m → Matches L m s := by
  refine Machine.Exec.induction (P := fun es s => ∀ m, protocol.Exec (callsOf X es) m →
    Matches L m s) ?_ ?_ h
  · intro m hm
    rw [← Machine.Exec.nil.unique hm]
    exact Matches.initial L
  · intro es s e s' _ ih hs m' hm'
    rw [callsOf_snoc] at hm'
    cases hc : mainCall X e with
    | none =>
        rw [hc, Option.toList_none, List.append_nil] at hm'
        exact (ih m' hm').step hs (fun _ => rfl) (fun c hc' => absurd (hc.symm.trans hc') (by simp))
    | some c =>
        rw [hc, Option.toList_some] at hm'
        obtain ⟨m, hm, hnext⟩ := Machine.run_snoc_some.mp hm'
        refine (ih m hm).step hs (fun hc' => absurd (hc.symm.trans hc') (by simp)) ?_
        intro c' hc'
        obtain rfl := Option.some.inj (hc.symm.trans hc')
        exact allows_of_next hnext

end Matching

/-! ### The calls of the benchmark -/

section Calls

variable {T : Transport} {X : HandlerCalls T}

/-- After its last call everything is idle again. -/
def Stage.last : Stage :=
  { rated := true, generator := .idle, disseminator := .idle, handler := .idle, calling := false }

theorem protocol_subscribes (L : HandlerLaws X) {m : Stage} (hm : m.calling = false)
    (symbols : List (List Byte)) : protocol.run m (symbols.flatMap X.subscribe) = some m := by
  induction symbols with
  | nil => rfl
  | cons symbol symbols ih =>
      rw [List.flatMap_cons, Machine.run_append, L.subscribe symbol hm]
      exact ih

/-- The calls of `run_benchmark_pipeline` keep to the protocol. -/
theorem protocol_accepts (L : HandlerLaws X) {messageRate : BitVec 32} (hrate : messageRate ≠ 0)
    (symbolsFile : List Byte) :
    protocol.Exec (runBenchmarkPipeline X messageRate symbolsFile) Stage.last := by
  unfold Machine.Exec runBenchmarkPipeline
  have hset : protocol.run protocol.init [.setRate messageRate, .startHandler] =
      some { protocol.init with rated := true, handler := .running } := by
    have hnext : protocol.init.next (.setRate messageRate) =
        some { protocol.init with rated := true } := if_pos ⟨hrate, rfl⟩
    exact Machine.run_cons_some.mpr ⟨_, hnext, rfl⟩
  rw [Machine.run_append, Machine.run_append, hset, Option.bind_some,
    protocol_subscribes L rfl]
  rfl

end Calls

end Main

end MarketData
