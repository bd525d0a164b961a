/-
What the UDP feed handler misses.

`run_benchmark_pipeline` subscribes to every symbol of the file before it starts the
disseminator, and counts on the feed handler having heard of the subscriptions when the
first datagram comes.  The receive loop drains the command queue before each `recvfrom`,
so a drain loop that starts after the last `subscribe` has returned leaves nothing in the
queue.  But the one before the first datagram may have ended earlier: the loop can have
been at `recvfrom` all the time.  So the first datagram can be missed, and no other one.

That is so when every command finds room in the command queue, which it does if there are
no more symbols than it has slots, and when the symbols survive the message format.
-/
import MarketData.Proofs.SymbolIdentity
import MarketData.Proofs.Throughput
import MarketData.Proofs.UdpDelivery

namespace MarketData

open Lib IFeedHandler

namespace UdpFeedHandler

variable {W : Nat} {N : Capacity W} {s : State W} {es : List Event}

/-! ### The drain loop before a `recvfrom` -/

/-- Of two events in one run, the one that comes before. -/
theorem before_or_after {pre rest pre' rest' : List Event} {e e' : Event} (hne : e ≠ e')
    (h : pre ++ e :: rest = pre' ++ e' :: rest') : pre ++ [e] <+: pre' ∨ e ∈ rest' := by
  rcases List.append_eq_append_iff.mp h with ⟨mid, hpre', hmid⟩ | ⟨mid, -, hmid⟩
  · cases mid with
    | nil => exact absurd (List.cons.inj hmid).1 hne
    | cons e'' mid =>
        obtain ⟨rfl, -⟩ := List.cons.inj hmid
        rw [hpre']
        exact .inl ⟨mid, by simp⟩
  · cases mid with
    | nil => exact absurd (List.cons.inj hmid).1.symm hne
    | cons e'' mid =>
        obtain ⟨-, hrest⟩ := List.cons.inj hmid
        rw [hrest]
        exact .inr (by simp)

/-- What had been accepted before one `recvfrom` has been drained before the next. -/
theorem drained_since_recv {pre rest : List Event} {e : Event} (he : e.isRecv = true)
    (h : (machine N).Exec (pre ++ e :: rest) s) (hover : drainOver s = true) :
    (machine N).log accepted pre <+: (machine N).log drained (pre ++ e :: rest) := by
  obtain ⟨pre', ⟨rest', t, t', r, hsplit, hnot, hpre', -, -, -⟩, hlog⟩ := exists_drainEnded h hover
  have hne : e ≠ .loop := by
    rintro rfl
    cases he
  rcases before_or_after hne hsplit with hbefore | hmem
  · obtain ⟨mid, rfl⟩ := (List.prefix_append pre [e]).trans hbefore
    obtain ⟨u, hpre, -⟩ := hpre'.split
    rw [← hlog, Machine.log_append accepted hpre]
    exact List.prefix_append _ _
  · rw [hnot e hmem] at he
    cases he

/-! ### Room for every command -/

theorem Room.of_called {e : Event} (h : (machine N).Exec es s)
    (hroom : (machine N).Along (Room N) es)
    (hcalled : ((machine N).log called es).length ≤ N.val) : Room N s e := by
  intro htest
  obtain ⟨xs, hq, haccepted⟩ := exists_queued h
  obtain ⟨-, hcalls⟩ := calls_eq h hroom
  have hincall : (inCall s).length = 1 := by
    unfold atFullTest at htest
    split at htest
    · split at htest
      · next hclient => simp [inCall, hclient, PushPc.pending]
      · cases htest
    · cases htest
  have hcount := congrArg List.length hcalls
  rw [List.length_map, List.length_append, haccepted, hincall] at hcount
  simp only [List.length_append] at hcount
  rw [hq.held_eq]
  omega

/-- With no more calls than slots the command queue is never full. -/
theorem room_of_called (h : (machine N).Exec es s) :
    ((machine N).log called es).length ≤ N.val → (machine N).Along (Room N) es := by
  refine Machine.Exec.induction (P := fun es _ => ((machine N).log called es).length ≤ N.val →
    (machine N).Along (Room N) es) ?_ ?_ h
  · intro _ fs e gs t hnil
    exact absurd hnil (by simp)
  · intro es s e s' hex ih hs hle
    rw [Machine.log_snoc called hex hs, List.length_append] at hle
    have hroom := ih (by omega)
    exact hroom.snoc hex (Room.of_called hex hroom (by omega))

end UdpFeedHandler

namespace Main

open RandomWalkGenerator
open UdpFeedHandler (accepted drained called command)

variable {W V : Nat} {Q : QueueCode MarketDataMsg W} {M : Capacity V} {cb : Callbacks}

/-! ### The calls before the disseminator starts -/

section Calls

variable {T : Transport} {X : HandlerCalls T} {es : List (System.Event T)} {s : System.State Q T}

/-- Only `start` makes a worker. -/
theorem worker_step {p p' : Pipeline.State Q} {e : Pipeline.Event}
    (hs : Pipeline.step p e = some p') (hworker : p.worker = none) :
    p'.worker = none ∨ e = .startDisseminator := by
  cases Pipeline.moves_of_step hs with
  | startDisseminator _ => exact .inr rfl
  | disseminator hsome hm => cases hworker.symm.trans hsome
  | joinDisseminator _ _ => exact .inl rfl
  | _ => exact .inl hworker

/-- Nothing is sent before the main thread has started the disseminator. -/
theorem started_of_network (h : (System.machine Q T cb).Exec es s) :
    (s.pipeline.worker ≠ none ∨ s.network ≠ []) → MainCall.startDisseminator ∈ callsOf X es := by
  refine Machine.Exec.induction (P := fun es s => (s.pipeline.worker ≠ none ∨ s.network ≠ []) →
    MainCall.startDisseminator ∈ callsOf X es) ?_ ?_ h
  · rintro (hworker | hnetwork)
    · exact absurd rfl hworker
    · exact absurd rfl hnetwork
  · intro es s e s' _ ih hs hnow
    rw [callsOf_snoc, List.mem_append]
    by_cases hbefore : s.pipeline.worker ≠ none ∨ s.network ≠ []
    · exact .inl (ih hbefore)
    · obtain ⟨hworker, hnetwork⟩ := not_or.mp hbefore
      rw [not_not] at hworker hnetwork
      right
      cases e with
      | handler e =>
          obtain ⟨-, -, hp, hn⟩ := System.handlerStep_some hs
          rw [hp, hn] at hnow
          exact absurd hnow hbefore
      | pipeline e padding env =>
          obtain ⟨hp, -, hn⟩ := System.pipelineStep_some hs
          have hpacket : System.packet s.pipeline e padding env = none := by
            unfold System.packet
            rw [hworker]
            cases e <;> rfl
          rw [hn, hpacket, Option.toList_none, List.append_nil] at hnow
          have hstarts := hnow.resolve_right (not_not.mpr hnetwork)
          obtain rfl := (worker_step hp hworker).resolve_left hstarts
          simp [mainCall, pipelineCall]

/-- What the network hands over was sent. -/
theorem sent_of_arriving (S : T.Sound) {s' : System.State Q T} {e : T.Event} {p : T.Packet}
    (h : (System.machine Q T cb).Exec es s)
    (hs : (System.machine Q T cb).step s (.handler e) = some s') (harr : T.arriving e = some p) :
    ∃ x ∈ (System.machine Q T cb).log System.sending es, p = S.packetOf x := by
  obtain ⟨hfrom, -⟩ := System.handlerStep_some hs
  unfold System.fromNetwork at hfrom
  rw [harr, Option.all_some, decide_eq_true_eq, System.network_eq S h] at hfrom
  obtain ⟨x, hx, heq⟩ := List.mem_map.mp hfrom
  exact ⟨x, hx, heq.symm⟩

/-- Where a call that comes after `first` has been made, `first` has been made. -/
theorem prefix_of_mem {calls first rest : List MainCall} {c : MainCall}
    (h : calls <+: first ++ rest) (hmem : c ∈ calls) (hnot : c ∉ first) : first <+: calls := by
  rcases List.prefix_or_prefix_of_prefix h (List.prefix_append first rest) with hle | hle
  · exact absurd (hle.subset hmem) hnot
  · exact hle

/-- Outside a `subscribe` the main thread stays outside until it calls one. -/
theorem calling_of_run {calls : List MainCall} : ∀ {m m' : Stage},
    protocol.run m calls = some m' → m.calling = false → (∀ c, MainCall.subscribe c ∉ calls) →
      m'.calling = false := by
  induction calls with
  | nil =>
      intro m m' h hcalling _
      rw [← Option.some.inj h]
      exact hcalling
  | cons c calls ih =>
      intro m m' h hcalling hnot
      obtain ⟨t, ht, hrest⟩ := Machine.run_cons_some.mp h
      refine ih hrest ?_ fun c' hc' => hnot c' (List.mem_cons_of_mem _ hc')
      cases allows_of_next ht with
      | @handler _ st b hmove =>
          generalize (m.handler, m.calling) = x at hmove
          cases hmove with
          | subscribe c' => exact absurd List.mem_cons_self (hnot c')
          | _ => rfl
      | _ => exact hcalling

/-- The stages that the main thread has come through. -/
theorem exists_stages (L : HandlerLaws X) {messageRate : BitVec 32} (hrate : messageRate ≠ 0)
    {symbolsFile : List Byte} {first rest : List MainCall}
    (hF : Follows X (runBenchmarkPipeline X messageRate symbolsFile) es)
    (hsplit : first ++ rest = callsOf X es) :
    ∃ m m', protocol.Exec (callsOf X es) m' ∧ protocol.run m rest = some m' := by
  obtain ⟨later, hlater⟩ := hF
  have hall := protocol_accepts L hrate symbolsFile
  rw [← hlater] at hall
  obtain ⟨m', hm', -⟩ := hall.split
  have hparts := hm'
  rw [← hsplit] at hparts
  obtain ⟨m, -, hrun⟩ := hparts.split
  exact ⟨m, m', hm', hrun⟩

end Calls

/-! ### The calls on a UDP feed handler -/

variable {es : List (System.Event (.udp M))} {s : System.State Q (.udp M)}

/-- What the handler does in the run. -/
def udpEvent : System.Event (.udp M) → Option UdpFeedHandler.Event
  | .pipeline _ _ _ => none
  | .handler e => some e

def onHandler (es : List (System.Event (.udp M))) : List UdpFeedHandler.Event :=
  es.filterMap udpEvent

theorem onHandler_eq (es : List (System.Event (.udp M))) :
    onHandler es = es.filterMap System.handlerEvent :=
  List.filterMap_congr fun e _ => by cases e <;> rfl

theorem onHandler_exec (h : (System.machine Q (.udp M) cb).Exec es s) :
    (UdpFeedHandler.machine M).Exec (onHandler es) s.handler := by
  rw [onHandler_eq]
  exact System.handler_projection.exec h

def subscribeCall : MainCall → Option Call
  | .subscribe c => some c
  | _ => none

/-- The calls on the handler, as its own observer sees them. -/
theorem called_eq (h : (System.machine Q (.udp M) cb).Exec es s) :
    (UdpFeedHandler.machine M).log called (onHandler es) =
      (callsOf (udpCalls M) es).filterMap subscribeCall := by
  rw [Machine.log_eq_filterMap (g := called (UdpFeedHandler.machine M).init)
    (fun _ e => by cases e <;> rfl) (onHandler_exec h)]
  rw [onHandler, callsOf, List.filterMap_filterMap, List.filterMap_filterMap]
  refine List.filterMap_congr ?_
  intro e _
  cases e with
  | pipeline e padding env => cases e <;> rfl
  | handler e => cases e <;> rfl

theorem subscribeCall_flatMap (symbols : List (List Byte)) :
    (symbols.flatMap (udpCalls M).subscribe).filterMap subscribeCall =
      symbols.map UdpFeedHandler.subscribe := by
  induction symbols with
  | nil => rfl
  | cons symbol symbols ih =>
      rw [List.flatMap_cons, List.filterMap_append, ih]
      rfl

theorem subscribeCall_runBenchmarkPipeline (messageRate : BitVec 32) (symbolsFile : List Byte) :
    (runBenchmarkPipeline (udpCalls M) messageRate symbolsFile).filterMap subscribeCall =
      (subscribedSymbols symbolsFile).map UdpFeedHandler.subscribe := by
  rw [runBenchmarkPipeline, List.filterMap_append, List.filterMap_append, subscribeCall_flatMap]
  exact List.append_nil _

/-- One session is started. -/
theorem starts_le {messageRate : BitVec 32} {symbolsFile : List Byte}
    (hF : Follows (udpCalls M) (runBenchmarkPipeline (udpCalls M) messageRate symbolsFile) es) :
    UdpFeedHandler.starts (onHandler es) ≤ 1 := by
  have hcount : UdpFeedHandler.starts (onHandler es) =
      (callsOf (udpCalls M) es).countP fun c => c = .startHandler := by
    rw [UdpFeedHandler.starts, onHandler, callsOf, List.countP_filterMap, List.countP_filterMap]
    refine List.countP_congr ?_
    intro e _
    cases e with
    | pipeline e padding env => cases e <;> rfl
    | handler e => cases e <;> rfl
  have hsubs : ((subscribedSymbols symbolsFile).flatMap (udpCalls M).subscribe).countP
      (fun c => c = .startHandler) = 0 := by
    rw [List.countP_eq_zero]
    intro c hc
    obtain ⟨symbol, -, hmem⟩ := List.mem_flatMap.mp hc
    rcases List.mem_cons.mp hmem with rfl | hmem
    · simp
    · rw [List.mem_singleton.mp hmem]
      simp
  have hall : (runBenchmarkPipeline (udpCalls M) messageRate symbolsFile).countP
      (fun c => c = .startHandler) = 1 := by
    rw [runBenchmarkPipeline, List.countP_append, List.countP_append, hsubs]
    rfl
  rw [hcount, ← hall]
  exact hF.sublist.countP_le

/-- The commands of the benchmark. -/
def commands (symbolsFile : List Byte) : List SubCommand :=
  (subscribedSymbols symbolsFile).map fun symbol => command (UdpFeedHandler.subscribe symbol)

section Accepted

variable {messageRate : BitVec 32} {symbolsFile : List Byte}
  (hF : Follows (udpCalls M) (runBenchmarkPipeline (udpCalls M) messageRate symbolsFile) es)
  (h : (System.machine Q (.udp M) cb).Exec es s)
include hF h

theorem called_first : (UdpFeedHandler.machine M).log called (onHandler es) <+:
    (subscribedSymbols symbolsFile).map UdpFeedHandler.subscribe := by
  rw [called_eq h, ← subscribeCall_runBenchmarkPipeline (M := M) messageRate]
  exact List.IsPrefix.filterMap subscribeCall hF

/-- Once the disseminator has been started every call of `subscribe` has returned. -/
theorem subscribes_returned (hrate : messageRate ≠ 0)
    (hmem : MainCall.startDisseminator ∈ callsOf (udpCalls M) es) :
    (UdpFeedHandler.machine M).log called (onHandler es) =
        (subscribedSymbols symbolsFile).map UdpFeedHandler.subscribe ∧
      s.handler.client = none := by
  have hnot : MainCall.startDisseminator ∉ [.setRate messageRate, .startHandler] ++
      (subscribedSymbols symbolsFile).flatMap (udpCalls M).subscribe := by
    simp [udpCalls]
  obtain ⟨rest, hrest⟩ := prefix_of_mem hF hmem hnot
  constructor
  · refine (called_first hF h).eq_of_length_le ?_
    rw [called_eq h, ← hrest, List.filterMap_append, List.filterMap_append,
      subscribeCall_flatMap, List.length_append, List.length_append]
    omega
  · obtain ⟨m, m', hm, hrun⟩ := exists_stages (udpLaws M) hrate hF hrest
    have hcalling : m'.calling = false := by
      rw [← hrest, List.mem_append] at hmem
      rw [Follows, ← hrest, runBenchmarkPipeline, List.prefix_append_right_inj] at hF
      cases rest with
      | nil => exact absurd (hmem.resolve_left hnot) (by simp)
      | cons c rest =>
          obtain ⟨rfl, hlast⟩ := List.cons_prefix_cons.mp hF
          obtain ⟨t, hnext, hrest⟩ := Machine.run_cons_some.mp hrun
          obtain ⟨⟨-, hcalling⟩, hnext⟩ := Option.ite_none_right_eq_some.mp hnext
          refine calling_of_run hrest (by rw [← Option.some.inj hnext]; exact hcalling) ?_
          intro c hc
          exact absurd (hlast.subset hc) (by simp)
    have htracks : UdpTracks (m'.handler, m'.calling) s.handler :=
      (Matches.of_exec (udpLaws M) h m' hm).handler
    have hclient := htracks.calling
    rw [hcalling] at hclient
    simpa using hclient

variable (hroom : (subscribedSymbols symbolsFile).length ≤ M.val)
include hroom

theorem room_of_follows :
    (UdpFeedHandler.machine M).Along (UdpFeedHandler.Room M) (onHandler es) := by
  refine UdpFeedHandler.room_of_called (onHandler_exec h) ?_
  have hle := (called_first hF h).length_le
  rw [List.length_map] at hle
  omega

/-- What has been drained are the first of the commands. -/
theorem drained_first : (UdpFeedHandler.machine M).log drained (onHandler es) <+:
    commands symbolsFile := by
  obtain ⟨xs, -, haccepted⟩ := UdpFeedHandler.exists_queued (onHandler_exec h)
  obtain ⟨-, hcalls⟩ := UdpFeedHandler.calls_eq (onHandler_exec h) (room_of_follows hF h hroom)
  have hcalled := List.IsPrefix.map command (called_first hF h)
  rw [hcalls, haccepted, List.map_map, List.append_assoc] at hcalled
  exact (List.prefix_append _ _).trans hcalled

/-- Once the disseminator has been started every command has been accepted. -/
theorem accepted_all (hrate : messageRate ≠ 0)
    (hmem : MainCall.startDisseminator ∈ callsOf (udpCalls M) es) :
    (UdpFeedHandler.machine M).log accepted (onHandler es) = commands symbolsFile := by
  obtain ⟨hcalled, hclient⟩ := subscribes_returned hF h hrate hmem
  obtain ⟨-, hcalls⟩ := UdpFeedHandler.calls_eq (onHandler_exec h) (room_of_follows hF h hroom)
  have hidle : UdpFeedHandler.inCall s.handler = [] := by
    unfold UdpFeedHandler.inCall
    rw [hclient]
  rw [hcalled, hidle, List.append_nil, List.map_map] at hcalls
  exact hcalls.symm

end Accepted

/-! ### After the first datagram -/

section After

variable {messageRate : BitVec 32} {symbolsFile : List Byte}

theorem Follows.left {T : Transport} {X : HandlerCalls T} {calls : List MainCall}
    {pre rest : List (System.Event T)} (hF : Follows X calls (pre ++ rest)) :
    Follows X calls pre := by
  rw [Follows, callsOf, List.filterMap_append] at hF
  exact (List.prefix_append _ _).trans hF

/-- When a datagram comes, the disseminator has been started. -/
theorem started_of_handed {pre rest : List (System.Event (.udp M))}
    {e : UdpFeedHandler.Event} {p : List Byte}
    (h : (System.machine Q (.udp M) cb).Exec (pre ++ .handler e :: rest) s)
    (hp : (Transport.udp M).arriving e = some p) :
    MainCall.startDisseminator ∈ callsOf (udpCalls M) pre := by
  obtain ⟨t, hpre, hrun⟩ := h.split
  obtain ⟨t', ht', -⟩ := Machine.run_cons_some.mp hrun
  obtain ⟨hfrom, -, -, -⟩ := System.handlerStep_some ht'
  refine started_of_network hpre (.inr ?_)
  intro hnil
  unfold System.fromNetwork at hfrom
  rw [hp, hnil] at hfrom
  cases hfrom

/-- The message is of a symbol of the file, as a subscription has it. -/
def FromFile (symbolsFile : List Byte) (msg : MarketDataMsg) : Prop :=
  ∃ symbol ∈ subscribedSymbols symbolsFile, msg.symbol = Bytes.ofList 8 symbol

/-- **After the first datagram every symbol is subscribed to** when the loop receives. -/
theorem heard_after_first (hrate : messageRate ≠ 0)
    (hroom : (subscribedSymbols symbolsFile).length ≤ M.val)
    {pre rest : List (System.Event (.udp M))} {e : UdpFeedHandler.Event} {p : List Byte}
    (hF : Follows (udpCalls M) (runBenchmarkPipeline (udpCalls M) messageRate symbolsFile)
      (pre ++ .handler e :: rest))
    (h : (System.machine Q (.udp M) cb).Exec (pre ++ .handler e :: rest) s)
    (hp : (Transport.udp M).arriving e = some p) {r : UdpFeedHandler.Receiver V}
    (hr : s.handler.receiver = some r) (hpc : r.pc = .receive) {x : Transport.Sending}
    (hx : FromFile symbolsFile x.2) (now : BitVec 64) :
    Transport.heard s.handler (.recv (.datagram (UdpFeedHandler.encoded x.1 x.2)) now) = true := by
  obtain ⟨t, hpre, -⟩ := h.split
  have haccepted := accepted_all hF.left hpre hroom hrate (started_of_handed h hp)
  have hsplit : onHandler (pre ++ .handler e :: rest) = onHandler pre ++ e :: onHandler rest := by
    rw [onHandler, List.filterMap_append]
    rfl
  have hrecv : e.isRecv = true := by
    cases e with
    | recv res now => rfl
    | _ => cases hp
  have hexec := onHandler_exec h
  have hdrained := drained_first hF h hroom
  have hone := starts_le hF
  rw [hsplit] at hexec hdrained hone
  have hall := UdpFeedHandler.drained_since_recv hrecv hexec
    (by simp [UdpFeedHandler.drainOver, hr, hpc])
  rw [haccepted] at hall
  obtain ⟨symbol, hsymbol, hfield⟩ := hx
  have hid : UdpFeedHandler.datagramId (UdpFeedHandler.encoded x.1 x.2) = packSymbol symbol := by
    rw [UdpFeedHandler.datagramId_encoded, hfield, packSymbol_eq]
  have hmem : packSymbol symbol ∈ r.subscriptions := by
    rw [(UdpFeedHandler.subscriptions_eq hexec hone).2 r hr, UdpFeedHandler.drainedSet,
      Update.mem_applyAll_of_inserts]
    · refine ⟨(command (UdpFeedHandler.subscribe symbol)).update, ?_, rfl⟩
      exact List.mem_map_of_mem (hall.subset (List.mem_map_of_mem hsymbol))
    · intro u hu
      obtain ⟨cmd, hcmd, rfl⟩ := List.mem_map.mp hu
      obtain ⟨symbol', -, rfl⟩ := List.mem_map.mp (hdrained.subset hcmd)
      rfl
  simp [Transport.heard, hr, hid, hmem]

/-- The callbacks for the datagrams `sends`: one for each, or for each but the first. -/
def AllButFirst (sends : List Transport.Sending) (callbacks : List MarketDataMsg) : Prop :=
  callbacks = sends.map Prod.snd ∨ callbacks = sends.tail.map Prod.snd

/-- One more datagram; only the first can be missed. -/
theorem AllButFirst.snoc {sends : List Transport.Sending} {callbacks : List MarketDataMsg}
    {x : Transport.Sending} {d : Option Delivery} (h : AllButFirst sends callbacks)
    (hd : ∀ y, d = some y → y.msg = x.2) (hsome : sends ≠ [] → d.isSome = true) :
    AllButFirst (sends ++ [x]) (callbacks ++ d.toList.map Delivery.msg) := by
  cases sends with
  | nil =>
      have hnil : callbacks = [] := by
        rcases h with h | h <;> exact h
      rw [hnil]
      cases d with
      | none => exact .inr rfl
      | some y => exact .inl (by simp [hd y rfl])
  | cons x' sends =>
      obtain ⟨y, rfl⟩ := Option.isSome_iff_exists.mp (hsome (by simp))
      rcases h with rfl | rfl
      · exact .inl (by simp [hd y rfl])
      · exact .inr (by simp [hd y rfl])

/-- A run in which a datagram has come. -/
theorem exists_handed (h : (System.machine Q (.udp M) cb).Exec es s)
    (hne : (System.machine Q (.udp M) cb).log System.handed es ≠ []) :
    ∃ pre e rest p, es = pre ++ .handler e :: rest ∧ (Transport.udp M).arriving e = some p := by
  rw [System.handed_eq h, List.filterMap_filterMap] at hne
  obtain ⟨p, hp⟩ := List.exists_mem_of_ne_nil _ hne
  obtain ⟨e, he, hp⟩ := List.mem_filterMap.mp hp
  obtain ⟨e', he', harr⟩ := Option.bind_eq_some_iff.mp hp
  obtain ⟨pre, rest, hes⟩ := List.append_of_mem he
  cases e with
  | pipeline e padding env => cases he'
  | handler e =>
      rw [← Option.some.inj he'] at harr
      exact ⟨pre, e, rest, p, hes, harr⟩

/-- A datagram that comes was sent, and the loop is at `recvfrom`. -/
theorem arriving_sent {s' : System.State Q (.udp M)} {e : UdpFeedHandler.Event} {p : List Byte}
    (h : (System.machine Q (.udp M) cb).Exec es s)
    (hs : (System.machine Q (.udp M) cb).step s (.handler e) = some s')
    (harr : (Transport.udp M).arriving e = some p) :
    ∃ x now r, x ∈ (System.machine Q (.udp M) cb).log System.sending es ∧
      p = (Transport.Sound.udp M).packetOf x ∧
      e = .recv (.datagram (UdpFeedHandler.encoded x.1 x.2)) now ∧
      s.handler.receiver = some r ∧ r.pc = .receive := by
  obtain ⟨x, hx, rfl⟩ := sent_of_arriving (.udp M) h hs harr
  obtain ⟨-, hstep, -, -⟩ := System.handlerStep_some hs
  generalize s'.handler = next at hstep
  cases UdpFeedHandler.moves_of_step hstep with
  | @recv r res now hr hpc =>
      cases res with
      | fail => cases harr
      | datagram bytes =>
          have hbytes : bytes = (Transport.Sound.udp M).packetOf x := Option.some.inj harr
          exact ⟨x, now, r, hx, rfl, by rw [hbytes]; rfl, hr, hpc⟩
  | _ => cases harr

theorem allButFirst_of_exec (hrate : messageRate ≠ 0)
    (hroom : (subscribedSymbols symbolsFile).length ≤ M.val)
    (h : (System.machine Q (.udp M) Callbacks.both).Exec es s) :
    Follows (udpCalls M) (runBenchmarkPipeline (udpCalls M) messageRate symbolsFile) es →
    (∀ x ∈ (System.machine Q (.udp M) Callbacks.both).log System.sending es,
      FromFile symbolsFile x.2) →
    ∃ sends, (System.machine Q (.udp M) Callbacks.both).log System.handed es =
        sends.map (Transport.Sound.udp M).packetOf ∧
      AllButFirst sends (((System.machine Q (.udp M) Callbacks.both).log
        (System.delivered Callbacks.both) es).map Delivery.msg) := by
  refine Machine.Exec.induction (P := fun es _ =>
    Follows (udpCalls M) (runBenchmarkPipeline (udpCalls M) messageRate symbolsFile) es →
    (∀ x ∈ (System.machine Q (.udp M) Callbacks.both).log System.sending es,
      FromFile symbolsFile x.2) →
    ∃ sends, (System.machine Q (.udp M) Callbacks.both).log System.handed es =
        sends.map (Transport.Sound.udp M).packetOf ∧
      AllButFirst sends (((System.machine Q (.udp M) Callbacks.both).log
        (System.delivered Callbacks.both) es).map Delivery.msg)) ?_ ?_ h
  · intro _ _
    exact ⟨[], rfl, .inl rfl⟩
  · intro es s e s' hex ih hs hF hfile
    rw [Machine.log_snoc System.sending hex hs] at hfile
    obtain ⟨sends, hhanded, hcallbacks⟩ :=
      ih hF.left fun x hx => hfile x (List.mem_append_left _ hx)
    rw [Machine.log_snoc System.handed hex hs, hhanded,
      Machine.log_snoc (System.delivered Callbacks.both) hex hs, List.map_append]
    cases e with
    | pipeline e padding env =>
        refine ⟨sends, List.append_nil _, ?_⟩
        rw [show System.delivered Callbacks.both s (.pipeline e padding env) = none from rfl]
        simpa using hcallbacks
    | handler e =>
        cases harr : (Transport.udp M).arriving e with
        | none =>
            have hnone : System.delivered Callbacks.both s (.handler e) = none :=
              Transport.udp_delivered_none Callbacks.both harr
            refine ⟨sends, by simp [System.handed, harr], ?_⟩
            rw [hnone]
            simpa using hcallbacks
        | some p =>
            obtain ⟨x, now, r, hx, hp, rfl, hr, hpc⟩ := arriving_sent hex hs harr
            refine ⟨sends ++ [x], by simp [System.handed, harr, hp], ?_⟩
            refine hcallbacks.snoc
              (fun y hy => Transport.udp_delivered_encoded s.handler now Callbacks.both x hy) ?_
            intro hne
            obtain ⟨pre, e', rest, p', rfl, harr'⟩ := exists_handed hex
              (by rw [hhanded]; simpa using hne)
            have hheard := heard_after_first hrate hroom hF.left hex harr' hr hpc
              (hfile x (List.mem_append_left _ hx)) now
            exact congrArg Option.isSome (Transport.udp_delivered_both hheard)

end After

/-! ### Main result -/

/-- The messages are those that `generate_msg_impl` makes with the symbols of the file. -/
def FromGenerator {T : Transport} (Q : QueueCode MarketDataMsg W) (symbolsFile : List Byte)
    (es : List (System.Event T)) : Prop :=
  ∀ msg ∈ (Pipeline.machine Q).log Pipeline.generatedMsg (es.filterMap System.pipelineEvent),
    ∃ symbol ∈ readSymbolsFile symbolsFile, GeneratedFor symbol msg

theorem symbol_unstamped (msg : MarketDataMsg) : (Pipeline.unstamped msg).symbol = msg.symbol :=
  MarketDataMsg.symbol_setDisseminateTimestamp 0 msg

/-- What is sent has the symbol it was generated for. -/
theorem fromFile_of_sending {N : Capacity W} (F : Fifo N Q) {symbolsFile : List Byte}
    (hfits : ∀ symbol ∈ readSymbolsFile symbolsFile, FitsField symbol)
    (h : (System.machine Q (.udp M) cb).Exec es s) (hgen : FromGenerator Q symbolsFile es) :
    ∀ x ∈ (System.machine Q (.udp M) cb).log System.sending es, FromFile symbolsFile x.2 := by
  intro x hx
  have hsent : Pipeline.unstamped x.2 ∈ (System.kept Q es).map Pipeline.unstamped :=
    (System.Arrives.of_exec F (.udp M) h).generated.subset
      (List.mem_map_of_mem (List.mem_map_of_mem hx))
  obtain ⟨msg, hmsg, hsame⟩ := List.mem_map.mp hsent
  have hmade := Pipeline.kept_sublist_generated (System.pipeline_projection.exec h)
  obtain ⟨symbol, hsymbol, hfor⟩ := hgen msg (hmade.subset hmsg)
  refine ⟨symbol, hsymbol, ?_⟩
  have hfield : symbolField symbol = Bytes.ofList 8 symbol :=
    (symbolField_eq_iff (length_of_mem_readSymbolsFile hsymbol)).mpr (hfits symbol hsymbol)
  rw [← symbol_unstamped x.2, ← hsame, symbol_unstamped, symbol_of_generatedFor hfor, hfield]

/-- What a benchmark over UDP has reported. -/
structure Heard (N : Capacity W) (M : Capacity V) (calls : List MainCall)
    (es : List (System.Event (.udp M))) (s : System.State Q (.udp M)) : Prop where
  callbacks : ∃ sends, (System.machine Q (.udp M) Callbacks.both).log System.handed es =
      sends.map (Transport.Sound.udp M).packetOf ∧
    AllButFirst sends (((System.machine Q (.udp M) Callbacks.both).log
      (System.delivered Callbacks.both) es).map Delivery.msg)
  reported : Returned (udpCalls M) calls es →
    (System.machine Q (.udp M) Callbacks.both).log System.handed es = s.network →
    ∀ outDir old, (System.kept Q es).length ≤
      PlotThroughput.totalReceived outDir (LatencyMonitor.saveToCsv outDir s.monitor old) +
        (contents N s.pipeline.queue.mem).length + 1

/-- Whatever the command line was and whatever is drawn: in every run of the benchmark over
UDP, whatever the network does, with no more symbols than slots in the command queue and
symbols that survive the format, there is a callback for every datagram that comes but
perhaps for the first.  When the benchmark has returned, and the network has handed
everything over once, the files lack at most that one message of those that were generated
and have left the queue.  The underlying queue is `CustomSpscQueue`; `--underlying boost` is
not modelled. -/
def HearsAllButFirst (Q : QueueCode MarketDataMsg W) (N : Capacity W) (M : Capacity V) : Prop :=
  ∀ growth files result b, main growth files result = .ok (some b) →
    (subscribedSymbols (files b.config.symbolsFile)).length ≤ M.val →
    (∀ symbol ∈ readSymbolsFile (files b.config.symbolsFile), FitsField symbol) →
    ∀ es s, (System.machine Q (.udp M) Callbacks.both).Exec es s →
      Follows (udpCalls M) (b.calls files (udpCalls M)) es →
      FromGenerator Q (files b.config.symbolsFile) es →
      Heard N M (b.calls files (udpCalls M)) es s

theorem AllButFirst.length_le {sends : List Transport.Sending} {callbacks : List MarketDataMsg}
    (h : AllButFirst sends callbacks) : sends.length ≤ callbacks.length + 1 := by
  rcases h with rfl | rfl
  · simp
  · simp only [List.length_map, List.length_tail]
    omega

theorem hearsAllButFirst {N : Capacity W} (F : Fifo N Q) : HearsAllButFirst Q N M := by
  intro growth files result b hb hroom hfits es s h hF hgen
  have hrate := rate_ne_zero hb
  obtain ⟨sends, hhanded, hcallbacks⟩ := allButFirst_of_exec hrate hroom h hF
    (fromFile_of_sending F hfits h hgen)
  refine ⟨⟨sends, hhanded, hcallbacks⟩, ?_⟩
  intro hreturned hnetwork outDir old
  have haccounted := congrArg List.length
    (Outcome.of_exec (udpLaws M) F (.udp M) hrate h hreturned).accounted
  have hsent := congrArg List.length (hnetwork.trans (System.network_eq (.udp M) h))
  have hle := hcallbacks.length_le
  rw [hhanded] at hsent
  rw [(System.Reports.of_exec outDir old h).total]
  simp only [List.length_map, List.length_append] at haccounted hsent hle
  omega

/-- **Over UDP the benchmark hears everything but perhaps the first datagram**, with either
queue class. -/
theorem benchmark_hears_all_but_first (N : Capacity W) (M : Capacity V) :
    HearsAllButFirst (SpinSpscQueue N) N M ∧ HearsAllButFirst (WaitableSpscQueue N) N M :=
  ⟨hearsAllButFirst (spinFifo N), hearsAllButFirst (waitableFifo N)⟩

/-! ### A run -/

def aapl : List Byte := "AAPL".toList.map byteOf

def aaplTrade : MarketDataMsg := .trade (generateTrade aapl 1 10 0)

/-- The trade as it is sent. -/
def aaplSent (now : BitVec 64) : MarketDataMsg :=
  (aaplTrade.setEnqueueTimestamp now).setDisseminateTimestamp 9

def overUdp (es : List Pipeline.Event) : List (System.Event (.udp slots128)) :=
  es.map fun e => .pipeline e (Bytes.zero 4) (Bytes.zero _)

def onReceiver (es : List UdpFeedHandler.Event) : List (System.Event (.udp slots128)) :=
  es.map fun e => .handler e

def generatesAapl (n now : Nat) : List Pipeline.Event :=
  List.replicate n (.generator now aaplTrade)

def receivesAapl (now : BitVec 64) : UdpFeedHandler.Event :=
  .recv (.datagram (UdpFeedHandler.encoded (Bytes.zero 4) (aaplSent now))) 20

/-- The loop has found the command queue empty and is at `recvfrom` when the main thread
subscribes, and there it stays until the first of two datagrams comes. -/
def firstMissed : List (System.Event (.udp slots128)) :=
  overUdp [.setRate 10000] ++
    onReceiver ([.start (Bytes.zero _), .loop] ++ UdpFeedHandler.findEmpty ++
      UdpFeedHandler.wholeCall (UdpFeedHandler.subscribe aapl)) ++
    overUdp ([.startDisseminator, .startGenerator] ++ generatesAapl 5 1 ++
      List.replicate 4 .push ++ generatesAapl 1 1 ++ generatesAapl 4 2000000 ++
      List.replicate 4 .push ++ generatesAapl 1 1 ++
      Pipeline.disseminatorSteps 2 ++ List.replicate 7 .pop ++ Pipeline.disseminatorSteps 4 ++
      List.replicate 7 .pop ++ Pipeline.disseminatorSteps 3) ++
    onReceiver ([receivesAapl 1, .loop] ++ UdpFeedHandler.applyOne ++ UdpFeedHandler.findEmpty ++
      [receivesAapl 2000000]) ++
    overUdp ([.requestStopGenerator] ++ generatesAapl 1 1 ++
      [.joinGenerator, .callRequestStop, .requestStop] ++ Pipeline.disseminatorSteps 1 ++ [.pop] ++
      Pipeline.disseminatorSteps 1 ++ [.joinDisseminator]) ++
    onReceiver [.requestStop, .loop, .join]

theorem firstMissed_goes : ((System.machine (SpinSpscQueue slots128) (.udp slots128)
    Callbacks.both).run (System.machine (SpinSpscQueue slots128) (.udp slots128)
      Callbacks.both).init firstMissed).isSome = true := by
  decide +kernel

theorem firstMissed_generates :
    FromGenerator (SpinSpscQueue slots128) (oneSymbol "") firstMissed := by
  have hlog : (Pipeline.machine (SpinSpscQueue slots128)).log Pipeline.generatedMsg
      (firstMissed.filterMap System.pipelineEvent) =
        [.trade (generateTrade aapl 1 10 1), .trade (generateTrade aapl 1 10 2000000)] := by
    decide +kernel
  intro msg hmsg
  rw [hlog] at hmsg
  refine ⟨aapl, by decide +kernel, ?_⟩
  rcases List.mem_cons.mp hmsg with rfl | hmsg
  · exact .trade 1 10 1
  · rw [List.mem_singleton.mp hmsg]
    exact .trade 1 10 2000000

/-- Two messages are generated and sent, and the client gets the second one. -/
theorem benchmark_hears_all_but_first_firstMissed :
    ((System.machine (SpinSpscQueue slots128) (.udp slots128) Callbacks.both).log
      (System.delivered Callbacks.both) firstMissed).map Delivery.msg = [aaplSent 2000000] ∧
    ∃ b, main .doubling oneSymbol {} = .ok (some b) ∧
      Heard slots128 slots128 (b.calls oneSymbol (udpCalls slots128)) firstMissed
        ((System.machine (SpinSpscQueue slots128) (.udp slots128) Callbacks.both).final
          firstMissed firstMissed_goes) := by
  have hcalls : callsOf (udpCalls slots128) firstMissed =
      runBenchmarkPipeline (udpCalls slots128) 10000 (oneSymbol "") := by
    decide +kernel
  have hfits : ∀ symbol ∈ readSymbolsFile (oneSymbol ""), FitsField symbol := by
    have hread : readSymbolsFile (oneSymbol "") = [aapl] := by decide +kernel
    intro symbol hsymbol
    rw [hread] at hsymbol
    rw [List.mem_singleton.mp hsymbol]
    unfold FitsField
    decide +kernel
  refine ⟨by decide +kernel, _, rfl, ?_⟩
  refine (benchmark_hears_all_but_first slots128 slots128).1 .doubling oneSymbol {} _ rfl
    (by decide +kernel) hfits firstMissed _ (Machine.exec_final firstMissed_goes) ⟨[], ?_⟩
    firstMissed_generates
  rw [List.append_nil]
  exact hcalls

end Main

end MarketData
