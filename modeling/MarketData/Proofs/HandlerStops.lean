/-
`stop()` on a feed handler returns.

Both receive loops test the stop token once in an iteration and wait for nothing but the
socket, whose calls return: the UDP socket does not block, and the ZMQ socket has a
timeout.  So what is left after the stop request is the rest of one iteration.

For ZMQ that is four steps.  The UDP loop first drains its command queue, and the loop
that drains it does not look at the token.  A command costs six steps, so what is left
depends on how many commands are queued when the stop is requested and on how many the
client adds while the drain is going on.  The measure is `Receiver.left`; the client's
store of `write_` is the only step that raises it.

Of the iteration that is left, at most one message is delivered.
-/
import MarketData.Proofs.FrameBoundaries
import MarketData.Proofs.StopReturns
import MarketData.Proofs.Subscriptions

namespace MarketData

open Lib IFeedHandler

namespace UdpFeedHandler

variable {W : Nat} {N : Capacity W} {s s' : State W} {e : Event}

/-! ### UDP -/

/-- The steps of the receive loop. -/
def isReceiver : Event → Bool
  | .loop => true
  | .recv _ _ => true
  | _ => false

/-- Everything but the calls that make a new thread or take the old one away. -/
def duringStop : Event → Bool
  | .start _ => false
  | .join => false
  | _ => true

/-- What is left of the loop that drains the queue, with `n` commands in it. -/
def drainLeft (n : Nat) : PopPc SubCommand W → Nat
  | .done none => 3
  | .done (some _) => 6 * n + 6
  | p => 6 * n + p.left

/-- How many steps the thread has left once the stop is requested. -/
def LoopPc.left (n : Nat) : LoopPc W → Nat
  | .finished => 0
  | .checkStop => 1
  | .receive => 2
  | .drain p => drainLeft n p

def loopLeft (s : State W) : Nat :=
  s.receiver.elim 0 fun r => r.pc.left (held s.commandQueue)

theorem drainLeft_add (n k : Nat) (p : PopPc SubCommand W) :
    drainLeft (n + k) p ≤ drainLeft n p + 6 * k := by
  cases p with
  | done res => cases res <;> simp only [drainLeft] <;> omega
  | _ =>
      simp only [drainLeft]
      omega

theorem left_add (n k : Nat) (pc : LoopPc W) : pc.left (n + k) ≤ pc.left n + 6 * k := by
  cases pc with
  | drain p => exact drainLeft_add n k p
  | _ =>
      simp only [LoopPc.left]
      omega

theorem left_le (n : Nat) (pc : LoopPc W) : pc.left n ≤ 6 * n + 6 := by
  cases pc with
  | drain p =>
      cases p with
      | done res => cases res <;> simp only [LoopPc.left, drainLeft] <;> omega
      | _ =>
          simp only [LoopPc.left, drainLeft, PopPc.left]
          omega
  | _ =>
      simp only [LoopPc.left]
      omega

/-- An access of the pop: it lowers the measure, and the one that takes a command out of
the queue lowers it as well. -/
theorem drainLeft_access {m : Mem SubCommand W} {p : PopPc SubCommand W}
    {n : Instr.Next Loc (Cell SubCommand W) Unit _} {q : Option (PushPc SubCommand W)}
    {xs : List SubCommand} (hq : QueueInv N m q (some p) xs)
    (hn : (p.code N).sc m () = some n) :
    drainLeft (held n.mem) n.pc + 1 ≤ drainLeft (held m) p := by
  obtain ⟨xs', hxs, hq'⟩ := hq.pop_step hn
  rw [hq.held_eq, hq'.held_eq, hxs]
  cases p with
  | loadWrite r =>
      simp only [PopPc.code, Instr.sc_load, Option.some.injEq] at hn
      subst hn
      by_cases hempty : r = m .write_
      · simp only [hempty, if_true, drainLeft, PopPc.left, PopPc.retires, List.nil_append]
        omega
      · simp only [hempty, if_false, drainLeft, PopPc.left, PopPc.retires, List.nil_append]
        omega
  | move r =>
      simp only [PopPc.code, Instr.sc_load, Option.some.injEq] at hn
      subst hn
      cases m (.data_ (r.toNat % N.val)) <;>
        simp only [drainLeft, PopPc.left, PopPc.retires, List.nil_append] <;> omega
  | publish r item =>
      simp only [PopPc.code, Instr.sc_store, Option.some.injEq] at hn
      subst hn
      simp only [drainLeft, PopPc.left, PopPc.retires, List.cons_append, List.nil_append,
        List.length_cons]
      omega
  | done res => simp [PopPc.code] at hn
  | fault => simp [PopPc.code] at hn
  | loadRead =>
      simp only [PopPc.code, Instr.sc_load, Option.some.injEq] at hn
      subst hn
      simp only [drainLeft, PopPc.left, PopPc.retires, List.nil_append]
      omega
  | destroy r item =>
      simp only [PopPc.code, Instr.sc_store, Option.some.injEq] at hn
      subst hn
      simp only [drainLeft, PopPc.left, PopPc.retires, List.nil_append]
      omega

/-- The session has been asked to stop. -/
structure Stopping (N : Capacity W) (s : State W) : Prop where
  requested : s.stopRequested = true
  running : s.receiver ≠ none
  queue : ∃ xs, QueueInv N s.commandQueue s.client (inPop s) xs

theorem Stopping.step (h : Stopping N s) (he : duringStop e = true) (hs : step N s e = some s') :
    Stopping N s' ∧
      loopLeft s' + (isReceiver e).toNat ≤ loopLeft s + 6 * (accepted s e).toList.length := by
  have hm := moves_of_step hs
  obtain ⟨xs, hq⟩ := h.queue
  obtain ⟨xs', hq', -⟩ := hm.flow hq
  have hqueue : ∃ xs, QueueInv N s'.commandQueue s'.client (inPop s') xs := ⟨xs', hq'⟩
  cases hm with
  | call c hidle => exact ⟨⟨h.requested, h.running, hqueue⟩, Nat.le_refl _⟩
  | @client p n hp hn =>
      rw [hp] at hq
      have hheld : held n.mem = held s.commandQueue + p.accepts.length := by
        rw [(hq.push_step hn).held_eq, hq.held_eq, List.length_append]
      refine ⟨⟨h.requested, h.running, hqueue⟩, ?_⟩
      rw [accepted_client hp]
      unfold loopLeft
      cases s.receiver with
      | none => exact Nat.zero_le _
      | some r =>
          show r.pc.left (held n.mem) + 0 ≤ r.pc.left (held s.commandQueue) + _
          rw [hheld]
          exact left_add _ _ _
  | ret hp => exact ⟨⟨h.requested, h.running, hqueue⟩, Nat.le_refl _⟩
  | start buffer hr => cases he
  | requestStop hr => exact ⟨⟨rfl, h.running, hqueue⟩, Nat.le_refl _⟩
  | join hr hpc => cases he
  | test hr hpc =>
      refine ⟨⟨h.requested, by simp [State.withReceiver], hqueue⟩, ?_⟩
      simp [loopLeft, State.withReceiver, hr, hpc, h.requested, LoopPc.left, isReceiver]
  | @pop r p n hr hpc hn =>
      rw [inPop_of_drain hr hpc] at hq
      have hle := drainLeft_access hq hn
      refine ⟨⟨h.requested, by simp [State.withReceiver], hqueue⟩, ?_⟩
      simp only [loopLeft, State.withReceiver, hr, hpc, Option.elim_some, LoopPc.left, isReceiver,
        Bool.toNat_true]
      omega
  | apply hr hpc =>
      refine ⟨⟨h.requested, by simp [State.withReceiver], hqueue⟩, ?_⟩
      simp only [loopLeft, State.withReceiver, hr, hpc, Option.elim_some, LoopPc.left, isReceiver,
        Bool.toNat_true, drainLeft, PopPc.left]
      omega
  | drainEnds hr hpc =>
      refine ⟨⟨h.requested, by simp [State.withReceiver], hqueue⟩, ?_⟩
      simp only [loopLeft, State.withReceiver, hr, hpc, Option.elim_some, LoopPc.left, isReceiver,
        Bool.toNat_true, drainLeft]
      omega
  | recv res now hr hpc =>
      refine ⟨⟨h.requested, by simp [State.withReceiver], hqueue⟩, ?_⟩
      simp only [loopLeft, State.withReceiver, hr, hpc, Option.elim_some, LoopPc.left, isReceiver,
        Bool.toNat_true]
      omega

/-- Until it has finished the thread can take a step. -/
theorem Stopping.enabled (h : Stopping N s) :
    (UdpFeedHandler.step N s .join).isSome = true ∨
      (0 < loopLeft s ∧ ∃ e, isReceiver e = true ∧ (UdpFeedHandler.step N s e).isSome = true) := by
  obtain ⟨xs, hq⟩ := h.queue
  obtain ⟨r, hr⟩ := Option.ne_none_iff_exists'.mp h.running
  cases hpc : r.pc with
  | finished => exact .inl (by simp [UdpFeedHandler.step, hr, hpc])
  | checkStop =>
      refine .inr ⟨by simp [loopLeft, hr, hpc, LoopPc.left], .loop, rfl, ?_⟩
      simp [UdpFeedHandler.step, hr, stepLoop, hpc]
  | receive =>
      refine .inr ⟨by simp [loopLeft, hr, hpc, LoopPc.left], .recv .fail 0, rfl, ?_⟩
      simp [UdpFeedHandler.step, hr, stepRecv, hpc]
  | drain p =>
      rw [inPop_of_drain hr hpc] at hq
      have hok := hq.cons
      refine .inr ⟨?_, .loop, rfl, ?_⟩
      · simp only [loopLeft, hr, Option.elim_some, hpc, LoopPc.left]
        cases p with
        | done res => cases res <;> simp [drainLeft]
        | fault => exact absurd hok id
        | _ => simp [drainLeft, PopPc.left]
      · cases p with
        | done res => cases res <;> simp [UdpFeedHandler.step, hr, stepLoop, hpc]
        | fault => exact absurd hok id
        | _ => simp [UdpFeedHandler.step, hr, stepLoop, hpc, PopPc.code]

/-- Whether the iteration in progress may still deliver a message. -/
def mayDeliver (s : State W) : Nat :=
  match s.receiver.map Receiver.pc with
  | some (.drain _) => 1
  | some .receive => 1
  | _ => 0

theorem mayDeliver_le (s : State W) : mayDeliver s ≤ 1 := by
  unfold mayDeliver
  split <;> simp

theorem Stopping.mayDeliver_step {cb : Callbacks} (h : Stopping N s) (he : duringStop e = true)
    (hs : UdpFeedHandler.step N s e = some s') :
    (delivered cb s e).toList.length + mayDeliver s' ≤ mayDeliver s := by
  cases moves_of_step hs with
  | start buffer hr => cases he
  | join hr hpc => cases he
  | test hr hpc => simp [delivered, mayDeliver, State.withReceiver, hr, hpc, h.requested]
  | pop hr hpc hn => simp [delivered, mayDeliver, State.withReceiver, hr, hpc]
  | apply hr hpc => simp [delivered, mayDeliver, State.withReceiver, hr, hpc]
  | drainEnds hr hpc => simp [delivered, mayDeliver, State.withReceiver, hr, hpc]
  | recv res now hr hpc =>
      have hone : ∀ o : Option Delivery, o.toList.length ≤ 1 := by
        intro o
        cases o <;> simp
      simp only [mayDeliver, State.withReceiver, hr, hpc, Option.map_some, Nat.add_zero]
      exact hone _
  | call | client | ret | requestStop => simp [delivered, mayDeliver]

/-- `stop()` returns, and what is delivered until then.  From every state reached with the
stop requested and not yet joined, however the client and the loop go on from there:
`join` returns now, or the thread has taken at most so many steps and can take another. -/
def StopsWithin (N : Capacity W) (cb : Callbacks) : Prop :=
  ∀ es s, (machine N).Exec es s → s.stopRequested = true → s.receiver ≠ none →
    ∀ fs s', (machine N).run s fs = some s' → (∀ e ∈ fs, duringStop e = true) →
      ((machine N).collect (delivered cb) s fs).length ≤ 1 ∧
      ((step N s' .join).isSome = true ∨
        fs.countP isReceiver <
            6 * (held s.commandQueue + ((machine N).collect accepted s fs).length) + 6 ∧
          ∃ e, isReceiver e = true ∧ (step N s' e).isSome = true)

theorem stopsWithin (N : Capacity W) (cb : Callbacks) : StopsWithin N cb := by
  intro es s hex hreq hrunning fs s' hrun hall
  obtain ⟨xs, hq, -⟩ := exists_queued hex
  have hstop : Stopping N s := ⟨hreq, hrunning, xs, hq⟩
  constructor
  · have hstep : ∀ {s s' : State W} {e : Event}, Stopping N s → duringStop e = true →
        (machine N).step s e = some s' →
        Stopping N s' ∧ (delivered cb s e).toList.length + mayDeliver s' ≤ mayDeliver s :=
      fun h he hs => ⟨(h.step he hs).1, h.mayDeliver_step he hs⟩
    exact Nat.le_trans (Machine.collect_length_le hstep hstop hall hrun) (mayDeliver_le s)
  · have hstep : ∀ {s s' : State W} {e : Event}, Stopping N s → duringStop e = true →
        (machine N).step s e = some s' → Stopping N s' ∧
          loopLeft s' + (isReceiver e).toNat ≤ loopLeft s + 6 * (accepted s e).toList.length :=
      fun h he hs => h.step he hs
    obtain ⟨hstop', hle⟩ := Machine.budget_run hstep hstop hall hrun
    have hbound : loopLeft s ≤ 6 * held s.commandQueue + 6 := by
      unfold loopLeft
      cases s.receiver with
      | none => exact Nat.zero_le _
      | some r => exact left_le _ _
    rcases hstop'.enabled with hjoin | ⟨hpos, hnext⟩
    · exact .inl hjoin
    · exact .inr ⟨by omega, hnext⟩

end UdpFeedHandler

namespace ZmqFeedHandler

variable {s s' : State} {e : Event}

/-! ### ZMQ -/

/-- The steps of the receive loop. -/
def isReceiver : Event → Bool
  | .checkStop => true
  | .recv _ _ => true
  | .rcvmore => true
  | _ => false

def duringStop : Event → Bool
  | .start => false
  | .join => false
  | _ => true

/-- How many steps the thread has left once the stop is requested. -/
def Pc.left : Pc → Nat
  | .checkStop => 1
  | .recvTopic => 4
  | .getRcvmore _ => 3
  | .recvPayload _ => 2
  | .finished => 0

def loopLeft (s : State) : Nat := s.thread.elim 0 Pc.left

/-- Whether the iteration in progress may still deliver a message. -/
def mayDeliver (s : State) : Nat :=
  match s.thread with
  | some .recvTopic => 1
  | some (.getRcvmore _) => 1
  | some (.recvPayload _) => 1
  | _ => 0

/-- The session has been asked to stop. -/
def Stopping (s : State) : Prop := s.stopRequested = true ∧ s.thread ≠ none

/-- Where a call of `recv` leaves the loop. -/
theorem recvStep_cases {outcome : Outcome} (hs : recvStep s outcome = some s') :
    s'.stopRequested = s.stopRequested ∧
      ((s.thread = some .recvTopic ∧ ∃ topic, s'.thread = some (.getRcvmore topic)) ∨
        ((s.thread = some .recvTopic ∨ ∃ topic, s.thread = some (.recvPayload topic)) ∧
          (s'.thread = some .checkStop ∨ s'.thread = some .finished))) := by
  have hfail : (s.goto (afterFailure outcome)).thread = some .checkStop ∨
      (s.goto (afterFailure outcome)).thread = some .finished := by
    cases outcome <;> simp [State.goto, afterFailure]
  unfold recvStep at hs
  split at hs
  · next hpc =>
      by_cases hout : outcome = .frame
      · rw [if_pos hout] at hs
        obtain ⟨⟨f, t⟩, hrecv, rfl⟩ := Option.map_eq_some_iff.mp hs
        refine ⟨?_, .inl ⟨hpc, f, rfl⟩⟩
        cases receives_of_recv hrecv <;> rfl
      · rw [if_neg hout] at hs
        rw [← Option.some.inj hs]
        exact ⟨rfl, .inr ⟨.inl hpc, hfail⟩⟩
  · next topic hpc =>
      by_cases hout : outcome = .frame
      · rw [if_pos hout] at hs
        obtain ⟨⟨f, t⟩, hrecv, rfl⟩ := Option.map_eq_some_iff.mp hs
        refine ⟨?_, .inr ⟨.inr ⟨topic, hpc⟩, .inl rfl⟩⟩
        cases receives_of_recv hrecv <;> rfl
      · rw [if_neg hout] at hs
        rw [← Option.some.inj hs]
        exact ⟨rfl, .inr ⟨.inr ⟨topic, hpc⟩, hfail⟩⟩
  · cases hs

/-- Only a call of `recv` that has a topic in hand delivers something. -/
theorem delivered_le (cb : Callbacks) (s : State) (e : Event) :
    (delivered cb s e).toList.length ≤ 1 ∧
      (s.thread = some .recvTopic → delivered cb s e = none) := by
  constructor
  · cases delivered cb s e <;> simp
  · intro hpc
    cases e with
    | recv outcome now => cases outcome <;> simp [delivered, handled, hpc]
    | _ => rfl

theorem Stopping.step (cb : Callbacks) (h : Stopping s) (he : duringStop e = true)
    (hs : step s e = some s') :
    Stopping s' ∧ loopLeft s' + (isReceiver e).toNat ≤ loopLeft s ∧
      (delivered cb s e).toList.length + mayDeliver s' ≤ mayDeliver s := by
  cases e with
  | start => cases he
  | join => cases he
  | requestStop =>
      have hs : requestStop s = s' := Option.some.inj hs
      unfold requestStop at hs
      split at hs
      · subst hs
        exact ⟨⟨rfl, h.2⟩, Nat.le_refl _, by simp [delivered, handled, mayDeliver]⟩
      · next hnone => exact absurd hnone h.2
  | arrive m =>
      rw [← Option.some.inj hs]
      exact ⟨h, Nat.le_refl _, by simp [delivered, handled, mayDeliver]⟩
  | checkStop =>
      simp only [ZmqFeedHandler.step] at hs
      split at hs
      · next hpc =>
          rw [← Option.some.inj hs, h.1]
          simp [Stopping, State.goto, loopLeft, hpc, Pc.left, mayDeliver, delivered, handled,
            isReceiver, h.1]
      · cases hs
  | rcvmore =>
      simp only [ZmqFeedHandler.step] at hs
      split at hs
      · next topic hpc =>
          rw [← Option.some.inj hs]
          cases s.rcvmore <;>
            simp [Stopping, State.goto, loopLeft, hpc, Pc.left, mayDeliver, delivered, handled,
              isReceiver, h.1]
      · cases hs
  | recv outcome now =>
      obtain ⟨hreq, hpcs⟩ := recvStep_cases hs
      obtain ⟨hone, hnone⟩ := delivered_le cb s (.recv outcome now)
      rcases hpcs with ⟨hpc, topic, hpc'⟩ | ⟨hpc | ⟨topic, hpc⟩, hpc' | hpc'⟩
      · rw [hnone hpc]
        simp [Stopping, hreq, h.1, loopLeft, hpc, hpc', Pc.left, mayDeliver, isReceiver]
      · simp [Stopping, hreq, h.1, loopLeft, hpc, hpc', Pc.left, mayDeliver, isReceiver, hone]
      · simp [Stopping, hreq, h.1, loopLeft, hpc, hpc', Pc.left, mayDeliver, isReceiver, hone]
      · simp [Stopping, hreq, h.1, loopLeft, hpc, hpc', Pc.left, mayDeliver, isReceiver, hone]
      · simp [Stopping, hreq, h.1, loopLeft, hpc, hpc', Pc.left, mayDeliver, isReceiver, hone]

/-- Until it has finished the thread can take a step: `recv` can time out. -/
theorem Stopping.enabled (h : Stopping s) :
    (ZmqFeedHandler.step s .join).isSome = true ∨
      (0 < loopLeft s ∧ ∃ e, isReceiver e = true ∧ (ZmqFeedHandler.step s e).isSome = true) := by
  obtain ⟨pc, hpc⟩ := Option.ne_none_iff_exists'.mp h.2
  cases pc with
  | finished => exact .inl (by simp [ZmqFeedHandler.step, join, hpc])
  | checkStop =>
      exact .inr ⟨by simp [loopLeft, hpc, Pc.left], .checkStop, rfl,
        by simp [ZmqFeedHandler.step, hpc]⟩
  | getRcvmore topic =>
      exact .inr ⟨by simp [loopLeft, hpc, Pc.left], .rcvmore, rfl,
        by simp [ZmqFeedHandler.step, hpc]⟩
  | recvTopic =>
      exact .inr ⟨by simp [loopLeft, hpc, Pc.left], .recv .timeout 0, rfl,
        by simp [ZmqFeedHandler.step, recvStep, hpc]⟩
  | recvPayload topic =>
      exact .inr ⟨by simp [loopLeft, hpc, Pc.left], .recv .timeout 0, rfl,
        by simp [ZmqFeedHandler.step, recvStep, hpc]⟩

/-- `stop()` returns, and what is delivered until then, as for UDP. -/
def StopsWithin (bound : Nat) (cb : Callbacks) : Prop :=
  ∀ es s, machine.Exec es s → s.stopRequested = true → s.thread ≠ none →
    ∀ fs s', machine.run s fs = some s' → (∀ e ∈ fs, duringStop e = true) →
      (machine.collect (delivered cb) s fs).length ≤ 1 ∧
      ((step s' .join).isSome = true ∨
        fs.countP isReceiver < bound ∧ ∃ e, isReceiver e = true ∧ (step s' e).isSome = true)

theorem stopsWithin (cb : Callbacks) : StopsWithin 4 cb := by
  intro es s _ hreq hrunning fs s' hrun hall
  have hstop : Stopping s := ⟨hreq, hrunning⟩
  constructor
  · have hstep : ∀ {s s' : State} {e : Event}, Stopping s → duringStop e = true →
        machine.step s e = some s' →
        Stopping s' ∧ (delivered cb s e).toList.length + mayDeliver s' ≤ mayDeliver s := by
      intro s s' e h he hs
      obtain ⟨h', -, hle⟩ := h.step cb he hs
      exact ⟨h', hle⟩
    have hle := Machine.collect_length_le hstep hstop hall hrun
    have hone : mayDeliver s ≤ 1 := by
      unfold mayDeliver
      split <;> simp
    omega
  · have hstep : ∀ {s s' : State} {e : Event}, Stopping s → duringStop e = true →
        machine.step s e = some s' → Stopping s' ∧
          loopLeft s' + (isReceiver e).toNat ≤
            loopLeft s + 0 * (delivered cb s e).toList.length := by
      intro s s' e h he hs
      obtain ⟨h', hle, -⟩ := h.step cb he hs
      exact ⟨h', by omega⟩
    obtain ⟨hstop', hle⟩ := Machine.budget_run hstep hstop hall hrun
    have hbound : loopLeft s ≤ 4 := by
      unfold loopLeft
      cases s.thread with
      | none => exact Nat.zero_le _
      | some pc => cases pc <;> simp [Pc.left]
    rcases hstop'.enabled with hjoin | ⟨hpos, hnext⟩
    · exact .inl hjoin
    · exact .inr ⟨by omega, hnext⟩

end ZmqFeedHandler

/-! ### Main result -/

/-- **`IFeedHandler::stop` returns**, with either transport, and after its stop request at
most one more message is delivered.  The UDP thread is done after six steps for each
command that is queued or accepted meanwhile, and six more; the ZMQ thread after four. -/
theorem handler_stop_returns {W : Nat} (N : Capacity W) (cb : Callbacks) :
    UdpFeedHandler.StopsWithin N cb ∧ ZmqFeedHandler.StopsWithin 4 cb :=
  ⟨UdpFeedHandler.stopsWithin N cb, ZmqFeedHandler.stopsWithin cb⟩

/-- Two commands are queued, and the stop is requested when the loop has begun to drain. -/
def stopInDrain : List UdpFeedHandler.Event :=
  UdpFeedHandler.wholeCall (UdpFeedHandler.subscribe [65]) ++
    UdpFeedHandler.wholeCall (UdpFeedHandler.subscribe [66]) ++
    [.start (Bytes.zero _), .loop, .loop, .requestStop]

theorem stopInDrain_goes : ((UdpFeedHandler.machine slots128).run
    (UdpFeedHandler.machine slots128).init stopInDrain).isSome = true := by
  decide +kernel

theorem handler_stop_returns_stopInDrain :
    ∃ s, (UdpFeedHandler.machine slots128).Exec stopInDrain s ∧ held s.commandQueue = 2 ∧
      (UdpFeedHandler.step slots128 s .join).isSome = false ∧
      ∃ e, UdpFeedHandler.isReceiver e = true ∧
        (UdpFeedHandler.step slots128 s e).isSome = true := by
  refine ⟨_, Machine.exec_final stopInDrain_goes, by decide +kernel, by decide +kernel, ?_⟩
  obtain ⟨-, h⟩ := (handler_stop_returns slots128 Callbacks.both).1 stopInDrain _
    (Machine.exec_final stopInDrain_goes) (by decide +kernel) (by decide +kernel) [] _ rfl (by simp)
  rcases h with hjoin | ⟨-, he⟩
  · exact absurd hjoin (by decide +kernel)
  · exact he

end MarketData
