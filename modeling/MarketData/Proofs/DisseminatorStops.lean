/-
What the disseminator still does once its stop has been requested.

`IDisseminator::run_loop` looks at the token only inside `pop`, so everything depends
on how a pop ends after the request.  `Quits` says of a queue class which pops may
still come back with an item: those that have passed a test of the token before the
request.  A pop that starts afterwards returns false.  So at most one more message is
sent, whatever else happens (`sent_after_stop`).

`PopEnds` says how many accesses a pop has left.  A spinning pop tests the token before
each try.  A waitable pop may be asleep, and it gets away only if the stop request was
not missed, which is what `StopInv` is about; so there the runs are those whose stop
callbacks are timely.  Then `stop()` returns (`disseminator_stop_returns`).
-/
import MarketData.Proofs.StopRequest
import MarketData.Proofs.StopReturns

namespace MarketData

open Lib

variable {W : Nat} {N : Capacity W}

/-! ### Pops after a stop request -/

section Pops

variable {T : Type}

/-- How the pops of a queue class react to a stop request.  `mayTake` says that the pop
may still return an item. -/
structure Quits (Q : QueueCode T W) where
  mayTake : Q.PopPc → Bool
  push_requested : ∀ {p m st n}, (Q.pushCode p).sc m st = some n → n.obj.requested = st.requested
  pop_requested : ∀ {c m st n}, (Q.popCode c).sc m st = some n → n.obj.requested = st.requested
  pop : mayTake Q.pop = false
  step : ∀ {c m st n}, st.requested = true → (Q.popCode c).sc m st = some n →
    mayTake n.pc = true → mayTake c = true
  ret : ∀ {c item}, Q.popRet c = some (some item) → mayTake c = true
  wake : ∀ c, mayTake (Q.wake c) = mayTake c

def SpinPopPc.mayTake : SpinPopPc T W → Bool
  | .checkStop => false
  | .queue _ => true
  | .done res => res.isSome

theorem SpinPopPc.requested_step {c : SpinPopPc T W} {m : Mem T W} {st : StopState}
    {n : Instr.Next Loc (Cell T W) StopState (SpinPopPc T W)} (h : (c.code N).sc m st = some n) :
    n.obj = st := by
  cases c with
  | checkStop =>
      simp only [SpinPopPc.code, Instr.sc_lib, Option.some.injEq] at h
      subst h
      rfl
  | queue p =>
      rcases PopPc.call_cases h with ⟨res, rfl, rfl⟩ | ⟨n', hn', rfl⟩
      · rfl
      · rfl
  | done res => simp [SpinPopPc.code] at h

def spinQuits (N : Capacity W) : Quits (SpinSpscQueue N : QueueCode T W) where
  mayTake := SpinPopPc.mayTake
  push_requested h := by rw [(PushPc.frame h).2.2.1]
  pop_requested h := by rw [SpinPopPc.requested_step h]
  pop := rfl
  step := by
    intro c m st n hreq h hmay
    cases c with
    | checkStop =>
        simp only [SpinPopPc.code, Instr.sc_lib, Option.some.injEq] at h
        subst h
        rw [if_pos hreq] at hmay
        simp [SpinPopPc.mayTake] at hmay
    | queue p => rfl
    | done res => simp [SpinPopPc.code] at h
  ret := by
    intro c item h
    cases c with
    | done res =>
        simp only [SpinPopPc.ret, Option.some.injEq] at h
        subst h
        rfl
    | _ => simp [SpinPopPc.ret] at h
  wake _ := rfl

def WaitPopPc.mayTake : WaitPopPc T W → Bool
  | .firstPop _ => true
  | .storeTrue => true
  | .secondPop _ => true
  | .storeFalse _ => true
  | .deregisterCallback res => res.isSome
  | .done res => res.isSome
  | _ => false

def waitableQuits (N : Capacity W) : Quits (WaitableSpscQueue N : QueueCode T W) where
  mayTake := WaitPopPc.mayTake
  push_requested h := by rw [(WaitPushPc.steps_of_sc h).obj]
  pop_requested h := (WaitPopPc.steps_of_sc h).requested
  pop := rfl
  step := by
    intro c m st n hreq h hmay
    cases WaitPopPc.steps_of_sc h with
    | proceed hnot => exact absurd (hnot.symm.trans hreq) (by simp)
    | deregisterWait res _ => exact hmay
    | deregister res _ => exact hmay
    | firstAccess _ _ _ => rfl
    | firstTook _ => rfl
    | firstEmpty => rfl
    | storeTrue => rfl
    | secondAccess _ _ _ => rfl
    | secondTook _ => rfl
    | storeFalse _ => rfl
    | _ => simp [WaitPopPc.mayTake] at hmay
  ret := by
    intro c item h
    cases c with
    | done res =>
        simp only [WaitPopPc.ret, Option.some.injEq] at h
        subst h
        rfl
    | _ => simp [WaitPopPc.ret] at h
  wake c := by cases c <;> rfl

end Pops

namespace MarketDataQueue

variable {T : Type} {Q : QueueCode T W} {s s' : State Q} {e : Event T}

/-- A stop request is never taken back. -/
theorem requested_step (K : Quits Q) (h : s.stop.requested = true) (hs : step s e = some s') :
    s'.stop.requested = true := by
  cases moves_of_step hs with
  | push p n hp hn => exact (K.push_requested hn).trans h
  | pop c n hc hn => exact (K.pop_requested hn).trans h
  | requestStop p n hp hn =>
      cases StopPc.steps_of_sc hn with
      | unheard _ _ => rfl
      | claim _ _ => rfl
      | _ => exact h
  | _ => exact h

end MarketDataQueue

/-! ### What the two loops leave alone -/

section Frames

variable {Q : QueueCode MarketDataMsg W} {q q' : MarketDataQueue.State Q} {now : Nat}

/-- Outside `push` the generator's loop only calls and returns. -/
theorem BaseGenerator.Moves.frame {g g' : BaseGenerator.State} {msg : MarketDataMsg}
    (h : BaseGenerator.Moves g q now msg g' q') :
    q'.mem = q.mem ∧ q'.stop = q.stop ∧ q'.stopper = q.stopper ∧ q'.cons = q.cons := by
  cases h with
  | callPush _ _ hq =>
      cases MarketDataQueue.moves_of_step hq with
      | callPush _ _ => exact ⟨rfl, rfl, rfl, rfl⟩
  | retPush _ _ hq =>
      cases MarketDataQueue.moves_of_step hq with
      | retPush _ _ _ _ => exact ⟨rfl, rfl, rfl, rfl⟩
  | _ => exact ⟨rfl, rfl, rfl, rfl⟩

/-- A loop that makes a step has a thread. -/
theorem BaseGenerator.Moves.thread_ne_none {g g' : BaseGenerator.State} {msg : MarketDataMsg}
    (h : BaseGenerator.Moves g q now msg g' q') : g.thread ≠ none := by
  intro hnone
  cases h <;> simp_all

/-- Outside `pop` the disseminator's loop only calls and returns. -/
theorem IDisseminator.Moves.frame {pc pc' : IDisseminator.Pc} {u : Bytes topicHeaderSize}
    (h : IDisseminator.Moves q u now pc pc' q') :
    q'.mem = q.mem ∧ q'.stop = q.stop ∧ q'.stopper = q.stopper ∧ q'.prod = q.prod := by
  cases h with
  | callPop hq =>
      cases MarketDataQueue.moves_of_step hq with
      | callPop _ => exact ⟨rfl, rfl, rfl, rfl⟩
  | popped _ hq =>
      cases MarketDataQueue.moves_of_step hq with
      | retPop _ _ _ _ => exact ⟨rfl, rfl, rfl, rfl⟩
  | stopped _ hq =>
      cases MarketDataQueue.moves_of_step hq with
      | retPop _ _ _ _ => exact ⟨rfl, rfl, rfl, rfl⟩
  | _ => exact ⟨rfl, rfl, rfl, rfl⟩

end Frames

namespace Pipeline

open BaseGenerator IDisseminator

variable {Q : QueueCode MarketDataMsg W} {s s' : State Q} {e : Event}

/-! ### At most one message follows -/

/-- How many messages a worker may still send, if a pop it is in takes `n`. -/
def maySendAt (n : Nat) : Option IDisseminator.Pc → Nat
  | some (.stamp _ _) => 1
  | some (.send _ _) => 1
  | some (.popping _) => n
  | _ => 0

/-- How many messages the disseminator may still send, once the stop is requested. -/
def maySend (K : Quits Q) (s : State Q) : Nat :=
  maySendAt (s.queue.cons.any K.mayTake).toNat s.worker

theorem maySendAt_mono {n n' : Nat} (h : n ≤ n') (worker : Option IDisseminator.Pc) :
    maySendAt n worker ≤ maySendAt n' worker := by
  unfold maySendAt
  split
  · exact Nat.le_refl _
  · exact Nat.le_refl _
  · exact h
  · exact Nat.le_refl _

theorem maySend_le (K : Quits Q) (s : State Q) : maySend K s ≤ 1 := by
  refine Nat.le_trans (maySendAt_mono (Bool.toNat_le _) s.worker) ?_
  unfold maySendAt
  split <;> omega

theorem any_mayTake_woken (K : Quits Q) (b : Bool) (c : Option Q.PopPc) :
    (MarketDataQueue.woken b c).any K.mayTake = c.any K.mayTake := by
  rcases c with _ | c
  · cases b <;> rfl
  · cases b with
    | false => rfl
    | true => exact K.wake c

/-- No access inside a call makes a pop take an item that would not have taken one. -/
theorem mayTake_access (K : Quits Q) {q q' : MarketDataQueue.State Q}
    {qe : MarketDataQueue.Event MarketDataMsg} (hreq : q.stop.requested = true)
    (hq : MarketDataQueue.step q qe = some q') (he : Fifo.isAccess qe = true) :
    (q'.cons.any K.mayTake).toNat ≤ (q.cons.any K.mayTake).toNat := by
  cases MarketDataQueue.moves_of_step hq with
  | push p n hp hn => exact Nat.le_of_eq (congrArg Bool.toNat (any_mayTake_woken K _ _))
  | pop c n hc hn =>
      rw [hc]
      refine Bool.toNat_le_toNat ?_
      exact K.step hreq hn
  | callRequestStop _ => exact Nat.le_refl _
  | requestStop p n hp hn => exact Nat.le_of_eq (congrArg Bool.toNat (any_mayTake_woken K _ _))
  | spurious => exact Nat.le_of_eq (congrArg Bool.toNat (any_mayTake_woken K true _))
  | _ => exact absurd he (by simp [Fifo.isAccess])

theorem maySend_runLoop (K : Quits Q) {pc pc' : IDisseminator.Pc} {q' : MarketDataQueue.State Q}
    {u : Bytes topicHeaderSize} {now : Nat} (hworker : s.worker = some pc)
    (hm : IDisseminator.Moves s.queue u now pc pc' q') :
    (sent s (.disseminator u now)).toList.length +
      maySend K { s with worker := some pc', queue := q' } ≤ maySend K s := by
  unfold maySend
  simp only [sent, hworker]
  cases hm with
  | begin => exact Nat.le_refl _
  | callPop hq =>
      cases MarketDataQueue.moves_of_step hq with
      | callPop _ =>
          show 0 + (K.mayTake Q.pop).toNat ≤ 0
          rw [K.pop]
          exact Nat.le_refl _
  | popped hret _ =>
      obtain ⟨c, hc, hret'⟩ := Option.bind_eq_some_iff.mp hret
      rw [hc]
      show 0 + 1 ≤ (K.mayTake c).toNat
      rw [K.ret hret']
      exact Nat.le_refl _
  | stopped _ _ => exact Nat.zero_le _
  | stamp => exact Nat.le_refl _
  | send => exact Nat.le_refl _

/-- **One step**: the stop stays requested, and what is sent now cannot be sent later. -/
theorem maySend_step (K : Quits Q) (hreq : s.queue.stop.requested = true)
    (he : e ≠ .startDisseminator) (hs : step s e = some s') :
    s'.queue.stop.requested = true ∧
      (sent s e).toList.length + maySend K s' ≤ maySend K s := by
  cases moves_of_step hs with
  | setRate r => exact ⟨hreq, Nat.le_of_eq (Nat.zero_add _)⟩
  | startGenerator => exact ⟨hreq, Nat.le_of_eq (Nat.zero_add _)⟩
  | requestStopGenerator => exact ⟨hreq, Nat.le_of_eq (Nat.zero_add _)⟩
  | joinGenerator _ => exact ⟨hreq, Nat.le_of_eq (Nat.zero_add _)⟩
  | generator hm =>
      obtain ⟨-, hstop, -, hcons⟩ := hm.frame
      refine ⟨by rw [hstop]; exact hreq, ?_⟩
      unfold maySend
      rw [hcons]
      exact Nat.le_of_eq (Nat.zero_add _)
  | access hin hq =>
      have hacc := isAccess_of_inQueue hin
      refine ⟨MarketDataQueue.requested_step K hreq hq, ?_⟩
      rw [(unseen (s := s) (Or.inl (by rw [hin]; rfl))).2, Option.toList_none, List.length_nil,
        Nat.zero_add]
      exact maySendAt_mono (mayTake_access K hreq hq hacc) s.worker
  | startDisseminator _ => exact absurd rfl he
  | joinDisseminator _ _ => exact ⟨hreq, Nat.zero_le _⟩
  | idle hcall =>
      refine ⟨hreq, ?_⟩
      rw [(unseen (s := s) (Or.inr hcall)).2]
      exact Nat.le_of_eq (Nat.zero_add _)
  | disseminator hworker hm =>
      obtain ⟨-, hstop, -, -⟩ := hm.frame
      exact ⟨by rw [hstop]; exact hreq, maySend_runLoop K hworker hm⟩

/-- Once the stop of a session is requested, at most one more message is sent in it,
whatever happens next. -/
def SendsAtMostOne (Q : QueueCode MarketDataMsg W) : Prop :=
  ∀ es s, (machine Q).Exec es s → s.queue.stop.requested = true →
    ∀ fs s', (machine Q).run s fs = some s' → (∀ e ∈ fs, e ≠ .startDisseminator) →
      ((machine Q).collect sent s fs).length ≤ 1

theorem sendsAtMostOne (K : Quits Q) : SendsAtMostOne Q := by
  intro es s _ hreq fs s' hrun hall
  have hstep : ∀ {s s' : State Q} {e : Event}, s.queue.stop.requested = true →
      e ≠ .startDisseminator → (machine Q).step s e = some s' →
      s'.queue.stop.requested = true ∧ (sent s e).toList.length + maySend K s' ≤ maySend K s :=
    fun hreq he hs => maySend_step K hreq he hs
  exact Nat.le_trans (Machine.collect_length_le hstep hreq hall hrun) (maySend_le K s)

/-- **At most one message follows a stop request**, with either queue class: the one the
disseminator has popped, or the one its pop in progress takes. -/
theorem sent_after_stop (N : Capacity W) :
    SendsAtMostOne (SpinSpscQueue N) ∧ SendsAtMostOne (WaitableSpscQueue N) :=
  ⟨sendsAtMostOne (spinQuits N), sendsAtMostOne (waitableQuits N)⟩

end Pipeline

/-! ### How long a pop takes once the stop is requested -/

/-- The stop request is running the callback. -/
def StopPc.inCallback : StopPc → Bool
  | .callbackStore => true
  | .callbackNotify => true
  | .callbackDone => true
  | _ => false

namespace MarketDataQueue

variable {T : Type} {Q : QueueCode T W} {q q' : State Q} {e : Event T}

/-- The stop flag is up once `request_stop` has set it. -/
def Raised (q : State Q) : Prop :=
  ∀ p, q.stopper = some p → p.raised = true → q.stop.requested = true

theorem Raised.step (K : Quits Q) (h : Raised q) (hs : step q e = some q') : Raised q' := by
  intro p hp hraised
  cases moves_of_step hs with
  | callRequestStop _ =>
      rw [← Option.some.inj hp] at hraised
      simp [StopPc.raised] at hraised
  | requestStop p₀ n hp₀ hn =>
      cases StopPc.steps_of_sc hn with
      | again hreq => exact hreq
      | claim _ _ => rfl
      | unheard _ _ => rfl
      | _ => exact h _ hp₀ rfl
  | push p₀ n _ hn => exact (K.push_requested hn).trans (h p hp hraised)
  | pop c n _ hn => exact (K.pop_requested hn).trans (h p hp hraised)
  | _ => exact h p hp hraised

/-- A callback is running only inside `request_stop`. -/
def CallbackRuns (q : State Q) : Prop :=
  q.stop.callback = .running → ∃ p, q.stopper = some p ∧ p.inCallback = true

theorem CallbackRuns.step {q q' : State (WaitableSpscQueue N : QueueCode T W)}
    (h : CallbackRuns q) (hs : step q e = some q') : CallbackRuns q' := by
  intro hrun
  cases moves_of_step hs with
  | callRequestStop hnone =>
      obtain ⟨p, hp, -⟩ := h hrun
      exact absurd (hnone.symm.trans hp) (by simp)
  | push p n _ hn =>
      have hobj : n.obj = q.stop := (WaitPushPc.steps_of_sc hn).obj
      exact h (hobj ▸ hrun)
  | pop c n _ hn =>
      cases WaitPopPc.steps_of_sc hn with
      | register _ => simp at hrun
      | deregister _ _ => simp at hrun
      | _ => exact h hrun
  | requestStop p n hp hn =>
      cases StopPc.steps_of_sc hn with
      | again _ =>
          obtain ⟨p', hp', hcall⟩ := h hrun
          obtain rfl := Option.some.inj (hp.symm.trans hp')
          simp [StopPc.inCallback] at hcall
      | unheard _ _ =>
          obtain ⟨p', hp', hcall⟩ := h hrun
          obtain rfl := Option.some.inj (hp.symm.trans hp')
          simp [StopPc.inCallback] at hcall
      | claim _ _ => exact ⟨_, rfl, rfl⟩
      | callbackStore => exact ⟨_, rfl, rfl⟩
      | callbackNotify => exact ⟨_, rfl, rfl⟩
      | callbackDone => simp at hrun
  | _ => exact h hrun

/-- A stop request that has returned does nothing more. -/
theorem stopper_done_step (h : q.stopper = some .done) (hs : step q e = some q') :
    q'.stopper = some .done := by
  cases moves_of_step hs with
  | callRequestStop hp => exact absurd (hp.symm.trans h) (by simp)
  | requestStop p n hp hn =>
      obtain rfl := Option.some.inj (hp.symm.trans h)
      simp [StopPc.code] at hn
  | _ => exact h

end MarketDataQueue

section Ends

variable {T : Type}

open MarketDataQueue

/-- The pops of a queue class end when `request_stop` has returned, in the states that
meet `Inv`. -/
structure PopEnds (Q : QueueCode T W) where
  Inv : State Q → Prop
  left : Q.PopPc → Nat
  bound : Nat
  left_le : ∀ c, left c ≤ bound
  stopped : ∀ {q}, Inv q → q.stopper = some .done ∧ q.stop.requested = true
  keeps : ∀ {q e q'}, Inv q → MarketDataQueue.step q e = some q' → Inv q'
  step : ∀ {q c n}, Inv q → q.cons = some c → (Q.popCode c).sc q.mem q.stop = some n →
    left n.pc + 1 ≤ left c
  enabled : ∀ {q c}, Inv q → q.cons = some c → Q.popRet c = none →
    ∃ n, (Q.popCode c).sc q.mem q.stop = some n
  wake : ∀ {q c}, Inv q → q.cons = some c → left (Q.wake c) ≤ left c

/-- The spinning pop: at most one whole try, and the test of the token. -/
def SpinPopPc.left : SpinPopPc T W → Nat
  | .checkStop => 1
  | .queue p => 2 + p.left
  | .done _ => 0

theorem SpinPopPc.left_step {c : SpinPopPc T W} {m : Mem T W} {st : StopState}
    {n : Instr.Next Loc (Cell T W) StopState (SpinPopPc T W)} (hreq : st.requested = true)
    (h : (c.code N).sc m st = some n) : n.pc.left + 1 ≤ c.left := by
  cases c with
  | checkStop =>
      simp only [SpinPopPc.code, Instr.sc_lib, Option.some.injEq] at h
      subst h
      rw [if_pos hreq]
      exact Nat.le_refl _
  | queue p =>
      rcases PopPc.call_cases h with ⟨res, rfl, rfl⟩ | ⟨n', hn', rfl⟩
      · cases res <;> simp [left, PopPc.left]
      · have hleft := PopPc.left_step hn'
        simp only [left]
        omega
  | done res => simp [SpinPopPc.code] at h

/-- Under the queue's invariant no pop has gone wrong, so an access is always possible. -/
theorem PopPc.call_enabled {P : Type} {inside : PopPc T W → P} {ret : Option T → P}
    {pc : PopPc T W} {m : Mem T W} {x : StopState} {p : Option (PushPc T W)} {xs : List T}
    (h : QueueInv N m p (some pc) xs) : ∃ n, (pc.call N inside ret).sc m x = some n := by
  cases pc with
  | fault => exact h.cons.elim
  | _ => exact ⟨_, rfl⟩

def spinPopEnds (N : Capacity W) : PopEnds (SpinSpscQueue N : QueueCode T W) where
  Inv q := (spinFifo N).Inv q ∧ q.stopper = some .done ∧ q.stop.requested = true
  left := SpinPopPc.left
  bound := 7
  left_le c := by
    cases c with
    | queue p => cases p <;> simp [SpinPopPc.left, PopPc.left]
    | _ => simp [SpinPopPc.left]
  stopped h := h.2
  keeps h hs := ⟨((spinFifo N).flow_step h.1 hs).1, stopper_done_step h.2.1 hs,
    MarketDataQueue.requested_step (spinQuits N) h.2.2 hs⟩
  step h _ hn := SpinPopPc.left_step h.2.2 hn
  enabled := by
    rintro q c ⟨⟨xs, hxs⟩, -, -⟩ hc hret
    unfold Fifo.Holds at hxs
    rw [hc] at hxs
    cases c with
    | checkStop => exact ⟨_, rfl⟩
    | queue p => exact PopPc.call_enabled hxs
    | done res => simp [SpinPopPc.ret] at hret
  wake _ _ := Nat.le_refl _

/-- The waitable pop, where it can be when the stop has not been missed: nothing leads
back to the announcement of a sleep. -/
def WaitPopPc.left : WaitPopPc T W → Nat
  | .registerCallback => 5
  | .callbackStore => 4
  | .callbackNotify => 3
  | .checkStop => 2
  | .secondPop p => 4 + p.left
  | .storeFalse _ => 2
  | .wait => 3
  | .deregisterCallback _ => 1
  | _ => 0

/-- `request_stop` has returned, and the pop has not missed it. -/
structure StopSeen (q : State (WaitableSpscQueue N : QueueCode T W)) : Prop where
  fifo : (waitableFifo N).Inv q
  stop : StopInv q
  done : q.stopper = some .done
  callbackOver : q.stop.callback ≠ .running

theorem StopSeen.requested {q : State (WaitableSpscQueue N : QueueCode T W)} (h : StopSeen q) :
    q.stop.requested = true := h.stop.requested h.done rfl

/-- No callback starts to run any more. -/
theorem StopSeen.step {q q' : State (WaitableSpscQueue N : QueueCode T W)} {e : Event T}
    (h : StopSeen q) (hs : MarketDataQueue.step q e = some q') : StopSeen q' := by
  have hdone := stopper_done_step h.done hs
  have htimely : CallbackTimely q e := by
    cases e with
    | requestStop => exact fun hp => absurd (hp.symm.trans h.done) (by simp)
    | _ => trivial
  refine ⟨((waitableFifo N).flow_step h.fifo hs).1, h.stop.step htimely hs, hdone, ?_⟩
  cases moves_of_step hs with
  | push p n _ hn =>
      show n.obj.callback ≠ .running
      rw [(WaitPushPc.steps_of_sc hn).obj]
      exact h.callbackOver
  | pop c n _ hn =>
      cases WaitPopPc.steps_of_sc hn with
      | register _ => simp
      | deregister _ _ => simp
      | _ => exact h.callbackOver
  | requestStop p n hp hn =>
      obtain rfl := Option.some.inj (hp.symm.trans h.done)
      simp [StopPc.code] at hn
  | _ => exact h.callbackOver

theorem StopSeen.left_step {q : State (WaitableSpscQueue N : QueueCode T W)} {c : WaitPopPc T W}
    {n : Instr.Next Loc (Cell T W) StopState (WaitPopPc T W)} (h : StopSeen q)
    (hc : q.cons = some c) (hn : (c.code N).sc q.mem q.stop = some n) :
    n.pc.left + 1 ≤ c.left := by
  have hreleased := h.stop.released .done h.done rfl c hc
  cases WaitPopPc.steps_of_sc hn with
  | register hreq => exact absurd (hreq.symm.trans h.requested) (by simp)
  | proceed hreq => exact absurd (hreq.symm.trans h.requested) (by simp)
  | firstAccess _ _ _ => exact hreleased.elim
  | firstTook _ => exact hreleased.elim
  | firstEmpty => exact hreleased.elim
  | storeTrue => exact hreleased.elim
  | secondAccess p n' hn' =>
      have hleft := PopPc.left_step hn'
      simp only [WaitPopPc.left]
      omega
  | block hflag =>
      have hdown : q.mem .isSleeping_ = false := hreleased
      exact absurd (hdown.symm.trans hflag) (by simp)
  | deregisterWait _ hrun => exact absurd hrun h.callbackOver
  | _ => simp [WaitPopPc.left, PopPc.left]

def waitablePopEnds (N : Capacity W) : PopEnds (WaitableSpscQueue N : QueueCode T W) where
  Inv := StopSeen
  left := WaitPopPc.left
  bound := 9
  left_le c := by
    cases c with
    | secondPop p => cases p <;> simp [WaitPopPc.left, PopPc.left]
    | _ => simp [WaitPopPc.left]
  stopped h := ⟨h.done, h.requested⟩
  keeps h hs := h.step hs
  step h hc hn := h.left_step hc hn
  enabled := by
    intro q c h hc hret
    have hreleased := h.stop.released .done h.done rfl c hc
    obtain ⟨xs, hxs⟩ := h.fifo
    unfold Fifo.Holds at hxs
    rw [hc] at hxs
    cases c with
    | firstPop p => exact hreleased.elim
    | secondPop p => exact PopPc.call_enabled hxs
    | blocked => exact absurd hreleased.2 (by simp)
    | done res => simp [WaitPopPc.ret] at hret
    | _ => exact ⟨_, rfl⟩
  wake := by
    intro q c h hc
    have hreleased := h.stop.released .done h.done rfl c hc
    cases c with
    | blocked => exact absurd hreleased.2 (by simp)
    | _ => exact Nat.le_refl _

end Ends

namespace Pipeline

open BaseGenerator IDisseminator

variable {Q : QueueCode MarketDataMsg W} {s s' : State Q} {e : Event}

/-! ### The worker gets to its end -/

/-- What a step of the pipeline does to the queue: nothing, a step of its users, or a new
stop state for a new worker. -/
theorem queue_cases (hs : step s e = some s') :
    s'.queue = s.queue ∨
    (∃ qe, MarketDataQueue.step s.queue qe = some s'.queue ∧
      (qe = .requestStop → e = .requestStop) ∧ (qe = .callRequestStop → e = .callRequestStop)) ∨
    (e = .startDisseminator ∧ s.worker = none ∧
      s'.queue = { s.queue with stop := StopState.initial, stopper := none }) := by
  cases moves_of_step hs with
  | generator hm =>
      cases hm with
      | callPush _ _ hq => exact Or.inr (Or.inl ⟨_, hq, by simp, by simp⟩)
      | retPush _ _ hq => exact Or.inr (Or.inl ⟨_, hq, by simp, by simp⟩)
      | _ => exact Or.inl rfl
  | @access e qe q' hin hq =>
      refine Or.inr (Or.inl ⟨qe, hq, ?_, ?_⟩)
      · rintro rfl
        cases e <;> simp [inQueue] at hin ⊢
      · rintro rfl
        cases e <;> simp [inQueue] at hin ⊢
  | startDisseminator hworker => exact Or.inr (Or.inr ⟨rfl, hworker, rfl⟩)
  | disseminator _ hm =>
      cases hm with
      | callPop hq => exact Or.inr (Or.inl ⟨_, hq, by simp, by simp⟩)
      | popped _ hq => exact Or.inr (Or.inl ⟨_, hq, by simp, by simp⟩)
      | stopped _ hq => exact Or.inr (Or.inl ⟨_, hq, by simp, by simp⟩)
      | _ => exact Or.inl rfl
  | _ => exact Or.inl rfl

/-- The steps of the disseminator's thread. -/
def isWorker : Event → Bool
  | .disseminator _ _ => true
  | .pop => true
  | _ => false

variable (K : Quits Q) (E : PopEnds Q)

/-- What a pop in progress has left, and what follows if it takes an item. -/
def popLeft (c : Q.PopPc) : Nat := E.left c + (if K.mayTake c then 4 + E.left Q.pop else 0)

/-- How many steps the worker has left, once `request_stop` has returned. -/
def workerLeftAt (cons : Option Q.PopPc) : Option IDisseminator.Pc → Nat
  | none => 0
  | some .finished => 0
  | some (.callPop _) => 2 + E.left Q.pop
  | some .begin => 3 + E.left Q.pop
  | some (.send _ _) => 3 + E.left Q.pop
  | some (.stamp _ _) => 4 + E.left Q.pop
  | some (.popping _) => 1 + cons.elim 0 (popLeft K E)

def workerLeft (s : State Q) : Nat := workerLeftAt K E s.queue.cons s.worker

/-- `request_stop` has returned. -/
def WorkerStopping (s : State Q) : Prop := Paired s ∧ E.Inv s.queue

theorem workerLeft_le (s : State Q) : workerLeft K E s ≤ 5 + 2 * E.bound := by
  have hpop := E.left_le Q.pop
  unfold workerLeft workerLeftAt
  split
  case h_7 =>
      rcases s.queue.cons with _ | c
      · simp only [Option.elim_none]
        omega
      · have hleft := E.left_le c
        simp only [Option.elim_some, popLeft]
        split <;> omega
  all_goals omega

variable {K E}

theorem popLeft_wake (h : E.Inv s.queue) {c : Q.PopPc} (hc : s.queue.cons = some c) :
    popLeft K E (Q.wake c) ≤ popLeft K E c := by
  have hle := E.wake h hc
  unfold popLeft
  rw [K.wake]
  omega

theorem popLeft_step (h : E.Inv s.queue) {c : Q.PopPc} (hc : s.queue.cons = some c)
    {n : Instr.Next Loc (Cell MarketDataMsg W) StopState Q.PopPc}
    (hn : (Q.popCode c).sc s.queue.mem s.queue.stop = some n) :
    popLeft K E n.pc + 1 ≤ popLeft K E c := by
  have hle := E.step h hc hn
  have hmay := K.step (E.stopped h).2 hn
  unfold popLeft
  by_cases htake : K.mayTake n.pc = true
  · rw [if_pos htake, if_pos (hmay htake)]
    omega
  · rw [if_neg htake]
    omega

theorem workerLeft_woken (h : E.Inv s.queue) (b : Bool) (worker : Option IDisseminator.Pc) :
    workerLeftAt K E (MarketDataQueue.woken b s.queue.cons) worker ≤
      workerLeftAt K E s.queue.cons worker := by
  cases b with
  | false => exact Nat.le_refl _
  | true =>
      cases hc : s.queue.cons with
      | none => exact Nat.le_refl _
      | some c =>
          have hle := popLeft_wake (K := K) h hc
          show workerLeftAt K E (some (Q.wake c)) worker ≤ _
          unfold workerLeftAt
          split
          case h_7 =>
              simp only [Option.elim_some]
              omega
          all_goals exact Nat.le_refl _

/-- An access inside a call. -/
theorem workerLeft_access {qe : MarketDataQueue.Event MarketDataMsg}
    {q' : MarketDataQueue.State Q} (hpaired : Paired s) (h : E.Inv s.queue)
    (he : inQueue e = some qe) (hq : MarketDataQueue.step s.queue qe = some q') :
    workerLeftAt K E q'.cons s.worker ≤ workerLeftAt K E s.queue.cons s.worker -
      (isWorker e).toNat := by
  cases e with
  | push =>
      obtain rfl := Option.some.inj he
      cases MarketDataQueue.moves_of_step hq with
      | push p n _ _ => exact workerLeft_woken h n.woken s.worker
  | callRequestStop =>
      obtain rfl := Option.some.inj he
      cases MarketDataQueue.moves_of_step hq with
      | callRequestStop _ => exact Nat.le_refl _
  | requestStop =>
      obtain rfl := Option.some.inj he
      cases MarketDataQueue.moves_of_step hq with
      | requestStop p n _ _ => exact workerLeft_woken h n.woken s.worker
  | spurious =>
      obtain rfl := Option.some.inj he
      cases MarketDataQueue.moves_of_step hq with
      | spurious => exact workerLeft_woken h true s.worker
  | pop =>
      obtain rfl := Option.some.inj he
      cases MarketDataQueue.moves_of_step hq with
      | pop c n hc hn =>
          have hle := popLeft_step (K := K) h hc hn
          have hpop := hpaired.cons
          rw [hc] at hpop
          rw [hc]
          cases hw : s.worker with
          | none => simp [hw, popping] at hpop
          | some pc =>
              cases pc with
              | popping topic =>
                  simp only [workerLeftAt, Option.elim_some, isWorker, Bool.toNat_true]
                  omega
              | _ => simp [hw, popping] at hpop
  | _ => simp [inQueue] at he

/-- A step of `run_loop`. -/
theorem workerLeft_runLoop {pc pc' : IDisseminator.Pc} {q' : MarketDataQueue.State Q}
    {u : Bytes topicHeaderSize} {now : Nat}
    (hm : IDisseminator.Moves s.queue u now pc pc' q') :
    workerLeftAt K E q'.cons (some pc') + 1 ≤ workerLeftAt K E s.queue.cons (some pc) := by
  cases hm with
  | begin =>
      simp only [workerLeftAt]
      omega
  | callPop hq =>
      cases MarketDataQueue.moves_of_step hq with
      | callPop _ =>
          simp only [workerLeftAt, Option.elim_some, popLeft, K.pop]
          simp only [Bool.false_eq_true, if_false]
          omega
  | popped hret _ =>
      obtain ⟨c, hc, hret'⟩ := Option.bind_eq_some_iff.mp hret
      simp only [workerLeftAt, hc, Option.elim_some, popLeft, K.ret hret', if_true]
      omega
  | stopped _ _ =>
      simp only [workerLeftAt]
      omega
  | stamp =>
      simp only [workerLeftAt]
      omega
  | send =>
      simp only [workerLeftAt]
      omega

theorem WorkerStopping.step (h : WorkerStopping E s) (he : e ≠ .startDisseminator)
    (hs : Pipeline.step s e = some s') :
    WorkerStopping E s' ∧ workerLeft K E s' ≤ workerLeft K E s - (isWorker e).toNat := by
  obtain ⟨hpaired, hinv⟩ := h
  have hinv' : E.Inv s'.queue := by
    rcases queue_cases hs with heq | ⟨qe, hq, -, -⟩ | ⟨hstart, -, -⟩
    · rw [heq]
      exact hinv
    · exact E.keeps hinv hq
    · exact absurd hstart he
  refine ⟨⟨hpaired.step hs, hinv'⟩, ?_⟩
  cases moves_of_step hs with
  | generator hm =>
      unfold workerLeft
      rw [hm.frame.2.2.2]
      exact Nat.le_refl _
  | access hin hq => exact workerLeft_access hpaired hinv hin hq
  | startDisseminator _ => exact absurd rfl he
  | joinDisseminator _ _ => exact Nat.zero_le _
  | idle hcall =>
      cases e with
      | startDisseminator => exact absurd rfl he
      | callRequestStop => exact Nat.le_refl _
      | joinDisseminator => exact Nat.le_refl _
      | _ => simp [onDisseminator] at hcall
  | disseminator hworker hm =>
      unfold workerLeft
      rw [hworker]
      exact Nat.le_sub_one_of_lt (workerLeft_runLoop hm)
  | _ => exact Nat.le_refl _

/-- The worker can go on, if the pop it is in can. -/
theorem worker_enabled (h : Paired s) {pc : IDisseminator.Pc} (hworker : s.worker = some pc)
    (hpc : pc ≠ .finished) (hpop : ∀ c, s.queue.cons = some c → Q.popRet c = none →
      ∃ n, (Q.popCode c).sc s.queue.mem s.queue.stop = some n) :
    ∃ e, isWorker e = true ∧ (step s e).isSome = true := by
  have hcons := h.cons
  rw [hworker] at hcons
  cases pc with
  | finished => exact absurd rfl hpc
  | callPop topic =>
      have hnone : s.queue.cons = none := by simpa [popping] using hcons
      refine ⟨.disseminator (Bytes.zero _) 0, rfl, ?_⟩
      simp [step, hworker, runLoopStep, MarketDataQueue.step, hnone]
  | popping topic =>
      obtain ⟨c, hc⟩ : ∃ c, s.queue.cons = some c := Option.isSome_iff_exists.mp hcons
      cases hret : Q.popRet c with
      | some res =>
          refine ⟨.disseminator (Bytes.zero _) 0, rfl, ?_⟩
          simp [step, hworker, runLoopStep, MarketDataQueue.step, hc, hret]
      | none =>
          obtain ⟨n, hn⟩ := hpop c hc hret
          have hq := (MarketDataQueue.Moves.pop c n hc hn).step_eq
          refine ⟨.pop, rfl, ?_⟩
          simp [step, hq]
  | _ =>
      refine ⟨.disseminator (Bytes.zero _) 0, rfl, ?_⟩
      simp [step, hworker, runLoopStep]

theorem ne_startDisseminator_of_isWorker (h : isWorker e = true) : e ≠ .startDisseminator := by
  rintro rfl
  simp [isWorker] at h

variable (K E)

/-- A disseminator whose `request_stop` has returned gets to the end of its loop. -/
theorem worker_progress : Machine.Progress (machine Q) (fun e => e ≠ .startDisseminator)
    isWorker (WorkerStopping E) (workerLeft K E) where
  step h he hs := h.step he hs
  enabled := by
    intro s h hpos
    unfold workerLeft at hpos
    cases hworker : s.worker with
    | none => simp [hworker, workerLeftAt] at hpos
    | some pc =>
        have hpc : pc ≠ .finished := by
          rintro rfl
          simp [hworker, workerLeftAt] at hpos
        obtain ⟨e, hmine, hsome⟩ :=
          worker_enabled h.1 hworker hpc fun c hc hret => E.enabled h.2 hc hret
        exact ⟨e, hmine, ne_startDisseminator_of_isWorker hmine, hsome⟩

variable {K E}

/-- `worker_.join()` returns when nothing is left to do. -/
theorem join_of_workerLeft (h : WorkerStopping E s) (hzero : workerLeft K E s = 0) :
    (step s .joinDisseminator).isSome = true := by
  have hdone := (E.stopped h.2).1
  unfold workerLeft at hzero
  cases hworker : s.worker with
  | none => simp [step, joinDisseminator, hworker]
  | some pc =>
      rw [hworker] at hzero
      cases pc with
      | finished => simp [step, joinDisseminator, hworker, hdone]
      | _ =>
          simp only [workerLeftAt] at hzero
          omega

/-- `stop()` on the disseminator returns.  From every state that a run whose steps meet
`G` reaches with `request_stop` returned, however the threads go on from there while
nobody calls `start`: `join` returns now, or the worker has taken fewer than `bound` steps
and can take another. -/
def DisseminatorStops (Q : QueueCode MarketDataMsg W) (G : State Q → Event → Prop)
    (bound : Nat) : Prop :=
  ∀ es s, (machine Q).Exec es s → (machine Q).Along G es → s.queue.stopper = some .done →
    ∀ fs s', (machine Q).run s fs = some s' → (∀ e ∈ fs, e ≠ .startDisseminator) →
      (step s' .joinDisseminator).isSome = true ∨
        (fs.countP isWorker < bound ∧ ∃ e, isWorker e = true ∧ (step s' e).isSome = true)

theorem disseminatorStops (K : Quits Q) (E : PopEnds Q) {G : State Q → Event → Prop}
    (hinv : ∀ es s, (machine Q).Exec es s → (machine Q).Along G es →
      s.queue.stopper = some .done → E.Inv s.queue) :
    DisseminatorStops Q G (5 + 2 * E.bound) := by
  intro es s hex hG hdone fs s' hrun hall
  have hstopping : WorkerStopping E s := ⟨Paired.of_exec hex, hinv es s hex hG hdone⟩
  obtain ⟨hstopping', hle⟩ := (worker_progress K E).run hstopping hall hrun
  by_cases hzero : workerLeft K E s' = 0
  · exact Or.inl (join_of_workerLeft hstopping' hzero)
  · obtain ⟨e, hmine, -, hsome⟩ :=
      (worker_progress K E).enabled hstopping' (Nat.pos_of_ne_zero hzero)
    have hbound := workerLeft_le K E s
    exact Or.inr ⟨by omega, e, hmine, hsome⟩

/-! ### The two queue classes -/

/-- In a pipeline too, a stop request that has returned has set the flag. -/
theorem raised_of_exec (K : Quits Q) {es : List Event} (h : (machine Q).Exec es s) :
    MarketDataQueue.Raised s.queue := by
  refine Machine.Exec.induction (P := fun _ s => MarketDataQueue.Raised s.queue) ?_ ?_ h
  · intro p hp
    simp [machine, MarketDataQueue.machine] at hp
  · intro es s e s' _ ih hs
    rcases queue_cases hs with heq | ⟨qe, hq, -, -⟩ | ⟨-, -, heq⟩
    · rw [heq]
      exact ih
    · exact ih.step K hq
    · rw [heq]
      intro p hp
      simp at hp

/-- The step is not the callback of a stop request that comes too late for the pop. -/
def CallbackTimely (s : State (WaitableSpscQueue N)) (e : Event) : Prop :=
  e = .requestStop → MarketDataQueue.CallbackTimely s.queue .requestStop

instance (s : State (WaitableSpscQueue N)) : ∀ e, Decidable (CallbackTimely s e)
  | .requestStop => decidable_of_iff (MarketDataQueue.CallbackTimely s.queue .requestStop)
      ⟨fun h _ => h, fun h => h rfl⟩
  | .setRate _ | .startGenerator | .requestStopGenerator | .joinGenerator | .generator _ _ | .push
  | .startDisseminator | .callRequestStop | .joinDisseminator | .disseminator _ _ | .pop
  | .spurious => .isTrue (by simp [CallbackTimely])

/-- What a timely run keeps for the stop request. -/
structure StopHeard (s : State (WaitableSpscQueue N)) : Prop where
  stop : MarketDataQueue.StopInv s.queue
  runs : MarketDataQueue.CallbackRuns s.queue

theorem StopHeard.step {s s' : State (WaitableSpscQueue N)} (h : StopHeard s) (hpaired : Paired s)
    (htimely : CallbackTimely s e) (hs : Pipeline.step s e = some s') : StopHeard s' := by
  rcases queue_cases hs with heq | ⟨qe, hq, hreq, -⟩ | ⟨-, hworker, heq⟩
  · exact ⟨by rw [heq]; exact h.stop, by rw [heq]; exact h.runs⟩
  · have htimely' : MarketDataQueue.CallbackTimely s.queue qe := by
      cases qe with
      | requestStop => exact htimely (hreq rfl)
      | _ => trivial
    exact ⟨h.stop.step htimely' hq, h.runs.step hq⟩
  · -- A new session starts while nobody is in `pop`.
    have hcons := hpaired.cons
    rw [hworker] at hcons
    have hnone : s.queue.cons = none := by simpa [popping] using hcons
    refine ⟨?_, ?_⟩
    · rw [heq]
      refine ⟨rfl, ?_, ?_⟩
      · intro _ c hc
        exact absurd (hnone.symm.trans hc) (by simp)
      · intro p hp
        simp at hp
    · rw [heq]
      intro hrun
      simp [StopState.initial] at hrun

theorem StopHeard.of_exec {es : List Event} {s : State (WaitableSpscQueue N)}
    (h : (machine (WaitableSpscQueue N)).Exec es s)
    (hG : (machine (WaitableSpscQueue N)).Along CallbackTimely es) : StopHeard s := by
  have key : (machine (WaitableSpscQueue N)).Along CallbackTimely es → StopHeard s := by
    refine Machine.Exec.induction (P := fun es s =>
      (machine (WaitableSpscQueue N)).Along CallbackTimely es → StopHeard s) ?_ ?_ h
    · intro _
      exact ⟨MarketDataQueue.StopInv.initial, fun hrun => by simp [machine,
        MarketDataQueue.machine, StopState.initial] at hrun⟩
    · intro es s e s' hex ih hs hal
      exact (ih hal.init).step (Paired.of_exec hex) (hal.last hex) hs
  exact key hG

theorem spin_disseminatorStops (N : Capacity W) :
    DisseminatorStops (SpinSpscQueue N) (fun _ _ => True) 19 := by
  refine disseminatorStops (spinQuits N) (spinPopEnds N) ?_
  intro es s hex _ hdone
  have hinv : RunInv (spinFifo N) es s := RunInv.of_exec hex
  exact ⟨hinv.coupled.inv, hdone, raised_of_exec (spinQuits N) hex .done hdone rfl⟩

theorem waitable_disseminatorStops (N : Capacity W) :
    DisseminatorStops (WaitableSpscQueue N) CallbackTimely 23 := by
  refine disseminatorStops (waitableQuits N) (waitablePopEnds N) ?_
  intro es s hex hG hdone
  have hinv : RunInv (waitableFifo N) es s := RunInv.of_exec hex
  have hheard := StopHeard.of_exec hex hG
  refine ⟨hinv.coupled.inv, hheard.stop, hdone, ?_⟩
  intro hrun
  obtain ⟨p, hp, hcall⟩ := hheard.runs hrun
  obtain rfl := Option.some.inj (hp.symm.trans hdone)
  simp [StopPc.inCallback] at hcall

/-- **`IDisseminator::stop` returns.**  With the spinning queue it always does; with the
waitable queue it does in every run in which no stop callback falls between a pop's test
of the token and its announcement that it sleeps. -/
theorem disseminator_stop_returns (N : Capacity W) :
    DisseminatorStops (SpinSpscQueue N) (fun _ _ => True) 19 ∧
    DisseminatorStops (WaitableSpscQueue N) CallbackTimely 23 :=
  ⟨spin_disseminatorStops N, waitable_disseminatorStops N⟩

/-! ### A run -/

/-- The generator pushes one message and is stopped, and the disseminator is started. -/
def onePushed : List Event :=
  [.setRate 1000, .startGenerator] ++ generatorSteps 5 ++ List.replicate 4 .push ++
    generatorSteps 1 ++ [.requestStopGenerator] ++ generatorSteps 1 ++
    [.joinGenerator, .startDisseminator]

/-- The disseminator is asked to stop when its pop has passed the test of the token. -/
def stopInPop : List Event :=
  onePushed ++ disseminatorSteps 2 ++ [.pop, .pop, .callRequestStop, .requestStop]

/-- The rest of the pop, and the message it takes. -/
def lastSend : List Event := List.replicate 5 .pop ++ disseminatorSteps 3

theorem stopInPop_goes : ((machine (SpinSpscQueue slots128)).run
    (machine (SpinSpscQueue slots128)).init stopInPop).isSome = true := by
  decide +kernel

theorem lastSend_goes : ((machine (SpinSpscQueue slots128)).run
    ((machine (SpinSpscQueue slots128)).final stopInPop stopInPop_goes) lastSend).isSome =
      true := by
  decide +kernel

theorem sent_after_stop_lastSend :
    ((machine (SpinSpscQueue slots128)).collect sent
      ((machine (SpinSpscQueue slots128)).final stopInPop stopInPop_goes) lastSend).length = 1 ∧
    ((machine (SpinSpscQueue slots128)).collect sent
      ((machine (SpinSpscQueue slots128)).final stopInPop stopInPop_goes) lastSend).length ≤ 1 := by
  refine ⟨by decide +kernel, ?_⟩
  obtain ⟨s', hs'⟩ := Option.isSome_iff_exists.mp lastSend_goes
  exact (sent_after_stop slots128).1 stopInPop _ (Machine.exec_final stopInPop_goes)
    (by decide +kernel) lastSend s' hs' (by simp [lastSend, disseminatorSteps])

/-- A pop finds nothing and goes to sleep, and the callback of the stop request wakes it. -/
def stopAsleep : List Event :=
  [.startDisseminator] ++ disseminatorSteps 2 ++ List.replicate 10 .pop ++ [.callRequestStop] ++
    List.replicate 4 .requestStop

theorem stopAsleep_goes : ((machine (WaitableSpscQueue slots128)).run
    (machine (WaitableSpscQueue slots128)).init stopAsleep).isSome = true := by
  decide +kernel

/-- The stop finds a spinning pop past its test of the token, and a waitable one asleep. -/
theorem disseminator_stop_returns_runs :
    (∃ s, (machine (SpinSpscQueue slots128)).Exec stopInPop s ∧
      (step s .joinDisseminator).isSome = false ∧
      ∃ e, isWorker e = true ∧ (step s e).isSome = true) ∧
    ∃ s, (machine (WaitableSpscQueue slots128)).Exec stopAsleep s ∧
      (step s .joinDisseminator).isSome = false ∧
      ∃ e, isWorker e = true ∧ (step s e).isSome = true := by
  constructor
  · refine ⟨_, Machine.exec_final stopInPop_goes, by decide +kernel, ?_⟩
    have h := (disseminator_stop_returns slots128).1 stopInPop _
      (Machine.exec_final stopInPop_goes) (Machine.along_true _) (by decide +kernel) [] _ rfl
      (by simp)
    rcases h with hjoin | ⟨-, he⟩
    · exact absurd hjoin (by decide +kernel)
    · exact he
  · refine ⟨_, Machine.exec_final stopAsleep_goes, by decide +kernel, ?_⟩
    have h := (disseminator_stop_returns slots128).2 stopAsleep _
      (Machine.exec_final stopAsleep_goes) (Machine.along_of_alongFrom (by decide +kernel))
      (by decide +kernel) [] _ rfl (by simp)
    rcases h with hjoin | ⟨-, he⟩
    · exact absurd hjoin (by decide +kernel)
    · exact he

end Pipeline

end MarketData
