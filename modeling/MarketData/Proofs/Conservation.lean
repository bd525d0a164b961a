/-
From the generator to `send_impl`, nothing is lost, repeated or reordered.

`pipeline` lists the messages on their way, in order: the one the disseminator has
popped, what flows through the queue, and the one the generator holds between two
tries.  A step of any thread moves messages along this list (`step_flow`): a generated
message enters at the end, a sent one leaves at the front, and a dropped one leaves
at the end.  What happens inside the queue is `Fifo.flow_step`; so the argument is
the same for both queue classes, and it does not matter where in their loops the
threads are stopped and started again.

On the other side are the histories of the generator's sessions (`step_sessions`).
The loop drops a message only when it has seen the stop request, and then it leaves,
so a dropped message is the last one of its session.
-/
import MarketData.Proofs.Fifo
import MarketData.Proofs.PipelineSteps

namespace MarketData

open Lib

variable {W : Nat} {N : Capacity W} {Q : QueueCode MarketDataMsg W}

namespace Pipeline

open BaseGenerator IDisseminator

variable {s s' : State Q} {e : Event}

theorem isAccess_of_inQueue {qe : MarketDataQueue.Event MarketDataMsg}
    (h : inQueue e = some qe) : Fifo.isAccess qe = true := by
  cases e <;> simp only [inQueue, Option.some.injEq, reduceCtorEq] at h <;> rw [← h] <;> rfl

/-! ### Messages on their way -/

/-- The message up to its disseminate stamp. -/
def unstamped (msg : MarketDataMsg) : MarketDataMsg := msg.setDisseminateTimestamp 0

@[simp] theorem unstamped_setDisseminateTimestamp (ts : BitVec 64) (msg : MarketDataMsg) :
    unstamped (msg.setDisseminateTimestamp ts) = unstamped msg := by
  cases msg <;> rfl

/-- The message the worker has got from `pop` and not passed on. -/
def holding : Option IDisseminator.Pc → List MarketDataMsg
  | some (.stamp _ msg) => [msg]
  | some (.send _ msg) => [msg]
  | _ => []

/-- The message the generator holds between two tries. -/
def retrying : Option BaseGenerator.Pc → List MarketDataMsg
  | some (.retry _ msg) => [msg]
  | _ => []

/-- The message the generator has passed to `push`. -/
def pushing : Option BaseGenerator.Pc → List MarketDataMsg
  | some (.pushing _ msg) => [msg]
  | _ => []

def popping : Option IDisseminator.Pc → Bool
  | some (.popping _) => true
  | _ => false

variable (F : Fifo N Q)

/-- All messages on their way, the oldest first. -/
def pipeline (s : State Q) : List MarketDataMsg :=
  holding s.worker ++ F.flow s.queue ++ retrying s.generator.thread

/-- Where the two loops are agrees with the calls in progress. -/
structure Coupled (s : State Q) : Prop where
  inv : F.Inv s.queue
  tries : F.trying s.queue.prod <:+ pushing s.generator.thread
  notPushing : pushing s.generator.thread = [] → s.queue.prod = none
  notPopping : popping s.worker = false → s.queue.cons = none

theorem Coupled.initial : Coupled F (machine Q).init where
  inv := F.inv_initial
  tries := List.suffix_rfl
  notPushing _ := rfl
  notPopping _ := rfl

/-- What a step adds to the messages generated. -/
def madeBy : Option Mark → List MarketDataMsg
  | some (.generated msg) => [msg]
  | _ => []

/-- What a step adds to the messages dropped. -/
def droppedBy : Option Mark → List MarketDataMsg
  | some (.dropped msg) => [msg]
  | _ => []

variable {F}

/-- An access inside a call moves nothing in or out. -/
theorem Coupled.access {qe : MarketDataQueue.Event MarketDataMsg} {q' : MarketDataQueue.State Q}
    (hc : Coupled F s) (hq : MarketDataQueue.step s.queue qe = some q')
    (he : Fifo.isAccess qe = true) :
    Coupled F (s.withQueue q') ∧ pipeline F s = pipeline F (s.withQueue q') := by
  obtain ⟨hinv, hflow⟩ := F.flow_access hc.inv hq he
  obtain ⟨hprod, htrying, hcons⟩ := F.calls_access hc.inv hq he
  refine ⟨⟨hinv, htrying.trans hc.tries, fun h => hprod (hc.notPushing h),
    fun h => hcons (hc.notPopping h)⟩, ?_⟩
  show holding s.worker ++ F.flow s.queue ++ retrying s.generator.thread =
    holding s.worker ++ F.flow q' ++ retrying s.generator.thread
  rw [hflow]

/-- A call on the generator moves nothing in or out. -/
theorem Coupled.call (hc : Coupled F s) (g' : BaseGenerator.State)
    (hretrying : retrying g'.thread = retrying s.generator.thread)
    (hpushing : pushing g'.thread = pushing s.generator.thread) :
    Coupled F { s with generator := g' } ∧
      pipeline F s = pipeline F { s with generator := g' } := by
  refine ⟨⟨hc.inv, ?_, ?_, hc.notPopping⟩, ?_⟩
  · show F.trying s.queue.prod <:+ pushing g'.thread
    rw [hpushing]
    exact hc.tries
  · show pushing g'.thread = [] → s.queue.prod = none
    rw [hpushing]
    exact hc.notPushing
  · show holding s.worker ++ F.flow s.queue ++ retrying s.generator.thread =
      holding s.worker ++ F.flow s.queue ++ retrying g'.thread
    rw [hretrying]

/-- The generator's loop moves its message towards the queue. -/
theorem Coupled.generationLoop {g' : BaseGenerator.State} {q' : MarketDataQueue.State Q}
    {now : Nat} {msg : MarketDataMsg} (hc : Coupled F s)
    (h : BaseGenerator.Moves s.generator s.queue now msg g' q') :
    Coupled F { s with generator := g', queue := q' } ∧
      pipeline F s ++ madeBy (loopMark s.generator now msg) =
        pipeline F { s with generator := g', queue := q' } ++
          droppedBy (loopMark s.generator now msg) := by
  unfold loopMark
  cases h with
  | begin hpc =>
      rw [hpc]
      obtain ⟨hc', heq⟩ := hc.call (s.generator.goto (.checkStop now)) (by rw [hpc]; rfl)
        (by rw [hpc]; rfl)
      exact ⟨hc', congrArg (· ++ []) heq⟩
  | @test nextTime hpc =>
      rw [hpc]
      obtain ⟨hc', heq⟩ := hc.call
        (s.generator.goto (if s.generator.stopRequested then .finished else .readClock nextTime))
        (by rw [hpc]; cases s.generator.stopRequested <;> rfl)
        (by rw [hpc]; cases s.generator.stopRequested <;> rfl)
      exact ⟨hc', congrArg (· ++ []) heq⟩
  | @clock nextTime hpc =>
      rw [hpc]
      obtain ⟨hc', heq⟩ := hc.call
        (s.generator.goto (if nextTime ≤ now then .generate nextTime else .checkStop nextTime))
        (by rw [hpc]; by_cases htime : nextTime ≤ now <;> simp [htime, State.goto, retrying])
        (by rw [hpc]; by_cases htime : nextTime ≤ now <;> simp [htime, State.goto, pushing])
      exact ⟨hc', congrArg (· ++ []) heq⟩
  | generate hpc =>
      have htries := hc.tries
      have hprod := hc.notPushing
      rw [hpc] at htries hprod
      refine ⟨⟨hc.inv, htries, hprod, hc.notPopping⟩, ?_⟩
      unfold pipeline
      rw [hpc]
      simp [madeBy, droppedBy, retrying, State.goto]
  | drop hpc hstop =>
      have htries := hc.tries
      have hprod := hc.notPushing
      rw [hpc] at htries hprod
      refine ⟨⟨hc.inv, htries, hprod, hc.notPopping⟩, ?_⟩
      unfold pipeline
      rw [hpc]
      simp [madeBy, droppedBy, retrying, State.goto, hstop]
  | callPush hpc hstop hq =>
      obtain ⟨hinv, hflow, htrying, hcons⟩ := F.flow_callPush hc.inv hq
      refine ⟨⟨hinv, ?_, ?_, ?_⟩, ?_⟩
      · rw [htrying]
        exact List.suffix_rfl
      · intro hnone
        exact absurd hnone (by simp [State.goto, pushing])
      · intro hpop
        rw [hcons]
        exact hc.notPopping hpop
      · unfold pipeline
        rw [hpc, ← hflow]
        simp [madeBy, droppedBy, retrying, State.goto, hstop]
  | @retPush nextTime m q' ok hpc hret hq =>
      obtain ⟨hinv, hflow, hok, hprod, hcons⟩ := F.flow_retPush hc.inv hq hret
      have htries := hc.tries
      rw [hpc] at htries
      refine ⟨⟨hinv, ?_, fun _ => hprod, ?_⟩, ?_⟩
      · rw [hprod]
        exact List.nil_suffix
      · intro hpop
        rw [hcons]
        exact hc.notPopping hpop
      · unfold pipeline
        rw [hpc, hflow]
        cases ok with
        | true =>
            rw [hok.mp rfl]
            simp [madeBy, droppedBy, retrying, State.goto]
        | false =>
            -- A push that fails still has the message it was called with.
            have hne : F.trying s.queue.prod ≠ [] := fun hnil => by simpa using hok.mpr hnil
            have hmsg : F.trying s.queue.prod = [m] := by
              rcases List.suffix_cons_iff.mp htries with heq | hnil
              · exact heq
              · exact absurd (List.suffix_nil.mp hnil) hne
            rw [hmsg]
            simp [madeBy, droppedBy, retrying, State.goto]

/-- The disseminator's side moves on, and leaves the push in progress alone. -/
theorem Coupled.withWorker {worker : Option IDisseminator.Pc} {q' : MarketDataQueue.State Q}
    (hc : Coupled F s) (hinv : F.Inv q') (hprod : q'.prod = s.queue.prod)
    (hcons : popping worker = false → q'.cons = none) :
    Coupled F { s with worker := worker, queue := q' } := by
  refine ⟨hinv, ?_, ?_, hcons⟩
  · rw [hprod]
    exact hc.tries
  · intro hnone
    rw [hprod]
    exact hc.notPushing hnone

/-- The disseminator's loop moves its message from the queue to `send_impl`. -/
theorem Coupled.runLoop {pc pc' : IDisseminator.Pc} {q' : MarketDataQueue.State Q}
    {u : Bytes topicHeaderSize} {now : Nat} (hc : Coupled F s) (hworker : s.worker = some pc)
    (h : IDisseminator.Moves s.queue u now pc pc' q') :
    Coupled F { s with worker := some pc', queue := q' } ∧
      (pipeline F s).map unstamped = ((sent s (.disseminator u now)).toList ++
        pipeline F { s with worker := some pc', queue := q' }).map unstamped := by
  have hpop := hc.notPopping
  rw [hworker] at hpop
  unfold pipeline
  simp only [sent, hworker]
  cases h with
  | begin => exact ⟨hc.withWorker hc.inv rfl fun _ => hpop rfl, rfl⟩
  | callPop hq =>
      obtain ⟨hinv, hflow, hprod⟩ := F.flow_callPop hc.inv hq
      refine ⟨hc.withWorker hinv hprod fun hfalse => absurd hfalse (by simp [popping]), ?_⟩
      rw [hflow]
      rfl
  | popped hret hq =>
      obtain ⟨hinv, hflow, hprod, hcons⟩ := F.flow_retPop hc.inv hq hret
      refine ⟨hc.withWorker hinv hprod fun _ => hcons, ?_⟩
      rw [hflow]
      rfl
  | stopped hret hq =>
      obtain ⟨hinv, hflow, hprod, hcons⟩ := F.flow_retPop hc.inv hq hret
      refine ⟨hc.withWorker hinv hprod fun _ => hcons, ?_⟩
      rw [hflow]
      rfl
  | stamp =>
      refine ⟨hc.withWorker hc.inv rfl fun _ => hpop rfl, ?_⟩
      simp [holding]
  | send => exact ⟨hc.withWorker hc.inv rfl fun _ => hpop rfl, rfl⟩

/-! ### One step -/

/-- **One step moves messages along.**  What was on its way plus what is generated is
what is sent, what is on its way and what is dropped, in this order. -/
theorem step_flow (hc : Coupled F s) (hs : step s e = some s') :
    Coupled F s' ∧ (pipeline F s ++ madeBy (mark s e)).map unstamped =
      ((sent s e).toList ++ pipeline F s' ++ droppedBy (mark s e)).map unstamped := by
  -- A step without marks that moves nothing in or out.
  have hquiet : ∀ t, Coupled F t ∧ pipeline F s = pipeline F t → Coupled F t ∧
      (pipeline F s ++ []).map unstamped = ([] ++ pipeline F t ++ []).map unstamped := by
    rintro t ⟨hct, heq⟩
    exact ⟨hct, by rw [heq, List.nil_append]⟩
  cases moves_of_step hs with
  | setRate r =>
      have hthread := (setRate_frame s.generator r).1
      exact hquiet _ (hc.call _ (by rw [hthread]) (by rw [hthread]))
  | startGenerator =>
      rcases start_cases s.generator with ⟨hmark, hnone, heq⟩ | ⟨hmark, heq⟩
      · simp only [mark, hmark, heq]
        exact hquiet _ (hc.call _ (by rw [hnone]; rfl) (by rw [hnone]; rfl))
      · simp only [mark, hmark, heq]
        exact hquiet _ ⟨hc, rfl⟩
  | requestStopGenerator =>
      rcases requestStop_cases s.generator with ⟨hnone, heq⟩ | ⟨pc, hpc, heq⟩
      · simp only [mark, hnone, heq]
        exact hquiet _ ⟨hc, rfl⟩
      · simp only [mark, hpc, heq]
        exact hquiet _ (hc.call _ (by rw [hpc]) (by rw [hpc]))
  | joinGenerator hg =>
      rcases join_cases hg with rfl | ⟨hpc, rfl⟩
      · exact hquiet _ ⟨hc, rfl⟩
      · exact hquiet _ (hc.call _ (by rw [hpc]; rfl) (by rw [hpc]; rfl))
  | generator h =>
      obtain ⟨hc', heq⟩ := hc.generationLoop h
      exact ⟨hc', congrArg (List.map unstamped) heq⟩
  | access he hq =>
      obtain ⟨hmark, hsent⟩ := unseen (s := s) (Or.inl (by rw [he]; rfl))
      rw [hmark, hsent]
      exact hquiet _ (hc.access hq (isAccess_of_inQueue he))
  | startDisseminator hworker =>
      have hpop := hc.notPopping
      rw [hworker] at hpop
      refine hquiet _ ⟨hc.withWorker hc.inv rfl fun _ => hpop rfl, ?_⟩
      unfold pipeline
      rw [hworker]
      rfl
  | joinDisseminator hworker _ =>
      have hpop := hc.notPopping
      rw [hworker] at hpop
      refine hquiet _ ⟨hc.withWorker hc.inv rfl fun _ => hpop rfl, ?_⟩
      unfold pipeline
      rw [hworker]
      rfl
  | idle he =>
      obtain ⟨hmark, hsent⟩ := unseen (s := s) (Or.inr he)
      rw [hmark, hsent]
      exact hquiet _ ⟨hc, rfl⟩
  | disseminator hworker h =>
      obtain ⟨hc', heq⟩ := hc.runLoop hworker h
      refine ⟨hc', ?_⟩
      show (pipeline F s ++ []).map unstamped = _
      rw [List.append_nil, heq]
      exact congrArg _ (List.append_nil _).symm

/-! ### The generator's sessions -/

/-- A session drops at most its last message, and only if it has been asked to stop. -/
structure Session.WellFormed (x : Session) : Prop where
  dropped_last : x.generated = x.kept ++ x.dropped
  dropped_le : x.dropped.length ≤ 1
  stopped_of_dropped : x.dropped ≠ [] → x.stopRequested = true

theorem Session.kept_of_append {x : Session} {k : List MarketDataMsg}
    (h : x.generated = k ++ x.dropped) : x.kept = k := by
  unfold Session.kept
  rw [h, List.length_append, Nat.add_sub_cancel]
  exact List.take_left

theorem Session.kept_of_no_dropped {x : Session} (h : x.dropped = []) : x.kept = x.generated :=
  Session.kept_of_append (by rw [h, List.append_nil])

/-- The latest session of a generator whose thread is at a program counter. -/
def Session.Fits (x : Session) : BaseGenerator.Pc → Prop
  | .readClock _ => x.dropped = []
  | .generate _ => x.dropped = []
  | .retry _ msg => x.dropped = [] ∧ ∃ k, x.generated = k ++ [msg]
  | .pushing _ msg => x.dropped = [] ∧ ∃ k, x.generated = k ++ [msg]
  | _ => True

/-- The histories agree with the generator. -/
structure Tracked (g : BaseGenerator.State) (ss : Sessions) : Prop where
  wellFormed : ∀ x ∈ ss.all, x.WellFormed
  latest : ∀ pc, g.thread = some pc →
    ∃ x, ss.latest = some x ∧ x.stopRequested = g.stopRequested ∧ x.Fits pc

/-- The messages of all sessions, without the dropped ones. -/
def Sessions.kept (ss : Sessions) : List MarketDataMsg := ss.all.flatMap Session.kept

/-- Write the mark of a step down. -/
def Sessions.note (ss : Sessions) : Option Mark → Sessions
  | some m => ss.record m
  | none => ss

theorem Sessions.all_of_latest {ss : Sessions} {x : Session} (h : ss.latest = some x) :
    ss.all = ss.past ++ [x] := by
  unfold Sessions.all
  rw [h]
  rfl

theorem Sessions.all_setLatest (ss : Sessions) (x : Session) :
    ({ ss with latest := some x } : Sessions).all = ss.past ++ [x] := rfl

/-- The latest session changes. -/
theorem Tracked.setLatest {g g' : BaseGenerator.State} {ss : Sessions} {x x' : Session}
    (ht : Tracked g ss) (hx : ss.latest = some x) (hwf : x'.WellFormed)
    (hstop : x'.stopRequested = g'.stopRequested)
    (hfits : ∀ pc, g'.thread = some pc → x'.Fits pc) :
    Tracked g' { ss with latest := some x' } := by
  refine ⟨?_, fun pc hpc => ⟨x', rfl, hstop, hfits pc hpc⟩⟩
  intro y hy
  rw [Sessions.all_setLatest] at hy
  rcases List.mem_append.mp hy with hpast | hlast
  · refine ht.wellFormed y ?_
    rw [Sessions.all_of_latest hx]
    exact List.mem_append_left _ hpast
  · rw [List.mem_singleton.mp hlast]
    exact hwf

theorem Sessions.kept_setLatest {ss : Sessions} {x : Session} (h : ss.latest = some x)
    (x' : Session) : ss.kept = ss.past.flatMap Session.kept ++ x.kept ∧
      ({ ss with latest := some x' } : Sessions).kept =
        ss.past.flatMap Session.kept ++ x'.kept := by
  unfold Sessions.kept
  rw [Sessions.all_of_latest h, Sessions.all_setLatest]
  simp

/-- The thread moves on, and its session stays as it is. -/
theorem Tracked.goto {g : BaseGenerator.State} {ss : Sessions} {pc pc' : BaseGenerator.Pc}
    (ht : Tracked g ss) (hpc : g.thread = some pc)
    (hfits : ∀ x : Session, x.WellFormed → x.stopRequested = g.stopRequested → x.Fits pc →
      x.Fits pc') : Tracked (g.goto pc') ss := by
  obtain ⟨x, hx, hstop, hfit⟩ := ht.latest pc hpc
  refine ⟨ht.wellFormed, ?_⟩
  intro pc₁ hpc₁
  obtain rfl := Option.some.inj hpc₁
  have hwf : x.WellFormed := ht.wellFormed x (by rw [Sessions.all_of_latest hx]; simp)
  exact ⟨x, hx, hstop, hfits x hwf hstop hfit⟩

/-- The generator's loop extends the latest session. -/
theorem Tracked.generationLoop {g g' : BaseGenerator.State} {q q' : MarketDataQueue.State Q}
    {now : Nat} {msg : MarketDataMsg} {ss : Sessions} (ht : Tracked g ss)
    (h : BaseGenerator.Moves g q now msg g' q') :
    Tracked g' (ss.note (loopMark g now msg)) ∧
      ss.kept ++ madeBy (loopMark g now msg) =
        (ss.note (loopMark g now msg)).kept ++ droppedBy (loopMark g now msg) := by
  unfold loopMark
  cases h with
  | begin hpc =>
      rw [hpc]
      exact ⟨ht.goto hpc fun x _ _ _ => trivial, rfl⟩
  | test hpc =>
      rw [hpc]
      refine ⟨ht.goto hpc fun x hwf hstop _ => ?_, rfl⟩
      by_cases hreq : g.stopRequested = true
      · rw [if_pos hreq]
        trivial
      · rw [if_neg hreq]
        by_contra hne
        exact hreq (hstop ▸ hwf.stopped_of_dropped hne)
  | @clock nextTime hpc =>
      rw [hpc]
      refine ⟨ht.goto hpc fun x _ _ hfits => ?_, rfl⟩
      by_cases htime : nextTime ≤ now
      · rw [if_pos htime]
        exact hfits
      · rw [if_neg htime]
        trivial
  | @generate nextTime hpc =>
      rw [hpc]
      obtain ⟨x, hx, hstop, hnone⟩ := ht.latest _ hpc
      have hdropped : x.dropped = [] := hnone
      have hss : ss.record (.generated (stamped now msg)) = { ss with
          latest := some { x with generated := x.generated ++ [stamped now msg] } } := by
        unfold Sessions.record
        rw [hx]
        rfl
      have hkept := Session.kept_of_no_dropped
        (x := { x with generated := x.generated ++ [stamped now msg] }) hdropped
      constructor
      · show Tracked (g.goto (.retry nextTime (stamped now msg)))
          (ss.record (.generated (stamped now msg)))
        rw [hss]
        refine ht.setLatest hx ⟨?_, ?_, ?_⟩ hstop ?_
        · rw [hkept, hdropped, List.append_nil]
        · rw [hdropped]
          exact Nat.zero_le _
        · intro hne
          exact absurd hdropped hne
        · intro pc' hpc'
          obtain rfl := Option.some.inj hpc'
          exact ⟨hdropped, x.generated, rfl⟩
      · show ss.kept ++ [stamped now msg] =
          (ss.record (.generated (stamped now msg))).kept ++ []
        obtain ⟨hold, hnew⟩ := Sessions.kept_setLatest hx
          { x with generated := x.generated ++ [stamped now msg] }
        rw [hss, hnew, hold, hkept, Session.kept_of_no_dropped hdropped, List.append_nil,
          List.append_assoc]
  | @drop nextTime m hpc hstopped =>
      rw [hpc]
      obtain ⟨x, hx, hstop, hdropped, k, hk⟩ := ht.latest _ hpc
      have hss : ss.record (.dropped m) = { ss with
          latest := some { x with dropped := x.dropped ++ [m] } } := by
        unfold Sessions.record
        rw [hx]
        rfl
      have hlast : x.generated = k ++ (x.dropped ++ [m]) := by rw [hk, hdropped]; rfl
      have hkept := Session.kept_of_append (x := { x with dropped := x.dropped ++ [m] }) hlast
      simp only [hstopped, if_true]
      constructor
      · show Tracked (g.goto (.checkStop (nextTime + g.interval))) (ss.record (.dropped m))
        rw [hss]
        refine ht.setLatest hx ⟨?_, ?_, ?_⟩ hstop ?_
        · rw [hkept]
          exact hlast
        · rw [hdropped]
          exact Nat.le_refl _
        · intro _
          rw [hstop]
          exact hstopped
        · intro pc' hpc'
          obtain rfl := Option.some.inj hpc'
          trivial
      · show ss.kept ++ [] = (ss.record (.dropped m)).kept ++ [m]
        obtain ⟨hold, hnew⟩ := Sessions.kept_setLatest hx { x with dropped := x.dropped ++ [m] }
        rw [hss, hnew, hold, hkept, Session.kept_of_no_dropped hdropped, hk, List.append_nil,
          List.append_assoc]
  | callPush hpc hstopped hq =>
      rw [hpc]
      simp only [hstopped, Bool.false_eq_true, if_false]
      exact ⟨ht.goto hpc fun x _ _ hfits => hfits, rfl⟩
  | @retPush nextTime m q' ok hpc hret hq =>
      rw [hpc]
      refine ⟨ht.goto hpc fun x _ _ hfits => ?_, rfl⟩
      cases ok with
      | true => trivial
      | false => exact hfits

/-- A call that starts a session. -/
theorem Tracked.started {g : BaseGenerator.State} {ss : Sessions} (ht : Tracked g ss)
    (g' : BaseGenerator.State) (hthread : g'.thread = some .begin)
    (hstop : g'.stopRequested = false) :
    Tracked g' (ss.record .started) ∧ ss.kept = (ss.record .started).kept := by
  have hall : (ss.record .started).all = ss.all ++ [Session.start] := rfl
  refine ⟨⟨?_, ?_⟩, ?_⟩
  · intro x hx
    rw [hall] at hx
    rcases List.mem_append.mp hx with hold | hnew
    · exact ht.wellFormed x hold
    · rw [List.mem_singleton.mp hnew]
      exact ⟨rfl, Nat.zero_le _, fun hne => absurd rfl hne⟩
  · intro pc hpc
    obtain rfl := Option.some.inj (hthread.symm.trans hpc)
    exact ⟨Session.start, rfl, hstop.symm, trivial⟩
  · unfold Sessions.kept
    rw [hall, List.flatMap_append]
    exact (List.append_nil _).symm

/-- A call that asks the session to stop. -/
theorem Tracked.stopRequested {g : BaseGenerator.State} {ss : Sessions} {pc : BaseGenerator.Pc}
    (ht : Tracked g ss) (hpc : g.thread = some pc) :
    Tracked { g with stopRequested := true } (ss.record .stopRequested) ∧
      ss.kept = (ss.record .stopRequested).kept := by
  obtain ⟨x, hx, -, hfits⟩ := ht.latest pc hpc
  have hwf : x.WellFormed := ht.wellFormed x (by rw [Sessions.all_of_latest hx]; simp)
  have hss : ss.record .stopRequested =
      { ss with latest := some { x with stopRequested := true } } := by
    unfold Sessions.record
    rw [hx]
    rfl
  rw [hss]
  constructor
  · refine ht.setLatest hx ⟨hwf.dropped_last, hwf.dropped_le, fun _ => rfl⟩ rfl ?_
    intro pc' hpc'
    obtain rfl := Option.some.inj (hpc.symm.trans hpc')
    cases pc <;> exact hfits
  · obtain ⟨hold, hnew⟩ := Sessions.kept_setLatest hx { x with stopRequested := true }
    rw [hold, hnew]
    rfl

/-- **One step extends the histories** by what it generates and drops. -/
theorem step_sessions {ss : Sessions} (ht : Tracked s.generator ss) (hs : step s e = some s') :
    Tracked s'.generator (ss.note (mark s e)) ∧
      ss.kept ++ madeBy (mark s e) = (ss.note (mark s e)).kept ++ droppedBy (mark s e) := by
  cases moves_of_step hs with
  | setRate r =>
      obtain ⟨hthread, hstop⟩ := setRate_frame s.generator r
      refine ⟨⟨ht.wellFormed, ?_⟩, rfl⟩
      show ∀ pc, (afterCall s.generator (setRate s.generator r)).thread = some pc → ∃ x, _
      rw [hthread, hstop]
      exact ht.latest
  | startGenerator =>
      rcases start_cases s.generator with ⟨hmark, -, heq⟩ | ⟨hmark, heq⟩
      · simp only [mark, hmark, heq]
        obtain ⟨ht', hkept⟩ := ht.started
          { s.generator with stopRequested := false, thread := some .begin } rfl rfl
        exact ⟨ht', congrArg (· ++ []) hkept⟩
      · simp only [mark, hmark, heq]
        exact ⟨ht, rfl⟩
  | requestStopGenerator =>
      rcases requestStop_cases s.generator with ⟨hnone, heq⟩ | ⟨pc, hpc, heq⟩
      · simp only [mark, hnone, heq]
        exact ⟨ht, rfl⟩
      · obtain ⟨ht', hkept⟩ := ht.stopRequested hpc
        have hmark : mark s .requestStopGenerator = some .stopRequested := by simp [mark, hpc]
        rw [hmark]
        refine ⟨?_, congrArg (· ++ []) hkept⟩
        show Tracked (requestStop s.generator) (ss.record .stopRequested)
        rw [heq]
        exact ht'
  | joinGenerator hg =>
      rcases join_cases hg with rfl | ⟨-, rfl⟩
      · exact ⟨ht, rfl⟩
      · exact ⟨⟨ht.wellFormed, fun pc hpc => absurd hpc (by simp)⟩, rfl⟩
  | generator h => exact ht.generationLoop h
  | access he _ =>
      rw [(unseen (s := s) (Or.inl (by rw [he]; rfl))).1]
      exact ⟨ht, rfl⟩
  | idle he =>
      rw [(unseen (s := s) (Or.inr he)).1]
      exact ⟨ht, rfl⟩
  | startDisseminator _ => exact ⟨ht, rfl⟩
  | joinDisseminator _ _ => exact ⟨ht, rfl⟩
  | disseminator _ _ => exact ⟨ht, rfl⟩

/-! ### Along a run -/

theorem sessions_snoc {es : List Event} (hex : (machine Q).Exec es s)
    (hs : (machine Q).step s e = some s') :
    sessions Q (es ++ [e]) = (sessions Q es).note (mark s e) := by
  unfold sessions
  rw [Machine.log_snoc mark hex hs, List.foldl_append]
  cases mark s e <;> rfl

theorem pipeline_initial : pipeline F (machine Q).init = [] := by
  have hholds : F.Holds (machine Q).init.queue [] := QueueInv.initial
  have hflow : F.flow (machine Q).init.queue = [] := F.flow_eq hholds
  unfold pipeline
  rw [hflow]
  rfl

/-- What holds after every run. -/
structure RunInv (F : Fifo N Q) (es : List Event) (s : State Q) : Prop where
  coupled : Coupled F s
  tracked : Tracked s.generator (sessions Q es)
  conserved : (sessions Q es).kept.map unstamped =
    ((machine Q).log sent es ++ pipeline F s).map unstamped

theorem RunInv.of_exec {es : List Event} (h : (machine Q).Exec es s) : RunInv F es s := by
  refine Machine.Exec.induction (P := RunInv F) ⟨Coupled.initial F, ⟨?_, ?_⟩, ?_⟩ ?_ h
  · intro x hx
    exact absurd hx (by simp [sessions, Sessions.all])
  · intro pc hpc
    exact absurd hpc (by simp [machine, BaseGenerator.State.initial])
  · rw [pipeline_initial]
    rfl
  · intro es s e s' hex ih hs
    obtain ⟨hcoupled, hflow⟩ := step_flow ih.coupled hs
    obtain ⟨htracked, hkept⟩ := step_sessions ih.tracked hs
    have hsessions := sessions_snoc hex hs
    rw [← hsessions] at htracked hkept
    refine ⟨hcoupled, htracked, ?_⟩
    have hconserved := ih.conserved
    have hcancel : (sessions Q (es ++ [e])).kept.map unstamped ++
        (droppedBy (mark s e)).map unstamped =
          ((machine Q).log sent (es ++ [e]) ++ pipeline F s').map unstamped ++
            (droppedBy (mark s e)).map unstamped := by
      calc (sessions Q (es ++ [e])).kept.map unstamped ++ (droppedBy (mark s e)).map unstamped
          = ((sessions Q es).kept ++ madeBy (mark s e)).map unstamped := by
            rw [hkept, List.map_append]
        _ = ((machine Q).log sent es).map unstamped ++
              (pipeline F s ++ madeBy (mark s e)).map unstamped := by
            rw [List.map_append, hconserved]
            simp
        _ = ((machine Q).log sent (es ++ [e]) ++ pipeline F s').map unstamped ++
              (droppedBy (mark s e)).map unstamped := by
            rw [hflow, Machine.log_snoc sent hex hs]
            simp
    exact List.append_cancel_right hcancel

/-! ### Main result -/

variable (F)

/-- The message the disseminator has popped and not yet sent. -/
def popped (s : State Q) : List MarketDataMsg := holding s.worker ++ F.inHand s.queue.cons

/-- The message the generator is still trying to push. -/
def trying (s : State Q) : List MarketDataMsg :=
  F.trying s.queue.prod ++ retrying s.generator.thread

/-- What a run of the pipeline has generated and not dropped is what it has sent and
what is on its way, up to the disseminate stamp; and what its sessions have dropped. -/
structure Conserved (es : List Event) (s : State Q) : Prop where
  conserved : ((sessions Q es).all.flatMap Session.kept).map unstamped =
    ((machine Q).log sent es ++ popped F s ++ contents N s.queue.mem ++ trying F s).map unstamped
  popped_le : (popped F s).length ≤ 1
  trying_le : (trying F s).length ≤ 1
  dropped : ∀ x ∈ (sessions Q es).all, x.WellFormed

variable {F}

theorem Coupled.popped_le (hc : Coupled F s) : (popped F s).length ≤ 1 := by
  unfold popped
  by_cases hpop : popping s.worker = true
  · have hnone : holding s.worker = [] := by
      unfold popping at hpop
      split at hpop
      · next hworker =>
          rw [hworker]
          rfl
      · exact absurd hpop (by simp)
    rw [hnone, List.nil_append]
    rcases s.queue.cons with _ | c
    · exact Nat.zero_le _
    · exact F.inHand_le c
  · have hcons : s.queue.cons = none := hc.notPopping (by simpa using hpop)
    rw [hcons]
    show (holding s.worker ++ []).length ≤ 1
    rw [List.append_nil]
    unfold holding
    split <;> simp

theorem Coupled.trying_le (hc : Coupled F s) : (trying F s).length ≤ 1 := by
  unfold trying
  by_cases hpush : pushing s.generator.thread = []
  · rw [hc.notPushing hpush]
    show ([] ++ retrying s.generator.thread).length ≤ 1
    rw [List.nil_append]
    unfold retrying
    split <;> simp
  · have hnone : retrying s.generator.thread = [] := by
      unfold pushing at hpush
      split at hpush
      · next hthread =>
          rw [hthread]
          rfl
      · exact absurd rfl hpush
    rw [hnone, List.append_nil]
    rcases s.queue.prod with _ | p
    · exact Nat.zero_le _
    · exact F.pending_le p

theorem Conserved.of_exec {es : List Event} (h : (machine Q).Exec es s) : Conserved F es s := by
  have hinv : RunInv F es s := RunInv.of_exec h
  refine ⟨?_, hinv.coupled.popped_le, hinv.coupled.trying_le, hinv.tracked.wellFormed⟩
  have hconserved := hinv.conserved
  have hpipeline : pipeline F s = popped F s ++ contents N s.queue.mem ++ trying F s := by
    unfold pipeline popped trying Fifo.flow
    simp
  rw [hpipeline] at hconserved
  simpa [Sessions.kept] using hconserved

/-- **Messages are conserved from the generator to the transport.**  In every state
reached by a generator, a queue of either class and a disseminator, with any calls of
`start` and `stop`: the messages generated, without those dropped, are those passed to
`send_impl`, the one the disseminator has popped, the contents of the queue and the one
the generator is trying to push, in this order.  A session drops at most one message,
its last, and only after it has been asked to stop. -/
theorem messages_conserved (N : Capacity W) :
    (∀ es s, (machine (SpinSpscQueue N)).Exec es s → Conserved (spinFifo N) es s) ∧
    (∀ es s, (machine (WaitableSpscQueue N)).Exec es s → Conserved (waitableFifo N) es s) :=
  ⟨fun _ _ h => Conserved.of_exec h, fun _ _ h => Conserved.of_exec h⟩

/-! ### A run -/

/-- A message. -/
def sampleTrade : MarketDataMsg := .trade
  { symbol := Bytes.zero 8, price := 5, size := 6, enqueueTimestamp := 0,
    disseminateTimestamp := 0 }

/-- Some steps of the generator's loop. -/
def generatorSteps (n : Nat) : List Event := List.replicate n (.generator 1 sampleTrade)

def disseminatorSteps (n : Nat) : List Event := List.replicate n (.disseminator (Bytes.zero _) 9)

/-- The generator pushes one message and drops the next, since it is asked to stop; then
the disseminator starts and sends the first.  `pushes` and `pops` are the accesses that
`push` and `pop` make. -/
def dropRun (pushes pops : Nat) : List Event :=
  [.setRate 1000, .startGenerator] ++ generatorSteps 5 ++ List.replicate pushes .push ++
    [.generator 1 sampleTrade] ++ List.replicate 3 (.generator 2000000 sampleTrade) ++
    [.requestStopGenerator] ++ generatorSteps 2 ++ [.joinGenerator, .startDisseminator] ++
    disseminatorSteps 2 ++ List.replicate pops .pop ++ disseminatorSteps 3

theorem dropRun_spin : ((machine (SpinSpscQueue slots128)).run
    (machine (SpinSpscQueue slots128)).init (dropRun 4 7)).isSome = true := by
  decide +kernel

theorem dropRun_waitable : ((machine (WaitableSpscQueue slots128)).run
    (machine (WaitableSpscQueue slots128)).init (dropRun 6 9)).isSome = true := by
  decide +kernel

theorem messages_conserved_dropRun :
    (sessions (SpinSpscQueue slots128) (dropRun 4 7)).all.map (fun x => x.dropped.length) = [1] ∧
    ((machine (SpinSpscQueue slots128)).log sent (dropRun 4 7)).length = 1 ∧
    Conserved (spinFifo slots128) (dropRun 4 7)
      ((machine (SpinSpscQueue slots128)).final (dropRun 4 7) dropRun_spin) ∧
    Conserved (waitableFifo slots128) (dropRun 6 9)
      ((machine (WaitableSpscQueue slots128)).final (dropRun 6 9) dropRun_waitable) :=
  ⟨by decide +kernel, by decide +kernel,
    (messages_conserved slots128).1 _ _ (Machine.exec_final dropRun_spin),
    (messages_conserved slots128).2 _ _ (Machine.exec_final dropRun_waitable)⟩

end Pipeline

end MarketData
