/-
What a step of the pipeline can do.

As in `QueueSteps`, each step function has its inversion here: the two loops, and the
pipeline around them, with the calls that find nothing to do.  What the generator's
calls do is said by cases, since `start` may throw or find a thread.
-/
import MarketData.Pipeline

namespace MarketData

open Lib

variable {W : Nat} {Q : QueueCode MarketDataMsg W}

/-! ### The steps of the two loops -/

namespace BaseGenerator

/-- The steps of `generation_loop`. -/
inductive Moves (g : State) (q : MarketDataQueue.State Q) (now : Nat) (msg : MarketDataMsg) :
    State → MarketDataQueue.State Q → Prop
  | begin (hpc : g.thread = some .begin) : Moves g q now msg (g.goto (.checkStop now)) q
  | test {nextTime : Nat} (hpc : g.thread = some (.checkStop nextTime)) :
      Moves g q now msg (g.goto (if g.stopRequested then .finished else .readClock nextTime)) q
  | clock {nextTime : Nat} (hpc : g.thread = some (.readClock nextTime)) :
      Moves g q now msg
        (g.goto (if nextTime ≤ now then .generate nextTime else .checkStop nextTime)) q
  | generate {nextTime : Nat} (hpc : g.thread = some (.generate nextTime)) :
      Moves g q now msg (g.goto (.retry nextTime (stamped now msg))) q
  | drop {nextTime : Nat} {m : MarketDataMsg} (hpc : g.thread = some (.retry nextTime m))
      (hstop : g.stopRequested = true) :
      Moves g q now msg (g.goto (.checkStop (nextTime + g.interval))) q
  | callPush {nextTime : Nat} {m : MarketDataMsg} {q' : MarketDataQueue.State Q}
      (hpc : g.thread = some (.retry nextTime m)) (hstop : g.stopRequested = false)
      (hq : MarketDataQueue.step q (.callPush m) = some q') :
      Moves g q now msg (g.goto (.pushing nextTime m)) q'
  | retPush {nextTime : Nat} {m : MarketDataMsg} {q' : MarketDataQueue.State Q} {ok : Bool}
      (hpc : g.thread = some (.pushing nextTime m)) (hret : q.prod.bind Q.pushRet = some ok)
      (hq : MarketDataQueue.step q .retPush = some q') :
      Moves g q now msg
        (g.goto (if ok then .checkStop (nextTime + g.interval) else .retry nextTime m)) q'

theorem moves_of_generationLoop {g g' : State} {q q' : MarketDataQueue.State Q} {now : Nat}
    {msg : MarketDataMsg} (h : generationLoop g q now msg = some (g', q')) :
    Moves g q now msg g' q' := by
  unfold generationLoop at h
  split at h
  · exact absurd h (by simp)
  · next hpc =>
      obtain ⟨rfl, rfl⟩ := Prod.mk.inj (Option.some.inj h)
      exact Moves.begin hpc
  · next hpc =>
      obtain ⟨rfl, rfl⟩ := Prod.mk.inj (Option.some.inj h)
      exact Moves.test hpc
  · next hpc =>
      obtain ⟨rfl, rfl⟩ := Prod.mk.inj (Option.some.inj h)
      exact Moves.clock hpc
  · next hpc =>
      obtain ⟨rfl, rfl⟩ := Prod.mk.inj (Option.some.inj h)
      exact Moves.generate hpc
  · next hpc =>
      by_cases hstop : g.stopRequested = true
      · rw [if_pos hstop] at h
        obtain ⟨rfl, rfl⟩ := Prod.mk.inj (Option.some.inj h)
        exact Moves.drop hpc hstop
      · rw [if_neg hstop] at h
        obtain ⟨q₁, hq, heq⟩ := Option.map_eq_some_iff.mp h
        obtain ⟨rfl, rfl⟩ := Prod.mk.inj heq
        exact Moves.callPush hpc (by simpa using hstop) hq
  · next hpc =>
      obtain ⟨ok, hret, hmap⟩ := Option.bind_eq_some_iff.mp h
      obtain ⟨q₁, hq, heq⟩ := Option.map_eq_some_iff.mp hmap
      obtain ⟨rfl, rfl⟩ := Prod.mk.inj heq
      exact Moves.retPush hpc hret hq
  · exact absurd h (by simp)

end BaseGenerator

namespace IDisseminator

/-- The steps of `run_loop`. -/
inductive Moves (q : MarketDataQueue.State Q) (uninitialised : Bytes topicHeaderSize) (now : Nat) :
    Pc → Pc → MarketDataQueue.State Q → Prop
  | begin : Moves q uninitialised now .begin (.callPop (startTopic uninitialised)) q
  | callPop {topic : Bytes topicHeaderSize} {q' : MarketDataQueue.State Q}
      (hq : MarketDataQueue.step q .callPop = some q') :
      Moves q uninitialised now (.callPop topic) (.popping topic) q'
  | popped {topic : Bytes topicHeaderSize} {msg : MarketDataMsg} {q' : MarketDataQueue.State Q}
      (hret : q.cons.bind Q.popRet = some (some msg))
      (hq : MarketDataQueue.step q .retPop = some q') :
      Moves q uninitialised now (.popping topic) (.stamp topic msg) q'
  | stopped {topic : Bytes topicHeaderSize} {q' : MarketDataQueue.State Q}
      (hret : q.cons.bind Q.popRet = some none)
      (hq : MarketDataQueue.step q .retPop = some q') :
      Moves q uninitialised now (.popping topic) .finished q'
  | stamp {topic : Bytes topicHeaderSize} {msg : MarketDataMsg} :
      Moves q uninitialised now (.stamp topic msg)
        (.send (writeTopic topic (msg.setDisseminateTimestamp (BitVec.ofNat 64 now)))
          (msg.setDisseminateTimestamp (BitVec.ofNat 64 now))) q
  | send {topic : Bytes topicHeaderSize} {msg : MarketDataMsg} :
      Moves q uninitialised now (.send topic msg) (.callPop topic) q

theorem moves_of_runLoopStep {pc pc' : Pc} {q q' : MarketDataQueue.State Q}
    {uninitialised : Bytes topicHeaderSize} {now : Nat}
    (h : runLoopStep pc q uninitialised now = some (pc', q')) :
    Moves q uninitialised now pc pc' q' := by
  cases pc with
  | begin =>
      obtain ⟨rfl, rfl⟩ := Prod.mk.inj (Option.some.inj h)
      exact Moves.begin
  | callPop topic =>
      obtain ⟨q₁, hq, heq⟩ := Option.map_eq_some_iff.mp h
      obtain ⟨rfl, rfl⟩ := Prod.mk.inj heq
      exact Moves.callPop hq
  | popping topic =>
      obtain ⟨res, hret, hmap⟩ := Option.bind_eq_some_iff.mp h
      obtain ⟨q₁, hq, heq⟩ := Option.map_eq_some_iff.mp hmap
      cases res with
      | some msg =>
          obtain ⟨rfl, rfl⟩ := Prod.mk.inj heq
          exact Moves.popped hret hq
      | none =>
          obtain ⟨rfl, rfl⟩ := Prod.mk.inj heq
          exact Moves.stopped hret hq
  | stamp topic msg =>
      obtain ⟨rfl, rfl⟩ := Prod.mk.inj (Option.some.inj h)
      exact Moves.stamp
  | send topic msg =>
      obtain ⟨rfl, rfl⟩ := Prod.mk.inj (Option.some.inj h)
      exact Moves.send
  | finished => exact absurd h (by simp [runLoopStep])

end IDisseminator

namespace Pipeline

open BaseGenerator IDisseminator

variable {s s' : State Q} {e : Event}

/-- The access of the queue that an event stands for. -/
def inQueue : Event → Option (MarketDataQueue.Event MarketDataMsg)
  | .push => some .push
  | .callRequestStop => some .callRequestStop
  | .requestStop => some .requestStop
  | .pop => some .pop
  | .spurious => some .spurious
  | _ => none

/-- A call of `start` or `stop` on the disseminator. -/
def onDisseminator : Event → Bool
  | .startDisseminator => true
  | .callRequestStop => true
  | .joinDisseminator => true
  | _ => false

/-- The steps of the pipeline.  `idle` is a call on the disseminator that finds nothing
to do. -/
inductive Moves (s : State Q) : Event → State Q → Prop
  | setRate (r : BitVec 32) :
      Moves s (.setRate r)
        { s with generator := afterCall s.generator (BaseGenerator.setRate s.generator r) }
  | startGenerator :
      Moves s .startGenerator
        { s with generator := afterCall s.generator (BaseGenerator.start s.generator) }
  | requestStopGenerator :
      Moves s .requestStopGenerator
        { s with generator := BaseGenerator.requestStop s.generator }
  | joinGenerator {g' : BaseGenerator.State} (hg : BaseGenerator.join s.generator = some g') :
      Moves s .joinGenerator { s with generator := g' }
  | generator {now : Nat} {msg : MarketDataMsg} {g' : BaseGenerator.State}
      {q' : MarketDataQueue.State Q} (h : BaseGenerator.Moves s.generator s.queue now msg g' q') :
      Moves s (.generator now msg) { s with generator := g', queue := q' }
  | access {e : Event} {qe : MarketDataQueue.Event MarketDataMsg}
      {q' : MarketDataQueue.State Q} (he : inQueue e = some qe)
      (hq : MarketDataQueue.step s.queue qe = some q') : Moves s e (s.withQueue q')
  | startDisseminator (hworker : s.worker = none) :
      Moves s .startDisseminator
        { s with worker := some .begin,
                 queue := { s.queue with stop := StopState.initial, stopper := none } }
  | joinDisseminator (hworker : s.worker = some .finished)
      (hstop : s.queue.stopper = some .done) : Moves s .joinDisseminator { s with worker := none }
  | idle {e : Event} (he : onDisseminator e = true) : Moves s e s
  | disseminator {u : Bytes topicHeaderSize} {now : Nat} {pc pc' : IDisseminator.Pc}
      {q' : MarketDataQueue.State Q} (hworker : s.worker = some pc)
      (h : IDisseminator.Moves s.queue u now pc pc' q') :
      Moves s (.disseminator u now) { s with worker := some pc', queue := q' }

theorem moves_of_startDisseminator : Moves s .startDisseminator (startDisseminator s) := by
  unfold startDisseminator
  split
  · exact Moves.idle rfl
  · next hworker => exact Moves.startDisseminator hworker

theorem moves_of_callRequestStop (h : callRequestStop s = some s') :
    Moves s .callRequestStop s' := by
  unfold callRequestStop at h
  split at h
  · obtain rfl := Option.some.inj h
    exact Moves.idle rfl
  · obtain ⟨q', hq, rfl⟩ := Option.map_eq_some_iff.mp h
    exact Moves.access rfl hq

theorem moves_of_joinDisseminator (h : joinDisseminator s = some s') :
    Moves s .joinDisseminator s' := by
  unfold joinDisseminator at h
  split at h
  · obtain rfl := Option.some.inj h
    exact Moves.idle rfl
  · next hworker =>
      split at h
      · next hstop => exact Option.some.inj h ▸ Moves.joinDisseminator hworker hstop
      · exact absurd h (by simp)
  · exact absurd h (by simp)

theorem moves_of_step (h : step s e = some s') : Moves s e s' := by
  cases e with
  | setRate r => exact Option.some.inj h ▸ Moves.setRate r
  | startGenerator => exact Option.some.inj h ▸ Moves.startGenerator
  | requestStopGenerator => exact Option.some.inj h ▸ Moves.requestStopGenerator
  | joinGenerator =>
      obtain ⟨g', hg, rfl⟩ := Option.map_eq_some_iff.mp h
      exact Moves.joinGenerator hg
  | generator now msg =>
      obtain ⟨⟨g', q'⟩, hg, rfl⟩ := Option.map_eq_some_iff.mp h
      exact Moves.generator (moves_of_generationLoop hg)
  | push =>
      obtain ⟨q', hq, rfl⟩ := Option.map_eq_some_iff.mp h
      exact Moves.access rfl hq
  | startDisseminator => exact Option.some.inj h ▸ moves_of_startDisseminator
  | callRequestStop => exact moves_of_callRequestStop h
  | requestStop =>
      obtain ⟨q', hq, rfl⟩ := Option.map_eq_some_iff.mp h
      exact Moves.access rfl hq
  | joinDisseminator => exact moves_of_joinDisseminator h
  | disseminator u now =>
      obtain ⟨pc, hworker, hstep⟩ := Option.bind_eq_some_iff.mp h
      obtain ⟨⟨pc', q'⟩, hpc, rfl⟩ := Option.map_eq_some_iff.mp hstep
      exact Moves.disseminator hworker (moves_of_runLoopStep hpc)
  | pop =>
      obtain ⟨q', hq, rfl⟩ := Option.map_eq_some_iff.mp h
      exact Moves.access rfl hq
  | spurious =>
      have hmap : (MarketDataQueue.step s.queue .spurious).map s.withQueue = some s' := h
      obtain ⟨q', hq, rfl⟩ := Option.map_eq_some_iff.mp hmap
      exact Moves.access rfl hq

/-- An access of the queue, and a call on the disseminator, leaves no mark and sends
nothing. -/
theorem unseen (h : (inQueue e).isSome = true ∨ onDisseminator e = true) :
    mark s e = none ∧ sent s e = none := by
  cases e with
  | setRate r => simp [inQueue, onDisseminator] at h
  | startGenerator => simp [inQueue, onDisseminator] at h
  | requestStopGenerator => simp [inQueue, onDisseminator] at h
  | joinGenerator => simp [inQueue, onDisseminator] at h
  | generator now msg => simp [inQueue, onDisseminator] at h
  | disseminator u now => simp [inQueue, onDisseminator] at h
  | _ => exact ⟨rfl, rfl⟩

/-! ### Calls on the generator -/

/-- Setting the rate does not touch the thread. -/
theorem setRate_frame (g : BaseGenerator.State) (r : BitVec 32) :
    (afterCall g (setRate g r)).thread = g.thread ∧
      (afterCall g (setRate g r)).stopRequested = g.stopRequested := by
  unfold setRate
  by_cases hr : r < 1
  · rw [if_pos hr]
    exact ⟨rfl, rfl⟩
  · rw [if_neg hr]
    exact ⟨rfl, rfl⟩

/-- A call of `start` creates a thread, or leaves the generator as it is. -/
theorem start_cases (g : BaseGenerator.State) :
    (startMark g = some .started ∧ g.thread = none ∧
        afterCall g (start g) = { g with stopRequested := false, thread := some .begin }) ∨
      (startMark g = none ∧ afterCall g (start g) = g) := by
  unfold startMark start
  by_cases hrate : g.messagesPerSec = 0
  · rw [if_pos hrate, if_pos hrate]
    exact Or.inr ⟨rfl, rfl⟩
  · rw [if_neg hrate, if_neg hrate]
    rcases hthread : g.thread with _ | pc
    · exact Or.inl ⟨rfl, rfl, rfl⟩
    · exact Or.inr ⟨rfl, rfl⟩

theorem requestStop_cases (g : BaseGenerator.State) :
    (g.thread = none ∧ requestStop g = g) ∨
      ∃ pc, g.thread = some pc ∧ requestStop g = { g with stopRequested := true } := by
  unfold requestStop
  rcases hthread : g.thread with _ | pc
  · exact Or.inl ⟨rfl, rfl⟩
  · exact Or.inr ⟨pc, rfl, rfl⟩

theorem join_cases {g g' : BaseGenerator.State} (h : join g = some g') :
    g' = g ∨ g.thread = some .finished ∧ g' = { g with thread := none } := by
  unfold join at h
  split at h
  · exact Or.inl (Option.some.inj h).symm
  · next hthread => exact Or.inr ⟨hthread, (Option.some.inj h).symm⟩
  · exact absurd h (by simp)

end Pipeline

end MarketData
