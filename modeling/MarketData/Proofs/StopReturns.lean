/-
`BaseGenerator::stop` returns.

It requests the stop and joins, so it returns if the thread gets to the end of its
loop.  That is not up to the thread alone: the queue may be full, and then it retries
its push.  But the loop tests the token before each try, so a full queue holds it up
for one more push at most, and a push is a few accesses that nothing can block.

The number of steps the thread has left is read off its program counter and that of
the push it is in.  It is the `rank` of a `Machine.Progress`: each step of the thread
lowers it, and nobody else touches it.
-/
import MarketData.Lib.Progress
import MarketData.Proofs.Conservation

namespace MarketData

open Lib

variable {W : Nat} {N : Capacity W}

/-! ### How many accesses an operation has left -/

section Operations

variable {T : Type}

def PushPc.left : PushPc T W → Nat
  | .loadWrite _ => 4
  | .loadRead _ _ => 3
  | .construct _ _ => 2
  | .publish _ _ => 1
  | .done _ _ => 0

def PopPc.left : PopPc T W → Nat
  | .loadRead => 5
  | .loadWrite _ => 4
  | .move _ => 3
  | .destroy _ _ => 2
  | .publish _ _ => 1
  | .done _ => 0
  | .fault => 0

theorem PushPc.left_step {X : Type} {p : PushPc T W} {m : Mem T W} {x : X}
    {n : Instr.Next Loc (Cell T W) X (PushPc T W)} (h : (p.code N).sc m x = some n) :
    n.pc.left + 1 ≤ p.left := by
  cases p with
  | loadRead item w =>
      simp only [PushPc.code, Instr.sc_load, Option.some.injEq] at h
      subst h
      by_cases hfull : w - m .read_ = BitVec.ofNat W N.val
      · simp [hfull, left]
      · simp [hfull, left]
  | done item ok => simp [PushPc.code] at h
  | _ =>
      simp only [PushPc.code, Instr.sc_load, Instr.sc_store, Option.some.injEq] at h
      subst h
      simp [left]

theorem PopPc.left_step {X : Type} {p : PopPc T W} {m : Mem T W} {x : X}
    {n : Instr.Next Loc (Cell T W) X (PopPc T W)} (h : (p.code N).sc m x = some n) :
    n.pc.left + 1 ≤ p.left := by
  cases p with
  | loadWrite r =>
      simp only [PopPc.code, Instr.sc_load, Option.some.injEq] at h
      subst h
      by_cases hempty : r = m .write_
      · simp [hempty, left]
      · simp [hempty, left]
  | move r =>
      simp only [PopPc.code, Instr.sc_load, Option.some.injEq] at h
      subst h
      cases m (.data_ (r.toNat % N.val)) <;> simp [left]
  | done res => simp [PopPc.code] at h
  | fault => simp [PopPc.code] at h
  | _ =>
      simp only [PopPc.code, Instr.sc_load, Instr.sc_store, Option.some.injEq] at h
      subst h
      simp [left]

/-- A push that has not returned can make its next access. -/
theorem PushPc.enabled {X : Type} {p : PushPc T W} (h : p.left ≠ 0) (m : Mem T W) (x : X) :
    ∃ n, (p.code N).sc m x = some n := by
  cases p with
  | done item ok => exact absurd rfl h
  | _ => exact ⟨_, rfl⟩

/-- The calls of `push` of a queue class end, whatever the consumer does. -/
structure PushEnds (Q : QueueCode T W) where
  left : Q.PushPc → Nat
  bound : Nat
  left_le : ∀ p, left p ≤ bound
  step : ∀ {p m st n}, (Q.pushCode p).sc m st = some n → left n.pc + 1 ≤ left p
  enabled : ∀ {p}, Q.pushRet p = none → ∀ m st, ∃ n, (Q.pushCode p).sc m st = some n

def spinPushEnds (N : Capacity W) : PushEnds (SpinSpscQueue N : QueueCode T W) where
  left := PushPc.left
  bound := 4
  left_le p := by cases p <;> simp [PushPc.left]
  step h := PushPc.left_step h
  enabled := by
    intro p hret m st
    cases p with
    | done item ok => simp [PushPc.ret] at hret
    | _ => exact ⟨_, rfl⟩

def WaitPushPc.left : WaitPushPc T W → Nat
  | .queue p => 4 + p.left
  | .loadSleeping _ => 3
  | .storeSleeping _ => 2
  | .notify _ => 1
  | .done _ _ => 0

theorem WaitPushPc.left_step {p : WaitPushPc T W} {m : Mem T W} {st : StopState}
    {n : Instr.Next Loc (Cell T W) StopState (WaitPushPc T W)}
    (h : (p.code N).sc m st = some n) : n.pc.left + 1 ≤ p.left := by
  cases WaitPushPc.steps_of_sc h with
  | access q n' hn' =>
      have hleft := PushPc.left_step hn'
      simp only [left]
      omega
  | _ => simp [left, PushPc.left]

def waitablePushEnds (N : Capacity W) : PushEnds (WaitableSpscQueue N : QueueCode T W) where
  left := WaitPushPc.left
  bound := 8
  left_le p := by
    cases p with
    | queue p => cases p <;> simp [WaitPushPc.left, PushPc.left]
    | _ => simp [WaitPushPc.left]
  step h := WaitPushPc.left_step h
  enabled := by
    intro p hret m st
    cases p with
    | queue p => cases p <;> exact ⟨_, rfl⟩
    | done item ok => simp [WaitPushPc.ret] at hret
    | _ => exact ⟨_, rfl⟩

end Operations

/-! ### The calls in progress -/

namespace MarketDataQueue

variable {T : Type} {Q : QueueCode T W} {s s' : State Q} {e : Event T}

/-- Inside calls no call begins or ends. -/
theorem inCall_access (hs : step s e = some s') (he : Fifo.isAccess e = true) :
    s'.prod.isSome = s.prod.isSome ∧ s'.cons.isSome = s.cons.isSome := by
  have hwoken : ∀ b, (woken b s.cons).isSome = s.cons.isSome := by
    intro b
    cases b <;> simp [woken]
  cases moves_of_step hs with
  | push p n hp hn => exact ⟨by rw [hp]; rfl, hwoken _⟩
  | pop c n hc hn => exact ⟨rfl, by rw [hc]; rfl⟩
  | callRequestStop h => exact ⟨rfl, rfl⟩
  | requestStop p n hp hn => exact ⟨rfl, hwoken _⟩
  | spurious => exact ⟨rfl, hwoken true⟩
  | _ => exact absurd he (by simp [Fifo.isAccess])

end MarketDataQueue

namespace Pipeline

open BaseGenerator IDisseminator

variable {Q : QueueCode MarketDataMsg W} {s s' : State Q} {e : Event}

/-- The generator's thread is in a call of `push`. -/
def inPush : Option BaseGenerator.Pc → Bool
  | some (.pushing _ _) => true
  | _ => false

/-- A thread is in a call of the queue exactly where its loop says so. -/
structure Paired (s : State Q) : Prop where
  prod : s.queue.prod.isSome = inPush s.generator.thread
  cons : s.queue.cons.isSome = popping s.worker

theorem Paired.initial : Paired (machine Q).init := ⟨rfl, rfl⟩

theorem Paired.generationLoop {g' : BaseGenerator.State} {q' : MarketDataQueue.State Q} {now : Nat}
    {msg : MarketDataMsg} (h : Paired s)
    (hm : BaseGenerator.Moves s.generator s.queue now msg g' q') :
    Paired { s with generator := g', queue := q' } := by
  have hprod := h.prod
  cases hm with
  | begin hpc =>
      rw [hpc] at hprod
      exact ⟨hprod, h.cons⟩
  | test hpc =>
      rw [hpc] at hprod
      refine ⟨?_, h.cons⟩
      rw [hprod]
      cases s.generator.stopRequested <;> rfl
  | @clock nextTime hpc =>
      rw [hpc] at hprod
      refine ⟨?_, h.cons⟩
      rw [hprod]
      by_cases htime : nextTime ≤ now <;> simp [htime, State.goto, inPush]
  | generate hpc =>
      rw [hpc] at hprod
      exact ⟨hprod, h.cons⟩
  | drop hpc hstop =>
      rw [hpc] at hprod
      exact ⟨hprod, h.cons⟩
  | callPush hpc hstop hq =>
      cases MarketDataQueue.moves_of_step hq with
      | callPush _ _ => exact ⟨rfl, h.cons⟩
  | @retPush nextTime m q' ok hpc hret hq =>
      cases MarketDataQueue.moves_of_step hq with
      | retPush _ _ _ _ =>
          refine ⟨?_, h.cons⟩
          cases ok <;> rfl

theorem Paired.runLoop {pc pc' : IDisseminator.Pc} {q' : MarketDataQueue.State Q}
    {u : Bytes topicHeaderSize} {now : Nat} (h : Paired s) (hworker : s.worker = some pc)
    (hm : IDisseminator.Moves s.queue u now pc pc' q') :
    Paired { s with worker := some pc', queue := q' } := by
  have hcons := h.cons
  rw [hworker] at hcons
  cases hm with
  | callPop hq =>
      cases MarketDataQueue.moves_of_step hq with
      | callPop _ => exact ⟨h.prod, rfl⟩
  | popped hret hq =>
      cases MarketDataQueue.moves_of_step hq with
      | retPop _ _ _ _ => exact ⟨h.prod, rfl⟩
  | stopped hret hq =>
      cases MarketDataQueue.moves_of_step hq with
      | retPop _ _ _ _ => exact ⟨h.prod, rfl⟩
  | _ => exact ⟨h.prod, hcons⟩

theorem Paired.step (h : Paired s) (hs : step s e = some s') : Paired s' := by
  cases moves_of_step hs with
  | setRate r =>
      refine ⟨?_, h.cons⟩
      rw [(setRate_frame s.generator r).1]
      exact h.prod
  | startGenerator =>
      have hprod := h.prod
      rcases start_cases s.generator with ⟨-, hnone, heq⟩ | ⟨-, heq⟩
      · rw [heq]
        rw [hnone] at hprod
        exact ⟨hprod, h.cons⟩
      · rw [heq]
        exact h
  | requestStopGenerator =>
      rcases requestStop_cases s.generator with ⟨-, heq⟩ | ⟨pc, hpc, heq⟩
      · rw [heq]
        exact h
      · rw [heq]
        exact ⟨h.prod, h.cons⟩
  | joinGenerator hg =>
      have hprod := h.prod
      rcases join_cases hg with rfl | ⟨hpc, rfl⟩
      · exact h
      · rw [hpc] at hprod
        exact ⟨hprod, h.cons⟩
  | generator hm => exact h.generationLoop hm
  | access he hq =>
      obtain ⟨hprod, hcons⟩ := MarketDataQueue.inCall_access hq (isAccess_of_inQueue he)
      exact ⟨hprod.trans h.prod, hcons.trans h.cons⟩
  | startDisseminator hworker =>
      have hcons := h.cons
      rw [hworker] at hcons
      exact ⟨h.prod, hcons⟩
  | joinDisseminator hworker _ =>
      have hcons := h.cons
      rw [hworker] at hcons
      exact ⟨h.prod, hcons⟩
  | idle _ => exact h
  | disseminator hworker hm => exact h.runLoop hworker hm

theorem Paired.of_exec {es : List Event} (h : (machine Q).Exec es s) : Paired s :=
  Machine.Exec.induction (P := fun _ s => Paired s) Paired.initial
    (fun _ _ _ _ _ ih hs => ih.step hs) h

/-! ### The generator

Once the stop is requested, `generation_loop` leaves at its next test of the token.  It
reaches that test after a message at most: the retries test the token too.
-/

/-- The steps of the generator's thread. -/
def isGenerator : Event → Bool
  | .generator _ _ => true
  | .push => true
  | _ => false

variable (P : PushEnds Q)

/-- How many steps the generator's thread has left, once the stop is requested. -/
def threadLeft (prod : Option Q.PushPc) : Option BaseGenerator.Pc → Nat
  | none => 0
  | some .finished => 0
  | some (.checkStop _) => 1
  | some .begin => 2
  | some (.retry _ _) => 2
  | some (.generate _) => 3
  | some (.readClock _) => 4
  | some (.pushing _ _) => 3 + prod.elim 0 P.left

def generatorLeft (s : State Q) : Nat := threadLeft P s.queue.prod s.generator.thread

/-- The generator has been asked to stop. -/
def GeneratorStopping (s : State Q) : Prop := Paired s ∧ s.generator.stopRequested = true

theorem generatorLeft_le (s : State Q) : generatorLeft P s ≤ 4 + P.bound := by
  unfold generatorLeft threadLeft
  split
  case h_8 =>
      rcases s.queue.prod with _ | p
      · simp only [Option.elim_none]
        omega
      · have hle := P.left_le p
        simp only [Option.elim_some]
        omega
  all_goals omega

variable {P}

/-- A step of the loop. -/
theorem generatorLeft_loop {g' : BaseGenerator.State} {q' : MarketDataQueue.State Q} {now : Nat}
    {msg : MarketDataMsg} (hstop : s.generator.stopRequested = true)
    (hm : BaseGenerator.Moves s.generator s.queue now msg g' q') :
    g'.stopRequested = true ∧
      threadLeft P q'.prod g'.thread + 1 ≤ threadLeft P s.queue.prod s.generator.thread := by
  cases hm with
  | begin hpc =>
      rw [hpc]
      exact ⟨hstop, Nat.le_refl _⟩
  | test hpc =>
      rw [hpc, hstop]
      exact ⟨hstop, Nat.le_refl _⟩
  | @clock nextTime hpc =>
      rw [hpc]
      refine ⟨hstop, ?_⟩
      by_cases htime : nextTime ≤ now <;> simp [htime, State.goto, threadLeft]
  | generate hpc =>
      rw [hpc]
      exact ⟨hstop, Nat.le_refl _⟩
  | drop hpc _ =>
      rw [hpc]
      exact ⟨hstop, Nat.le_refl _⟩
  | callPush _ hrun _ => exact absurd (hrun.symm.trans hstop) (by simp)
  | @retPush nextTime m q' ok hpc _ _ =>
      rw [hpc]
      refine ⟨hstop, ?_⟩
      cases ok with
      | true =>
          simp only [State.goto, if_true, threadLeft]
          omega
      | false =>
          simp only [State.goto, Bool.false_eq_true, if_false, threadLeft]
          omega

/-- An access inside a call. -/
theorem generatorLeft_access {qe : MarketDataQueue.Event MarketDataMsg}
    {q' : MarketDataQueue.State Q} (h : Paired s) (he : inQueue e = some qe)
    (hq : MarketDataQueue.step s.queue qe = some q') :
    threadLeft P q'.prod s.generator.thread ≤
      threadLeft P s.queue.prod s.generator.thread - (isGenerator e).toNat := by
  cases e with
  | push =>
      obtain rfl := Option.some.inj he
      cases MarketDataQueue.moves_of_step hq with
      | push p n hp hn =>
          have hthread := h.prod
          rw [hp] at hthread
          have hleft := P.step hn
          rw [hp]
          cases hg : s.generator.thread with
          | none => simp [hg, inPush] at hthread
          | some pc =>
              cases pc with
              | pushing nextTime m =>
                  simp only [threadLeft, Option.elim_some, isGenerator, Bool.toNat_true]
                  omega
              | _ => simp [hg, inPush] at hthread
  | callRequestStop =>
      obtain rfl := Option.some.inj he
      cases MarketDataQueue.moves_of_step hq with
      | callRequestStop _ => exact Nat.le_refl _
  | requestStop =>
      obtain rfl := Option.some.inj he
      cases MarketDataQueue.moves_of_step hq with
      | requestStop _ _ _ _ => exact Nat.le_refl _
  | pop =>
      obtain rfl := Option.some.inj he
      cases MarketDataQueue.moves_of_step hq with
      | pop _ _ _ _ => exact Nat.le_refl _
  | spurious =>
      obtain rfl := Option.some.inj he
      cases MarketDataQueue.moves_of_step hq with
      | spurious => exact Nat.le_refl _
  | _ => simp [inQueue] at he

theorem GeneratorStopping.step (h : GeneratorStopping s) (he : e ≠ .startGenerator)
    (hs : Pipeline.step s e = some s') :
    GeneratorStopping s' ∧ generatorLeft P s' ≤ generatorLeft P s - (isGenerator e).toNat := by
  obtain ⟨hpaired, hstop⟩ := h
  have hpaired' := hpaired.step hs
  cases moves_of_step hs with
  | setRate r =>
      obtain ⟨hthread, hkept⟩ := setRate_frame s.generator r
      refine ⟨⟨hpaired', hkept.trans hstop⟩, ?_⟩
      unfold generatorLeft
      rw [hthread]
      exact Nat.le_refl _
  | startGenerator => exact absurd rfl he
  | requestStopGenerator =>
      rcases requestStop_cases s.generator with ⟨-, heq⟩ | ⟨pc, -, heq⟩
      · refine ⟨⟨hpaired', by rw [heq]; exact hstop⟩, ?_⟩
        rw [heq]
        exact Nat.le_refl _
      · refine ⟨⟨hpaired', by rw [heq]⟩, ?_⟩
        rw [heq]
        exact Nat.le_refl _
  | joinGenerator hg =>
      rcases join_cases hg with rfl | ⟨hpc, rfl⟩
      · exact ⟨⟨hpaired', hstop⟩, Nat.le_refl _⟩
      · exact ⟨⟨hpaired', hstop⟩, Nat.zero_le _⟩
  | generator hm =>
      obtain ⟨hstop', hle⟩ := generatorLeft_loop (P := P) hstop hm
      refine ⟨⟨hpaired', hstop'⟩, ?_⟩
      exact Nat.le_sub_one_of_lt hle
  | access hin hq => exact ⟨⟨hpaired', hstop⟩, generatorLeft_access hpaired hin hq⟩
  | startDisseminator _ => exact ⟨⟨hpaired', hstop⟩, Nat.le_refl _⟩
  | joinDisseminator _ _ => exact ⟨⟨hpaired', hstop⟩, Nat.le_refl _⟩
  | idle hcall =>
      refine ⟨⟨hpaired', hstop⟩, ?_⟩
      cases e with
      | startDisseminator => exact Nat.le_refl _
      | callRequestStop => exact Nat.le_refl _
      | joinDisseminator => exact Nat.le_refl _
      | _ => simp [onDisseminator] at hcall
  | disseminator hworker hm =>
      refine ⟨⟨hpaired', hstop⟩, ?_⟩
      cases hm with
      | callPop hq =>
          cases MarketDataQueue.moves_of_step hq with
          | callPop _ => exact Nat.le_refl _
      | popped _ hq =>
          cases MarketDataQueue.moves_of_step hq with
          | retPop _ _ _ _ => exact Nat.le_refl _
      | stopped _ hq =>
          cases MarketDataQueue.moves_of_step hq with
          | retPop _ _ _ _ => exact Nat.le_refl _
      | _ => exact Nat.le_refl _

/-- The thread can go on in its loop, wherever it is outside `push`. -/
theorem generator_enabled {pc : BaseGenerator.Pc} (hpc : s.generator.thread = some pc)
    (hstop : s.generator.stopRequested = true) (hout : inPush (some pc) = false)
    (hpc' : pc ≠ .finished) : (step s (.generator 0 sampleTrade)).isSome = true := by
  simp only [step, BaseGenerator.generationLoop, hpc]
  cases pc with
  | finished => exact absurd rfl hpc'
  | pushing nextTime m => simp [inPush] at hout
  | retry nextTime m => simp [hstop]
  | _ => rfl

/-- Inside `push` it can make an access, or return. -/
theorem push_enabled (P : PushEnds Q) {nextTime : Nat} {m : MarketDataMsg} {p : Q.PushPc}
    (hpc : s.generator.thread = some (.pushing nextTime m)) (hp : s.queue.prod = some p) :
    ∃ e, isGenerator e = true ∧ e ≠ .startGenerator ∧ (step s e).isSome = true := by
  cases hret : Q.pushRet p with
  | some ok =>
      refine ⟨.generator 0 sampleTrade, rfl, by simp, ?_⟩
      simp [step, BaseGenerator.generationLoop, hpc, hp, hret, MarketDataQueue.step]
  | none =>
      obtain ⟨n, hn⟩ := P.enabled hret s.queue.mem s.queue.stop
      have hq := (MarketDataQueue.Moves.push p n hp hn).step_eq
      refine ⟨.push, rfl, by simp, ?_⟩
      simp [step, hq]

variable (P)

/-- A generator that has been asked to stop gets to the end of its loop. -/
theorem generator_progress : Machine.Progress (machine Q) (fun e => e ≠ .startGenerator)
    isGenerator GeneratorStopping (generatorLeft P) where
  step h he hs := h.step he hs
  enabled := by
    intro s h hpos
    unfold generatorLeft at hpos
    cases hthread : s.generator.thread with
    | none => simp [hthread, threadLeft] at hpos
    | some pc =>
        by_cases hin : inPush (some pc) = true
        · have hprod := h.1.prod
          rw [hthread, hin] at hprod
          obtain ⟨p, hp⟩ := Option.isSome_iff_exists.mp hprod
          cases pc with
          | pushing nextTime m => exact push_enabled P hthread hp
          | _ => simp [inPush] at hin
        · have hne : pc ≠ .finished := by
            rintro rfl
            simp [hthread, threadLeft] at hpos
          exact ⟨.generator 0 sampleTrade, rfl, by simp,
            generator_enabled hthread h.2 (by simpa using hin) hne⟩

variable {P}

/-- `generating_thread_.join()` returns when nothing is left to do. -/
theorem join_of_generatorLeft (hzero : generatorLeft P s = 0) :
    (step s .joinGenerator).isSome = true := by
  unfold generatorLeft at hzero
  cases hthread : s.generator.thread with
  | none => simp [step, BaseGenerator.join, hthread]
  | some pc =>
      rw [hthread] at hzero
      cases pc with
      | finished => simp [step, BaseGenerator.join, hthread]
      | pushing nextTime m =>
          simp only [threadLeft] at hzero
          omega
      | _ => simp [threadLeft] at hzero

/-- `stop()` on the generator returns.  From every state reached with the stop requested,
however the threads go on from there while nobody calls `start`: `join` returns now, or
the thread has taken fewer than `bound` steps and can take another. -/
def GeneratorStops (Q : QueueCode MarketDataMsg W) (bound : Nat) : Prop :=
  ∀ es s, (machine Q).Exec es s → s.generator.stopRequested = true →
    ∀ fs s', (machine Q).run s fs = some s' → (∀ e ∈ fs, e ≠ .startGenerator) →
      (step s' .joinGenerator).isSome = true ∨
        (fs.countP isGenerator < bound ∧ ∃ e, isGenerator e = true ∧ (step s' e).isSome = true)

theorem generatorStops (P : PushEnds Q) : GeneratorStops Q (4 + P.bound) := by
  intro es s hex hstop fs s' hrun hall
  have hinv : GeneratorStopping s := ⟨Paired.of_exec hex, hstop⟩
  obtain ⟨hinv', hle⟩ := (generator_progress P).run hinv hall hrun
  by_cases hzero : generatorLeft P s' = 0
  · exact Or.inl (join_of_generatorLeft hzero)
  · obtain ⟨e, hmine, -, hsome⟩ := (generator_progress P).enabled hinv' (Nat.pos_of_ne_zero hzero)
    have hbound := generatorLeft_le P s
    exact Or.inr ⟨by omega, e, hmine, hsome⟩

/-- **`BaseGenerator::stop` returns**, with either queue class, also if the queue is full
and nobody pops. -/
theorem generator_stop_returns (N : Capacity W) :
    GeneratorStops (SpinSpscQueue N) 8 ∧ GeneratorStops (WaitableSpscQueue N) 12 :=
  ⟨generatorStops (spinPushEnds N), generatorStops (waitablePushEnds N)⟩

/-- The generator is asked to stop while it is inside its second push. -/
def stopInPush : List Event :=
  [.setRate 1000, .startGenerator] ++ generatorSteps 5 ++ List.replicate 4 .push ++
    [.generator 1 sampleTrade] ++ List.replicate 4 (.generator 2000000 sampleTrade) ++
    [.push, .requestStopGenerator]

theorem stopInPush_goes : ((machine (SpinSpscQueue slots128)).run
    (machine (SpinSpscQueue slots128)).init stopInPush).isSome = true := by
  decide +kernel

theorem generator_stop_returns_stopInPush :
    ∃ s, (machine (SpinSpscQueue slots128)).Exec stopInPush s ∧
      (step s .joinGenerator).isSome = false ∧
      ∃ e, isGenerator e = true ∧ (step s e).isSome = true := by
  refine ⟨_, Machine.exec_final stopInPush_goes, by decide +kernel, ?_⟩
  have h := (generator_stop_returns slots128).1 stopInPush _ (Machine.exec_final stopInPush_goes)
    (by decide +kernel) [] _ rfl (by simp)
  rcases h with hjoin | ⟨-, he⟩
  · exact absurd hjoin (by decide +kernel)
  · exact he

end Pipeline

end MarketData
