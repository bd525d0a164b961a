/-
The queue drains, if every access takes effect at once.

`run_benchmark_pipeline` stops the generator, waits, and stops the disseminator.  In
between the disseminator is to send what is left in the queue.  It does, in any
interleaving, if it gets the time: each message costs it a bounded number of its own
steps.

The threads' accesses are sequentially consistent here: each takes effect at once, for
all of them.  For the waitable queue the result rests on that.  Behind store buffers a
push may look at `is_sleeping_` before its own `write_` is visible, and leave a pop
asleep beside its item (`StoreBuffers.lost_wakeup`); the worker then has no step to take,
and the item stays.

The number is read off where the worker is.  `PopTakes` gives for a queue class how far
a pop is from returning an item, in a queue that holds one while nobody pushes.  A pop
that has just found the queue empty has to try once more.  A waitable pop that has found
it empty twice goes to sleep only if no item is there, by the invariant that lets it be
woken (`WakeInv`): so with no push in progress it is not asleep now.

`drainLeft` counts a full round for each message and the distance to the next send.
Sending lowers the first and raises the second by at most a round.
-/
import MarketData.Proofs.DisseminatorStops
import MarketData.Proofs.WaitableRefinesSpin

namespace MarketData

open Lib

variable {W : Nat} {N : Capacity W}

/-! ### Pops on a queue that is not empty -/

section Pops

variable {T : Type}

open MarketDataQueue

/-- No stop has been requested of the consumer's token. -/
def MarketDataQueue.Unasked {Q : QueueCode T W} (q : State Q) : Prop :=
  q.stopper = none ∧ q.stop.requested = false

/-- The pops of a queue class take an item, if there is one, nobody pushes and no stop is
requested. -/
structure PopTakes {Q : QueueCode T W} (F : Fifo N Q) where
  Inv : State Q → Prop
  dist : Q.PopPc → Nat
  bound : Nat
  dist_le : ∀ c, dist c ≤ bound
  fresh : ∀ {q}, F.Inv q → q.cons = none →
    Inv { q with stop := StopState.initial, stopper := none }
  keeps : ∀ {q e q'}, Inv q → Unasked q → e ≠ .callRequestStop →
    MarketDataQueue.step q e = some q' → Inv q'
  returns : ∀ {q c res}, Inv q → q.cons = some c → Q.popRet c = some res → res.isSome = true
  step : ∀ {q c n}, Inv q → Unasked q → q.prod = none → F.flow q ≠ [] → q.cons = some c →
    (Q.popCode c).sc q.mem q.stop = some n → dist n.pc + 1 ≤ dist c
  enabled : ∀ {q c}, Inv q → q.prod = none → F.flow q ≠ [] → q.cons = some c →
    Q.popRet c = none → ∃ n, (Q.popCode c).sc q.mem q.stop = some n
  wake : ∀ {q c}, Inv q → q.prod = none → F.flow q ≠ [] → q.cons = some c →
    dist (Q.wake c) ≤ dist c

/-- How far a pop of the queue below is from returning an item; one that has failed
starts over. -/
def PopPc.dist : PopPc T W → Nat
  | .done (some _) => 0
  | .publish _ _ => 1
  | .destroy _ _ => 2
  | .move _ => 3
  | .loadWrite _ => 4
  | .loadRead => 5
  | .done none => 8
  | .fault => 0

/-- With an item in the queue or in hand, the pop gets nearer. -/
theorem PopPc.dist_step {p : PopPc T W} {m : Mem T W} {x : StopState}
    {n : Instr.Next Loc (Cell T W) StopState (PopPc T W)} {pr : Option (PushPc T W)} {xs : List T}
    (h : QueueInv N m pr (some p) xs) (hne : xs ≠ []) (hn : (p.code N).sc m x = some n) :
    n.pc.dist + 1 ≤ p.dist := by
  cases p with
  | loadWrite r =>
      have hr : r = m .read_ := h.cons
      simp only [PopPc.code, Instr.sc_load, Option.some.injEq] at hn
      subst hn
      have hheld : r ≠ m .write_ := by
        intro heq
        have hzero : held m = 0 := held_eq_zero_iff.mpr (by rw [← heq, hr])
        rw [h.held_eq] at hzero
        exact hne (List.eq_nil_of_length_eq_zero hzero)
      rw [if_neg hheld]
      exact Nat.le_refl _
  | move r =>
      simp only [PopPc.code, Instr.sc_load, Option.some.injEq] at hn
      subst hn
      cases m (.data_ (r.toNat % N.val)) <;> simp [dist]
  | done res => simp [PopPc.code] at hn
  | fault => simp [PopPc.code] at hn
  | _ =>
      simp only [PopPc.code, Instr.sc_load, Instr.sc_store, Option.some.injEq] at hn
      subst hn
      simp [dist]

/-- What flows is in the ring, while a pop is making its accesses and nobody pushes. -/
theorem Fifo.ring_ne_nil {Q : QueueCode T W} (F : Fifo N Q) {q : State Q} {xs : List T}
    (hxs : F.Holds q xs) (hprod : q.prod = none) (hflow : F.flow q ≠ [])
    (htaken : F.takenOf q.cons = []) : xs ≠ [] := by
  rw [F.flow_eq hxs, htaken, hprod] at hflow
  simpa [Fifo.trying] using hflow

/-! ### `SpinSpscQueue` -/

def SpinPopPc.dist : SpinPopPc T W → Nat
  | .checkStop => 7
  | .queue p => 1 + p.dist
  | .done _ => 0

/-- The pop has not given up. -/
structure SpinServing (q : State (SpinSpscQueue N : QueueCode T W)) : Prop where
  fifo : (spinFifo N).Inv q
  serving : q.cons ≠ some (.done none)

theorem SpinServing.step {q q' : State (SpinSpscQueue N : QueueCode T W)} {e : Event T}
    (h : SpinServing q) (hunasked : Unasked q) (hs : MarketDataQueue.step q e = some q') :
    SpinServing q' := by
  refine ⟨((spinFifo N).flow_step h.fifo hs).1, ?_⟩
  have hwoken : ∀ b, woken (Q := SpinSpscQueue N) b q.cons = q.cons := by
    intro b
    cases b <;> simp [woken]
  cases moves_of_step hs with
  | push p n _ _ =>
      show woken n.woken q.cons ≠ _
      rw [hwoken]
      exact h.serving
  | requestStop p n _ _ =>
      show woken n.woken q.cons ≠ _
      rw [hwoken]
      exact h.serving
  | spurious =>
      show woken true q.cons ≠ _
      rw [hwoken]
      exact h.serving
  | callPop _ => simp
  | retPop _ _ _ _ => simp
  | pop c n hc hn =>
      intro hpc
      have hnpc : n.pc = .done none := Option.some.inj hpc
      cases c with
      | checkStop =>
          simp only [SpinPopPc.code, Instr.sc_lib, Option.some.injEq] at hn
          rw [← hn, if_neg (by simp [hunasked.2])] at hnpc
          simp at hnpc
      | queue p =>
          rcases PopPc.call_cases hn with ⟨res, rfl, rfl⟩ | ⟨n', hn', rfl⟩
          · cases res <;> simp at hnpc
          · simp at hnpc
      | done res => simp [SpinPopPc.code] at hn
  | _ => exact h.serving

theorem SpinServing.dist_step {q : State (SpinSpscQueue N : QueueCode T W)} {c : SpinPopPc T W}
    {n : Instr.Next Loc (Cell T W) StopState (SpinPopPc T W)} (h : SpinServing q)
    (hunasked : Unasked q) (hprod : q.prod = none) (hflow : (spinFifo N).flow q ≠ [])
    (hc : q.cons = some c) (hn : (c.code N).sc q.mem q.stop = some n) :
    n.pc.dist + 1 ≤ c.dist := by
  obtain ⟨xs, hxs⟩ := h.fifo
  have hne := (spinFifo N).ring_ne_nil hxs hprod hflow
  rw [hc] at hne
  unfold Fifo.Holds at hxs
  rw [hc] at hxs
  cases c with
  | checkStop =>
      simp only [SpinPopPc.code, Instr.sc_lib, Option.some.injEq] at hn
      subst hn
      rw [if_neg (by simp [hunasked.2])]
      exact Nat.le_refl _
  | queue p =>
      rcases PopPc.call_cases hn with ⟨res, rfl, rfl⟩ | ⟨n', hn', rfl⟩
      · cases res <;> simp [SpinPopPc.dist, PopPc.dist]
      · have hle := PopPc.dist_step hxs (hne (PopPc.taken_of_access hn')) hn'
        simp only [SpinPopPc.dist]
        omega
  | done res => simp [SpinPopPc.code] at hn

def spinPopTakes (N : Capacity W) : PopTakes (spinFifo N : Fifo N (SpinSpscQueue N : QueueCode T W))
    where
  Inv := SpinServing
  dist := SpinPopPc.dist
  bound := 9
  dist_le c := by
    cases c with
    | queue p =>
        cases p with
        | done res => cases res <;> simp [SpinPopPc.dist, PopPc.dist]
        | _ => simp [SpinPopPc.dist, PopPc.dist]
    | _ => simp [SpinPopPc.dist]
  fresh h hc := ⟨h, by rw [hc]; simp⟩
  keeps h hunasked _ hs := h.step hunasked hs
  returns := by
    intro q c res h hc hret
    cases c with
    | done r =>
        simp only [SpinPopPc.ret, Option.some.injEq] at hret
        subst hret
        cases r with
        | none => exact absurd hc h.serving
        | some item => rfl
    | _ => simp [SpinPopPc.ret] at hret
  step h hunasked hprod hflow hc hn := h.dist_step hunasked hprod hflow hc hn
  enabled := by
    intro q c h _ _ hc hret
    obtain ⟨xs, hxs⟩ := h.fifo
    unfold Fifo.Holds at hxs
    rw [hc] at hxs
    cases c with
    | checkStop => exact ⟨_, rfl⟩
    | queue p => exact PopPc.call_enabled hxs
    | done res => simp [SpinPopPc.ret] at hret
  wake _ _ _ _ := Nat.le_refl _

/-! ### `WaitableSpscQueue` -/

def WaitPopPc.dist : WaitPopPc T W → Nat
  | .registerCallback => 9
  | .callbackStore => 10
  | .callbackNotify => 9
  | .checkStop => 8
  | .firstPop p => 2 + p.dist
  | .storeTrue => 9
  | .secondPop p => 3 + p.dist
  | .storeFalse _ => 2
  | .wait => 9
  | .deregisterCallback _ => 1
  | .blocked => 0
  | .done _ => 0

/-- The pop is on its way to return false. -/
def WaitPopPc.gaveUp : WaitPopPc T W → Bool
  | .deregisterCallback none => true
  | .done none => true
  | _ => false

/-- The pop has not given up, and it will be woken if it sleeps. -/
structure WaitServing (q : State (WaitableSpscQueue N : QueueCode T W)) : Prop where
  wake : WakeInv q
  runs : CallbackRuns q
  serving : q.cons.any WaitPopPc.gaveUp = false

theorem WaitPopPc.gaveUp_step {c : WaitPopPc T W} {m : Mem T W} {st : StopState}
    {n : Instr.Next Loc (Cell T W) StopState (WaitPopPc T W)} (hreq : st.requested = false)
    (hc : c.gaveUp = false) (h : Steps N m st c n) : n.pc.gaveUp = false := by
  cases h with
  | quit hasked => exact absurd (hasked.symm.trans hreq) (by simp)
  | deregisterWait res _ => exact hc
  | deregister res _ =>
      cases res with
      | none => exact absurd hc (by simp [gaveUp])
      | some item => rfl
  | _ => rfl

theorem gaveUp_woken (b : Bool) (c : Option (WaitPopPc T W)) :
    (woken (Q := WaitableSpscQueue N) b c).any WaitPopPc.gaveUp = c.any WaitPopPc.gaveUp := by
  rcases c with _ | c
  · cases b <;> rfl
  · cases b with
    | false => rfl
    | true => cases c <;> rfl

variable {q q' : State (WaitableSpscQueue N : QueueCode T W)} {c : WaitPopPc T W}

theorem WaitServing.step {e : Event T} (h : WaitServing q) (he : e ≠ .callRequestStop)
    (hs : MarketDataQueue.step q e = some q') : WaitServing q' := by
  refine ⟨h.wake.step he hs, h.runs.step hs, ?_⟩
  have hserving := h.serving
  cases moves_of_step hs with
  | push p n _ _ => exact (gaveUp_woken _ _).trans hserving
  | requestStop p n _ _ => exact (gaveUp_woken _ _).trans hserving
  | spurious => exact (gaveUp_woken true _).trans hserving
  | callPop _ => rfl
  | retPop _ _ _ _ => rfl
  | pop c n hc hn =>
      rw [hc] at hserving
      exact WaitPopPc.gaveUp_step h.wake.unstopped.2 hserving (WaitPopPc.steps_of_sc hn)
  | _ => exact hserving

/-- An item is there for a pop that holds none. -/
theorem WaitServing.written (h : WaitServing q) (hprod : q.prod = none)
    (hflow : (waitableFifo N).flow q ≠ []) (hc : q.cons = some c) (htaken : c.taken = []) :
    q.mem .write_ ≠ q.mem .read_ := by
  obtain ⟨xs, hxs⟩ := h.wake.fifo
  have hne : xs ≠ [] := (waitableFifo N).ring_ne_nil hxs hprod hflow (by rw [hc]; exact htaken)
  intro heq
  have hzero : held q.mem = 0 := held_eq_zero_iff.mpr heq
  rw [QueueInv.held_eq hxs] at hzero
  exact hne (List.eq_nil_of_length_eq_zero hzero)

/-- With an item there and nobody pushing, the flag is down for a pop about to sleep. -/
theorem WaitServing.flag_down (h : WaitServing q) (hprod : q.prod = none)
    (hflow : (waitableFifo N).flow q ≠ []) (hc : q.cons = some c) (hcom : c.committed = true)
    (htaken : c.taken = []) : q.mem .isSleeping_ = false := by
  by_contra hup
  obtain ⟨p, hp, -⟩ := h.wake.seen c hc hcom (by simpa using hup)
    (h.written hprod hflow hc htaken)
  exact absurd (hprod.symm.trans hp) (by simp)

/-- So it is not asleep. -/
theorem WaitServing.not_blocked (h : WaitServing q) (hprod : q.prod = none)
    (hflow : (waitableFifo N).flow q ≠ []) : q.cons ≠ some .blocked := by
  intro hc
  obtain ⟨item, hitem⟩ := h.wake.owed hc (h.flag_down hprod hflow hc rfl rfl)
  exact absurd (hprod.symm.trans hitem) (by simp)

theorem WaitServing.dist_step {n : Instr.Next Loc (Cell T W) StopState (WaitPopPc T W)}
    (h : WaitServing q) (hprod : q.prod = none) (hflow : (waitableFifo N).flow q ≠ [])
    (hc : q.cons = some c) (hn : (c.code N).sc q.mem q.stop = some n) :
    n.pc.dist + 1 ≤ c.dist := by
  obtain ⟨xs, hxs⟩ := h.wake.fifo
  have hne := (waitableFifo N).ring_ne_nil hxs hprod hflow
  rw [hc] at hne
  unfold Fifo.Holds at hxs
  rw [hc] at hxs
  cases WaitPopPc.steps_of_sc hn with
  | registerLate hreq => exact absurd (hreq.symm.trans h.wake.unstopped.2) (by simp)
  | quit hreq => exact absurd (hreq.symm.trans h.wake.unstopped.2) (by simp)
  | firstAccess p n' hn' =>
      have hle := PopPc.dist_step hxs (hne (PopPc.taken_of_access hn')) hn'
      simp only [WaitPopPc.dist]
      omega
  | secondAccess p n' hn' =>
      have hle := PopPc.dist_step hxs (hne (PopPc.taken_of_access hn')) hn'
      simp only [WaitPopPc.dist]
      omega
  | block hup =>
      have hdown := h.flag_down hprod hflow hc rfl rfl
      exact absurd (hdown.symm.trans hup) (by simp)
  | deregisterWait _ hrun =>
      obtain ⟨p, hp, -⟩ := h.runs hrun
      exact absurd (h.wake.unstopped.1.symm.trans hp) (by simp)
  | _ => simp [WaitPopPc.dist, PopPc.dist]

def waitablePopTakes (N : Capacity W) :
    PopTakes (waitableFifo N : Fifo N (WaitableSpscQueue N : QueueCode T W)) where
  Inv := WaitServing
  dist := WaitPopPc.dist
  bound := 11
  dist_le c := by
    cases c with
    | firstPop p =>
        cases p with
        | done res => cases res <;> simp [WaitPopPc.dist, PopPc.dist]
        | _ => simp [WaitPopPc.dist, PopPc.dist]
    | secondPop p =>
        cases p with
        | done res => cases res <;> simp [WaitPopPc.dist, PopPc.dist]
        | _ => simp [WaitPopPc.dist, PopPc.dist]
    | _ => simp [WaitPopPc.dist]
  fresh := by
    intro q hfifo hc
    refine ⟨⟨hfifo, ⟨rfl, rfl⟩, ?_, ?_⟩, ?_, by rw [hc]; rfl⟩
    · intro hblocked
      exact absurd (hc.symm.trans hblocked) (by simp)
    · intro c hc'
      exact absurd (hc.symm.trans hc') (by simp)
    · intro hrun
      simp [StopState.initial] at hrun
  keeps h _ he hs := h.step he hs
  returns := by
    intro q c res h hc hret
    have hserving := h.serving
    rw [hc] at hserving
    cases c with
    | done r =>
        simp only [WaitPopPc.ret, Option.some.injEq] at hret
        subst hret
        cases r with
        | none => exact absurd hserving (by simp [WaitPopPc.gaveUp])
        | some item => rfl
    | _ => simp [WaitPopPc.ret] at hret
  step h _ hprod hflow hc hn := h.dist_step hprod hflow hc hn
  enabled := by
    intro q c h hprod hflow hc hret
    obtain ⟨xs, hxs⟩ := h.wake.fifo
    unfold Fifo.Holds at hxs
    rw [hc] at hxs
    cases c with
    | firstPop p => exact PopPc.call_enabled hxs
    | secondPop p => exact PopPc.call_enabled hxs
    | blocked => exact absurd hc (h.not_blocked hprod hflow)
    | done res => simp [WaitPopPc.ret] at hret
    | _ => exact ⟨_, rfl⟩
  wake := by
    intro q c h hprod hflow hc
    cases c with
    | blocked => exact absurd hc (h.not_blocked hprod hflow)
    | _ => exact Nat.le_refl _

end Pops

namespace MarketDataQueue

variable {T : Type} {Q : QueueCode T W} {q q' : State Q} {e : Event T}

/-- A stop request leaves its trace until the next session. -/
theorem unasked_of_step (K : Quits Q) (hs : step q e = some q') (h : Unasked q') :
    Unasked q ∧ e ≠ .callRequestStop := by
  have hreq : q.stop.requested = false := by
    by_contra hup
    have hup' := requested_step K (by simpa using hup) hs
    exact absurd (hup'.symm.trans h.2) (by simp)
  cases moves_of_step hs with
  | callRequestStop _ => exact absurd h.1 (by simp)
  | requestStop p n _ _ => exact absurd h.1 (by simp)
  | _ => exact ⟨⟨h.1, hreq⟩, by simp⟩

/-- Only `request_stop` sets the flag. -/
theorem unrequested_step (K : Quits Q) (h : q.stopper = none → q.stop.requested = false)
    (hs : step q e = some q') : q'.stopper = none → q'.stop.requested = false := by
  intro hnone
  cases moves_of_step hs with
  | callRequestStop _ => simp at hnone
  | requestStop _ _ _ _ => simp at hnone
  | push p n _ hn => exact (K.push_requested hn).trans (h hnone)
  | pop c n _ hn => exact (K.pop_requested hn).trans (h hnone)
  | _ => exact h hnone

end MarketDataQueue

namespace Pipeline

open BaseGenerator IDisseminator

variable {Q : QueueCode MarketDataMsg W} {s s' : State Q} {e : Event}

/-! ### The worker serves as long as no stop is requested -/

variable {F : Fifo N Q} {D : PopTakes F}

/-- Unless a stop has been requested, the worker is in its loop and its pop goes on. -/
def Serving (D : PopTakes F) (s : State Q) : Prop :=
  MarketDataQueue.Unasked s.queue → D.Inv s.queue ∧ s.worker ≠ some .finished

/-- A worker gets to its end only through a pop that returned false. -/
theorem not_finished_of_step (h : Serving D s) (hs : step s e = some s')
    (hunasked : MarketDataQueue.Unasked s.queue) : s'.worker ≠ some .finished := by
  obtain ⟨hinv, hworker⟩ := h hunasked
  cases moves_of_step hs with
  | startDisseminator _ => simp
  | joinDisseminator _ _ => simp
  | disseminator hpc hm =>
      cases hm with
      | stopped hret _ =>
          obtain ⟨c, hc, hret'⟩ := Option.bind_eq_some_iff.mp hret
          exact absurd (D.returns hinv hc hret') (by simp)
      | _ => simp
  | _ => exact hworker

theorem Serving.step (K : Quits Q) (h : Serving D s) (hc : Coupled F s)
    (hs : Pipeline.step s e = some s') : Serving D s' := by
  intro hunasked
  rcases queue_cases hs with heq | ⟨qe, hq, -, -⟩ | ⟨rfl, hworker, heq⟩
  · rw [heq] at hunasked
    rw [heq]
    exact ⟨(h hunasked).1, not_finished_of_step h hs hunasked⟩
  · obtain ⟨hbefore, hne⟩ := MarketDataQueue.unasked_of_step K hq hunasked
    exact ⟨D.keeps (h hbefore).1 hbefore hne hq, not_finished_of_step h hs hbefore⟩
  · rw [heq]
    refine ⟨D.fresh hc.inv (hc.notPopping (by rw [hworker]; rfl)), ?_⟩
    simp only [Pipeline.step, startDisseminator, hworker, Option.some.injEq] at hs
    rw [← hs]
    simp

theorem Serving.of_exec (K : Quits Q) {es : List Event} (h : (machine Q).Exec es s) :
    Serving D s := by
  refine Machine.Exec.induction (P := fun _ s => Serving D s) ?_ ?_ h
  · intro _
    exact ⟨D.fresh F.inv_initial rfl, by simp [machine]⟩
  · intro es s e s' hex ih hs
    have hinv : RunInv F es s := RunInv.of_exec hex
    exact ih.step K hinv.coupled hs

/-! ### The measure -/

/-- How far the worker is from its next send, if there is a message for it. -/
def workerDistAt (D : PopTakes F) (cons : Option Q.PopPc) : Option IDisseminator.Pc → Nat
  | none => 0
  | some .finished => 0
  | some (.send _ _) => 1
  | some (.stamp _ _) => 2
  | some (.popping _) => 3 + cons.elim 0 D.dist
  | some (.callPop _) => 4 + D.dist Q.pop
  | some .begin => 5 + D.dist Q.pop

/-- The steps that suffice for one message. -/
def round (D : PopTakes F) : Nat := 5 + D.bound

theorem workerDistAt_le (D : PopTakes F) (cons : Option Q.PopPc)
    (worker : Option IDisseminator.Pc) : workerDistAt D cons worker ≤ round D := by
  have hpop := D.dist_le Q.pop
  unfold workerDistAt round
  split
  case h_5 =>
      rcases cons with _ | c
      · simp only [Option.elim_none]
        omega
      · have hle := D.dist_le c
        simp only [Option.elim_some]
        omega
  all_goals omega

/-- A full round for every message on its way but the first, and the way to the next send. -/
def drainLeft (D : PopTakes F) (s : State Q) : Nat :=
  if pipeline F s = [] then 0
  else round D * ((pipeline F s).length - 1) + workerDistAt D s.queue.cons s.worker

theorem drainLeft_le (D : PopTakes F) (s : State Q) :
    drainLeft D s ≤ round D * (pipeline F s).length := by
  unfold drainLeft
  split
  · exact Nat.zero_le _
  · next hne =>
      have hdist := workerDistAt_le D s.queue.cons s.worker
      obtain ⟨n, hn⟩ := Nat.exists_eq_succ_of_ne_zero
        (fun h => hne (List.eq_nil_of_length_eq_zero h))
      rw [hn, Nat.succ_sub_one, Nat.mul_succ]
      omega

theorem workerDistAt_pos (D : PopTakes F) (cons : Option Q.PopPc)
    {worker : Option IDisseminator.Pc} (hworker : worker ≠ none)
    (hfinished : worker ≠ some .finished) : 0 < workerDistAt D cons worker := by
  cases worker with
  | none => exact absurd rfl hworker
  | some pc =>
      cases pc with
      | finished => exact absurd rfl hfinished
      | _ =>
          simp only [workerDistAt]
          omega

theorem drainLeft_eq_zero (h : drainLeft D s = 0) (hworker : s.worker ≠ none)
    (hfinished : s.worker ≠ some .finished) : pipeline F s = [] := by
  by_contra hne
  have hpos := workerDistAt_pos D s.queue.cons hworker hfinished
  unfold drainLeft at h
  rw [if_neg hne] at h
  omega

/-! ### Draining -/

/-- The generator has been stopped, and the disseminator is at work. -/
structure Draining (D : PopTakes F) (s : State Q) : Prop where
  coupled : Coupled F s
  paired : Paired s
  idle : s.generator.thread = none
  unasked : MarketDataQueue.Unasked s.queue
  serving : Serving D s
  working : s.worker ≠ none

theorem Draining.inv (h : Draining D s) : D.Inv s.queue := (h.serving h.unasked).1

theorem Draining.not_finished (h : Draining D s) : s.worker ≠ some .finished :=
  (h.serving h.unasked).2

theorem Draining.prod (h : Draining D s) : s.queue.prod = none := by
  have hprod := h.paired.prod
  rw [h.idle] at hprod
  simpa [inPush] using hprod

/-- While the worker is in `pop`, everything on its way is in the queue. -/
theorem Draining.flow_ne_nil (h : Draining D s) (hne : pipeline F s ≠ [])
    {topic : Bytes topicHeaderSize} (hworker : s.worker = some (.popping topic)) :
    F.flow s.queue ≠ [] := by
  unfold pipeline at hne
  rw [hworker, h.idle] at hne
  simpa [holding, retrying] using hne

/-- Nobody starts the generator or asks the disseminator to stop. -/
def LeftAlone (e : Event) : Prop := e ≠ .startGenerator ∧ e ≠ .callRequestStop

/-- A generator without a thread makes no history. -/
theorem mark_eq_none (hidle : s.generator.thread = none) (he : e ≠ .startGenerator) :
    mark s e = none := by
  cases e with
  | startGenerator => exact absurd rfl he
  | requestStopGenerator => simp [mark, hidle]
  | generator now msg => simp [mark, loopMark, hidle]
  | _ => rfl

/-- A generator without a thread stays without one. -/
theorem idle_step (hidle : s.generator.thread = none) (he : e ≠ .startGenerator)
    (hs : step s e = some s') : s'.generator.thread = none := by
  cases moves_of_step hs with
  | setRate r => rw [(setRate_frame s.generator r).1]; exact hidle
  | startGenerator => exact absurd rfl he
  | requestStopGenerator =>
      rcases requestStop_cases s.generator with ⟨-, heq⟩ | ⟨pc, hpc, -⟩
      · rw [heq]
        exact hidle
      · exact absurd (hidle.symm.trans hpc) (by simp)
  | joinGenerator hg =>
      rcases join_cases hg with rfl | ⟨hpc, -⟩
      · exact hidle
      · exact absurd (hidle.symm.trans hpc) (by simp)
  | generator hm => exact absurd hidle hm.thread_ne_none
  | _ => exact hidle

theorem unasked_step (K : Quits Q) {q q' : MarketDataQueue.State Q}
    {qe : MarketDataQueue.Event MarketDataMsg} (h : MarketDataQueue.Unasked q)
    (he : qe ≠ .callRequestStop) (hq : MarketDataQueue.step q qe = some q') :
    MarketDataQueue.Unasked q' := by
  cases MarketDataQueue.moves_of_step hq with
  | callRequestStop _ => exact absurd rfl he
  | requestStop p n hp _ => exact absurd (h.1.symm.trans hp) (by simp)
  | push p n _ hn => exact ⟨h.1, (K.push_requested hn).trans h.2⟩
  | pop c n _ hn => exact ⟨h.1, (K.pop_requested hn).trans h.2⟩
  | _ => exact h

/-- A worker that is not at its end stays. -/
theorem working_step (hworking : s.worker ≠ none) (hfinished : s.worker ≠ some .finished)
    (hs : step s e = some s') : s'.worker ≠ none := by
  cases moves_of_step hs with
  | startDisseminator _ => simp
  | joinDisseminator hpc _ => exact absurd hpc hfinished
  | disseminator _ _ => simp
  | _ => exact hworking

theorem Draining.step (K : Quits Q) (h : Draining D s) (he : LeftAlone e)
    (hs : Pipeline.step s e = some s') : Draining D s' where
  coupled := (step_flow h.coupled hs).1
  paired := h.paired.step hs
  idle := idle_step h.idle he.1 hs
  unasked := by
    rcases queue_cases hs with heq | ⟨qe, hq, -, hcall⟩ | ⟨-, hworker, -⟩
    · rw [heq]
      exact h.unasked
    · exact unasked_step K h.unasked (fun hqe => he.2 (hcall hqe)) hq
    · exact absurd hworker h.working
  serving := h.serving.step K h.coupled hs
  working := working_step h.working h.not_finished hs

/-- What is on its way stays so, or is sent. -/
theorem Draining.flow (h : Draining D s) (he : LeftAlone e) (hs : Pipeline.step s e = some s') :
    (pipeline F s).map unstamped = ((sent s e).toList ++ pipeline F s').map unstamped := by
  have hflow := (step_flow h.coupled hs).2
  rw [mark_eq_none h.idle he.1] at hflow
  simpa [madeBy, droppedBy] using hflow

/-- An access inside a call. -/
theorem workerDist_access {qe : MarketDataQueue.Event MarketDataMsg}
    {q' : MarketDataQueue.State Q} (h : Draining D s) (hne : pipeline F s ≠ [])
    (he : LeftAlone e) (hin : inQueue e = some qe)
    (hq : MarketDataQueue.step s.queue qe = some q') :
    workerDistAt D q'.cons s.worker ≤
      workerDistAt D s.queue.cons s.worker - (isWorker e).toNat := by
  cases e with
  | push =>
      obtain rfl := Option.some.inj hin
      cases MarketDataQueue.moves_of_step hq with
      | push p n hp _ => exact absurd (h.prod.symm.trans hp) (by simp)
  | callRequestStop => exact absurd rfl he.2
  | requestStop =>
      obtain rfl := Option.some.inj hin
      cases MarketDataQueue.moves_of_step hq with
      | requestStop p n hp _ => exact absurd (h.unasked.1.symm.trans hp) (by simp)
  | spurious =>
      obtain rfl := Option.some.inj hin
      cases MarketDataQueue.moves_of_step hq with
      | spurious =>
          cases hc : s.queue.cons with
          | none => exact Nat.le_refl _
          | some c =>
              show workerDistAt D (some (Q.wake c)) s.worker ≤ workerDistAt D (some c) s.worker
              cases hw : s.worker with
              | none => exact Nat.le_refl _
              | some pc =>
                  cases pc with
                  | popping topic =>
                      have hle := D.wake h.inv h.prod (h.flow_ne_nil hne hw) hc
                      exact Nat.add_le_add_left hle 3
                  | _ => exact Nat.le_refl _
  | pop =>
      obtain rfl := Option.some.inj hin
      cases MarketDataQueue.moves_of_step hq with
      | pop c n hc hn =>
          have hpop := h.paired.cons
          rw [hc] at hpop
          cases hw : s.worker with
          | none => simp [hw, popping] at hpop
          | some pc =>
              cases pc with
              | popping topic =>
                  have hle := D.step h.inv h.unasked h.prod (h.flow_ne_nil hne hw) hc hn
                  rw [hc]
                  simp only [workerDistAt, Option.elim_some, isWorker, Bool.toNat_true]
                  omega
              | _ => simp [hw, popping] at hpop
  | _ => simp [inQueue] at hin

/-- **The worker gets nearer to its next send** with each of its steps, and no step of
another throws it back. -/
theorem workerDist_step (h : Draining D s) (hne : pipeline F s ≠ []) (he : LeftAlone e)
    (hs : step s e = some s') (hsent : sent s e = none) :
    workerDistAt D s'.queue.cons s'.worker ≤
      workerDistAt D s.queue.cons s.worker - (isWorker e).toNat := by
  cases moves_of_step hs with
  | generator hm => exact absurd h.idle hm.thread_ne_none
  | access hin hq => exact workerDist_access h hne he hin hq
  | startDisseminator hworker => exact absurd hworker h.working
  | joinDisseminator hworker _ => exact absurd hworker h.not_finished
  | idle hcall =>
      cases e with
      | startDisseminator => exact Nat.le_refl _
      | callRequestStop => exact absurd rfl he.2
      | joinDisseminator => exact Nat.le_refl _
      | _ => simp [onDisseminator] at hcall
  | disseminator hworker hm =>
      rw [hworker]
      simp only [isWorker, Bool.toNat_true]
      cases hm with
      | begin => simp [workerDistAt]
      | callPop hq =>
          cases MarketDataQueue.moves_of_step hq with
          | callPop _ =>
              simp only [workerDistAt, Option.elim_some]
              omega
      | popped _ _ =>
          simp only [workerDistAt]
          omega
      | stopped hret _ =>
          obtain ⟨c, hc, hret'⟩ := Option.bind_eq_some_iff.mp hret
          exact absurd (D.returns h.inv hc hret') (by simp)
      | stamp => simp [workerDistAt]
      | send => simp [sent, hworker] at hsent
  | _ => exact Nat.le_refl _

/-- **One step of the drain.** -/
theorem drainLeft_step (h : Draining D s) (he : LeftAlone e) (hs : step s e = some s') :
    drainLeft D s' ≤ drainLeft D s - (isWorker e).toNat := by
  have hlength := congrArg List.length (h.flow he hs)
  simp only [List.length_map, List.length_append] at hlength
  by_cases hne : pipeline F s = []
  · -- Nothing was on its way, and nothing is.
    rw [hne, List.length_nil] at hlength
    have hnil : pipeline F s' = [] := List.eq_nil_of_length_eq_zero (by omega)
    unfold drainLeft
    rw [if_pos hnil]
    exact Nat.zero_le _
  · cases hsent : sent s e with
    | none =>
        have hdist := workerDist_step h hne he hs hsent
        rw [hsent, Option.toList_none, List.length_nil, Nat.zero_add] at hlength
        have hne' : pipeline F s' ≠ [] := by
          intro hnil
          rw [hnil] at hlength
          exact hne (List.eq_nil_of_length_eq_zero hlength)
        have hone := Bool.toNat_le (isWorker e)
        have hpos := workerDistAt_pos D s.queue.cons h.working h.not_finished
        unfold drainLeft
        rw [if_neg hne, if_neg hne', ← hlength]
        omega
    | some msg =>
        -- A message is sent: one round less, and the way to the next send anew.
        rw [hsent, Option.toList_some, List.length_singleton] at hlength
        have hdist := workerDistAt_le D s'.queue.cons s'.worker
        have hone : workerDistAt D s.queue.cons s.worker = 1 ∧ (isWorker e).toNat = 1 := by
          cases e with
          | disseminator u now =>
              refine ⟨?_, rfl⟩
              simp only [sent] at hsent
              split at hsent
              · next hworker => rw [hworker]; rfl
              · simp at hsent
          | _ => simp [sent] at hsent
        unfold drainLeft
        rw [if_neg hne, hone.1, hone.2, Nat.add_sub_cancel]
        by_cases hnil : pipeline F s' = []
        · rw [if_pos hnil]
          exact Nat.zero_le _
        · rw [if_neg hnil]
          obtain ⟨n, hn⟩ := Nat.exists_eq_succ_of_ne_zero
            (fun hzero => hnil (List.eq_nil_of_length_eq_zero hzero))
          rw [hlength, hn, Nat.succ_sub_one, Nat.add_sub_cancel_left, Nat.mul_succ]
          omega

theorem Draining.enabled (h : Draining D s) (hne : pipeline F s ≠ []) :
    ∃ e, isWorker e = true ∧ (Pipeline.step s e).isSome = true := by
  obtain ⟨pc, hworker⟩ := Option.ne_none_iff_exists'.mp h.working
  refine worker_enabled h.paired hworker ?_ ?_
  · rintro rfl
    exact h.not_finished hworker
  · intro c hc hret
    have hpop := h.paired.cons
    rw [hc, hworker] at hpop
    cases pc with
    | popping topic => exact D.enabled h.inv h.prod (h.flow_ne_nil hne hworker) hc hret
    | _ => simp [popping] at hpop

theorem leftAlone_of_isWorker (h : isWorker e = true) : LeftAlone e := by
  constructor
  · rintro rfl
    simp [isWorker] at h
  · rintro rfl
    simp [isWorker] at h

theorem drain_progress (K : Quits Q) (D : PopTakes F) :
    Machine.Progress (machine Q) LeftAlone isWorker (Draining D) (drainLeft D) where
  step h he hs := ⟨h.step K he hs, drainLeft_step h he hs⟩
  enabled := by
    intro s h hpos
    have hne : pipeline F s ≠ [] := by
      intro hnil
      unfold drainLeft at hpos
      rw [if_pos hnil] at hpos
      exact absurd hpos (Nat.lt_irrefl 0)
    obtain ⟨e, hmine, hsome⟩ := h.enabled hne
    exact ⟨e, hmine, leftAlone_of_isWorker hmine, hsome⟩

/-! ### Main result -/

/-- As long as nobody calls `request_stop`, no stop is requested. -/
theorem unasked_of_exec (K : Quits Q) {es : List Event} (h : (machine Q).Exec es s)
    (hnone : s.queue.stopper = none) : MarketDataQueue.Unasked s.queue := by
  refine ⟨hnone, ?_⟩
  refine Machine.Exec.induction
    (P := fun _ s => s.queue.stopper = none → s.queue.stop.requested = false) ?_ ?_ h hnone
  · intro _
    rfl
  · intro es s e s' _ ih hs hnone'
    rcases queue_cases hs with heq | ⟨qe, hq, -, -⟩ | ⟨-, -, heq⟩
    · rw [heq] at hnone' ⊢
      exact ih hnone'
    · exact MarketDataQueue.unrequested_step K ih hq hnone'
    · rw [heq]
      rfl

/-- What the disseminator has still to send, when the generator is stopped. -/
def unsent (F : Fifo N Q) (s : State Q) : List MarketDataMsg :=
  popped F s ++ contents N s.queue.mem

theorem Draining.unsent_eq (h : Draining D s) : unsent F s = pipeline F s := by
  unfold unsent popped pipeline Fifo.flow
  rw [h.prod, h.idle]
  simp [Fifo.trying, retrying]

/-- The queue drains, where every access of a thread takes effect at once.  From every
state reached with the generator stopped and the disseminator at work, however the threads
go on from there while nobody starts the generator or stops the disseminator: everything
generated and not dropped since the beginning has been sent, or the worker has taken fewer
than `round` steps for each message that was left, and can take another. -/
def Drains (F : Fifo N Q) (round : Nat) : Prop :=
  ∀ es s, (machine Q).Exec es s → s.generator.thread = none → s.worker ≠ none →
    s.queue.stopper = none →
    ∀ fs s', (machine Q).run s fs = some s' → (∀ e ∈ fs, LeftAlone e) →
      (unsent F s' = [] ∧ ((sessions Q (es ++ fs)).all.flatMap Session.kept).map unstamped =
          ((machine Q).log sent (es ++ fs)).map unstamped) ∨
        (fs.countP isWorker < round * (unsent F s).length ∧
          ∃ e, isWorker e = true ∧ (step s' e).isSome = true)

theorem drains (K : Quits Q) (D : PopTakes F) : Drains F (round D) := by
  intro es s hex hidle hworking hnone fs s' hrun hall
  have hdraining : Draining D s := by
    have hinv : RunInv F es s := RunInv.of_exec hex
    exact ⟨hinv.coupled, Paired.of_exec hex, hidle, unasked_of_exec K hex hnone,
      Serving.of_exec K hex, hworking⟩
  obtain ⟨hdraining', hle⟩ := (drain_progress K D).run hdraining hall hrun
  rw [hdraining.unsent_eq, hdraining'.unsent_eq]
  by_cases hnil : pipeline F s' = []
  · refine Or.inl ⟨hnil, ?_⟩
    have hinv' : RunInv F (es ++ fs) s' := RunInv.of_exec (hex.append hrun)
    have hconserved := hinv'.conserved
    rw [hnil, List.append_nil] at hconserved
    exact hconserved
  · refine Or.inr ⟨?_, hdraining'.enabled hnil⟩
    have hbound := drainLeft_le D s
    have hpos : drainLeft D s' ≠ 0 := fun hzero =>
      hnil (drainLeft_eq_zero (D := D) hzero hdraining'.working hdraining'.not_finished)
    omega

/-- **The queue drains**, with either queue class, in every run of sequentially consistent
steps.  With the waitable queue it need not behind store buffers, where a pop may sleep
beside a queued item. -/
theorem queue_drains (N : Capacity W) :
    Drains (spinFifo N) 14 ∧ Drains (waitableFifo N) 16 :=
  ⟨drains (spinQuits N) (spinPopTakes N), drains (waitableQuits N) (waitablePopTakes N)⟩

/-! ### Two runs -/

/-- The disseminator sends the message that was left, and tries to pop another. -/
def drainSteps : List Event :=
  disseminatorSteps 2 ++ List.replicate 7 .pop ++ disseminatorSteps 4 ++ [.pop]

theorem onePushed_goes : ((machine (SpinSpscQueue slots128)).run
    (machine (SpinSpscQueue slots128)).init onePushed).isSome = true := by
  decide +kernel

theorem drainSteps_goes : ((machine (SpinSpscQueue slots128)).run
    ((machine (SpinSpscQueue slots128)).final onePushed onePushed_goes) drainSteps).isSome =
      true := by
  decide +kernel

/-- The pop goes to sleep, a push wakes it, and the generator is stopped. -/
def pushedAsleep : List Event :=
  [.startDisseminator] ++ disseminatorSteps 2 ++ List.replicate 10 .pop ++
    [.setRate 1000, .startGenerator] ++ generatorSteps 5 ++ List.replicate 8 .push ++
    generatorSteps 1 ++ [.requestStopGenerator] ++ generatorSteps 1 ++ [.joinGenerator]

/-- The woken pop takes the message. -/
def drainWoken : List Event :=
  List.replicate 9 .pop ++ disseminatorSteps 4 ++ List.replicate 3 .pop

theorem pushedAsleep_goes : ((machine (WaitableSpscQueue slots128)).run
    (machine (WaitableSpscQueue slots128)).init pushedAsleep).isSome = true := by
  decide +kernel

theorem drainWoken_goes : ((machine (WaitableSpscQueue slots128)).run
    ((machine (WaitableSpscQueue slots128)).final pushedAsleep pushedAsleep_goes)
      drainWoken).isSome = true := by
  decide +kernel

/-- The message that was left is sent, by a pop that begins with it in the queue and by one
that has slept. -/
theorem queue_drains_runs :
    (∃ s s', (machine (SpinSpscQueue slots128)).Exec onePushed s ∧
      (unsent (spinFifo slots128) s).length = 1 ∧
      (machine (SpinSpscQueue slots128)).run s drainSteps = some s' ∧
      unsent (spinFifo slots128) s' = []) ∧
    ∃ s s', (machine (WaitableSpscQueue slots128)).Exec pushedAsleep s ∧
      (unsent (waitableFifo slots128) s).length = 1 ∧
      (machine (WaitableSpscQueue slots128)).run s drainWoken = some s' ∧
      unsent (waitableFifo slots128) s' = [] := by
  constructor
  · obtain ⟨s', hs'⟩ := Option.isSome_iff_exists.mp drainSteps_goes
    have hone : (unsent (spinFifo slots128)
        ((machine (SpinSpscQueue slots128)).final onePushed onePushed_goes)).length = 1 := by
      decide +kernel
    refine ⟨_, s', Machine.exec_final onePushed_goes, hone, hs', ?_⟩
    have h := (queue_drains slots128).1 onePushed _ (Machine.exec_final onePushed_goes)
      (by decide +kernel) (by decide +kernel) (by decide +kernel) drainSteps s' hs'
      (by simp [drainSteps, disseminatorSteps, LeftAlone])
    rcases h with ⟨hnil, -⟩ | ⟨hlt, -⟩
    · exact hnil
    · rw [hone] at hlt
      exact absurd hlt (by decide)
  · obtain ⟨s', hs'⟩ := Option.isSome_iff_exists.mp drainWoken_goes
    have hone : (unsent (waitableFifo slots128)
        ((machine (WaitableSpscQueue slots128)).final pushedAsleep pushedAsleep_goes)).length =
          1 := by
      decide +kernel
    refine ⟨_, s', Machine.exec_final pushedAsleep_goes, hone, hs', ?_⟩
    have h := (queue_drains slots128).2 pushedAsleep _ (Machine.exec_final pushedAsleep_goes)
      (by decide +kernel) (by decide +kernel) (by decide +kernel) drainWoken s' hs'
      (by simp [drainWoken, disseminatorSteps, LeftAlone])
    rcases h with ⟨hnil, -⟩ | ⟨hlt, -⟩
    · exact hnil
    · rw [hone] at hlt
      exact absurd hlt (by decide)

end Pipeline

end MarketData
