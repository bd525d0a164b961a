/-
A stop request and a pop that is about to sleep.

`WaitableSpscQueue::pop` tests the stop token, tries the queue, announces with
`is_sleeping_.store(true)` that it will sleep, tries again and waits.  The stop
callback clears the flag and notifies.  A callback that comes after the
announcement is seen; one that runs between the test and the announcement is
overwritten by it, and nobody clears the flag again: the pop blocks with the stop
already requested.

`CallbackTimely` says of one step that it is not such a callback.  Runs all of
whose steps are timely keep `StopInv`, under which the state just described does
not occur; `missed_stop` is a run with one untimely step that ends in it.
-/
import MarketData.Proofs.QueueSteps

namespace MarketData

open Lib

variable {T : Type} {W : Nat} {N : Capacity W}

/-- Between the test of the stop token and the store that announces the sleep. -/
def WaitPopPc.passedTest : WaitPopPc T W → Bool
  | .firstPop _ => true
  | .storeTrue => true
  | _ => false

/-- Where the pop has its callback registered, unless a stop came first. -/
def WaitPopPc.listening : WaitPopPc T W → Bool
  | .registerCallback => false
  | .done _ => false
  | _ => true

/-- The callback of the stop request has cleared the flag. -/
def StopPc.cleared : StopPc → Bool
  | .callbackNotify => true
  | .callbackDone => true
  | .done => true
  | _ => false

/-- The stop request has set the stop flag. -/
def StopPc.raised : StopPc → Bool
  | .request => false
  | _ => true

theorem StopPc.raised_of_cleared {p : StopPc} (h : p.cleared = true) : p.raised = true := by
  cases p with
  | request => simp [cleared] at h
  | _ => rfl

/-- What a pop may be doing once the callback has cleared the flag: it is on its
way out, or the flag it is about to wait on is down; it is still blocked only
until the callback notifies. -/
def WaitPopPc.Released (p : StopPc) (m : Mem T W) : WaitPopPc T W → Prop
  | .firstPop _ => False
  | .storeTrue => False
  | .secondPop _ => m .isSleeping_ = false
  | .wait => m .isSleeping_ = false
  | .blocked => m .isSleeping_ = false ∧ p = .callbackNotify
  | _ => True

namespace MarketDataQueue

/-- The step is not the callback of a stop request clearing the flag while the pop
has passed its stop test and not yet announced its sleep. -/
def CallbackTimely (s : State (WaitableSpscQueue N : QueueCode T W)) : Event T → Prop
  | .requestStop => s.stopper = some .callbackStore → s.cons.any WaitPopPc.passedTest = false
  | _ => True

instance (s : State (WaitableSpscQueue N : QueueCode T W)) :
    ∀ e, Decidable (CallbackTimely s e)
  | .requestStop => inferInstanceAs (Decidable (s.stopper = some .callbackStore →
      s.cons.any WaitPopPc.passedTest = false))
  | .callPush _ => inferInstanceAs (Decidable True)
  | .callPop => inferInstanceAs (Decidable True)
  | .callRequestStop => inferInstanceAs (Decidable True)
  | .push => inferInstanceAs (Decidable True)
  | .pop => inferInstanceAs (Decidable True)
  | .spurious => inferInstanceAs (Decidable True)
  | .retPush => inferInstanceAs (Decidable True)
  | .retPop => inferInstanceAs (Decidable True)

/-- What ties the stop state, the thread that requests the stop and the pop. -/
structure StopInv (s : State (WaitableSpscQueue N : QueueCode T W)) : Prop where
  raised : s.stop.requested = s.stopper.any StopPc.raised
  quiet : s.stop.requested = false → ∀ c, s.cons = some c → WaitPopPc.listening c = true →
    s.stop.callback = .registered
  released : ∀ p, s.stopper = some p → p.cleared = true → ∀ c, s.cons = some c →
    WaitPopPc.Released p s.mem c

/-- Once the stop is requested, only the last part is left to show. -/
theorem StopInv.of_requested {s : State (WaitableSpscQueue N : QueueCode T W)}
    (hup : s.stop.requested = true) (hraised : s.stopper.any StopPc.raised = true)
    (hreleased : ∀ p, s.stopper = some p → p.cleared = true → ∀ c, s.cons = some c →
      WaitPopPc.Released p s.mem c) : StopInv s := by
  refine ⟨hup.trans hraised.symm, ?_, hreleased⟩
  intro hreq
  rw [hreq] at hup
  cases hup

theorem StopInv.initial : StopInv (machine (WaitableSpscQueue N : QueueCode T W)).init where
  raised := rfl
  quiet := by
    intro _ c hc
    simp [machine] at hc
  released := by
    intro p hp
    simp [machine] at hp

end MarketDataQueue

/-! ### What survives a step -/

/-- Clearing the flag, or leaving it alone, keeps a pop released. -/
theorem WaitPopPc.Released.mono {p : StopPc} {m m' : Mem T W} {c : WaitPopPc T W}
    (h : Released p m c) (hm : m .isSleeping_ = false → m' .isSleeping_ = false) :
    Released p m' c := by
  cases c with
  | secondPop q => exact hm h
  | wait => exact hm h
  | blocked => exact ⟨hm h.1, h.2⟩
  | _ => exact h

/-- A wake-up keeps a pop released, whatever the stop request does next. -/
theorem WaitPopPc.Released.wake {p p' : StopPc} {m : Mem T W} {c : WaitPopPc T W}
    (h : Released p m c) : Released p' m c.wake := by
  cases c with
  | blocked => exact h.1
  | _ => exact h

/-- A step of a released pop leaves it released, provided the stop flag is up. -/
theorem WaitPopPc.Released.step {p : StopPc} {m : Mem T W} {st : StopState} {c : WaitPopPc T W}
    {n : Instr.Next Loc (Cell T W) StopState (WaitPopPc T W)} (h : Released p m c)
    (hreq : st.requested = true) (hn : Steps N m st c n) : Released p n.mem n.pc := by
  cases hn with
  | proceed hreq' => rw [hreq] at hreq'; simp at hreq'
  | firstAccess q n' hn' => exact h.elim
  | firstEmpty => exact h.elim
  | storeTrue => exact h.elim
  | secondAccess q n' hn' =>
      show n'.mem .isSleeping_ = false
      rw [(PopPc.frame hn').2.1]
      exact h
  | secondEmpty => exact h
  | block hflag =>
      have hdown : m .isSleeping_ = false := h
      rw [hdown] at hflag
      simp at hflag
  | _ => trivial

/-- Once the flag is down, a pop outside the gap is released until the notify. -/
theorem WaitPopPc.released_of_cleared {m : Mem T W} {c : WaitPopPc T W}
    (h : c.passedTest = false) :
    Released .callbackNotify (Function.update m .isSleeping_ false) c := by
  cases c with
  | firstPop q => simp [passedTest] at h
  | storeTrue => simp [passedTest] at h
  | secondPop q => simp [Released]
  | wait => simp [Released]
  | blocked => simp [Released]
  | _ => trivial

/-- After the notify no released pop is blocked, so the request can go on. -/
theorem WaitPopPc.Released.of_ne {p p' : StopPc} {m : Mem T W} {c : WaitPopPc T W}
    (h : Released p m c) (hp : p ≠ .callbackNotify) : Released p' m c := by
  cases c with
  | blocked => exact absurd h.2 hp
  | _ => exact h

/-- A pop that has no callback registered is not about to sleep. -/
theorem WaitPopPc.released_of_not_listening {p : StopPc} {m : Mem T W} {c : WaitPopPc T W}
    (h : c.listening = false) : Released p m c := by
  cases c with
  | registerCallback => trivial
  | done res => trivial
  | _ => simp [listening] at h

/-- As long as no stop is requested, a pop that listens has its callback registered. -/
theorem WaitPopPc.Steps.quiet {m : Mem T W} {st : StopState} {c : WaitPopPc T W}
    {n : Instr.Next Loc (Cell T W) StopState (WaitPopPc T W)} (h : Steps N m st c n)
    (hq : st.requested = false) (hreg : c.listening = true → st.callback = .registered)
    (hpc : n.pc.listening = true) : n.obj.callback = .registered := by
  cases h with
  | register _ => rfl
  | registerLate hreq => rw [hq] at hreq; simp at hreq
  | deregister res hrun => simp [WaitPopPc.listening] at hpc
  | _ => exact hreg rfl

theorem WaitPopPc.listening_wake (c : WaitPopPc T W) : c.wake.listening = c.listening := by
  cases c <;> rfl

namespace MarketDataQueue

variable {s s' : State (WaitableSpscQueue N : QueueCode T W)} {e : Event T}

theorem StopInv.requested (h : StopInv s) {p : StopPc} (hp : s.stopper = some p)
    (hr : p.raised = true) : s.stop.requested = true := by
  rw [h.raised, hp]
  exact hr

theorem StopInv.quiet_woken (h : StopInv s) {b : Bool} {c : WaitPopPc T W}
    (hc : woken (Q := WaitableSpscQueue N) b s.cons = some c) (hq : s.stop.requested = false)
    (hl : c.listening = true) : s.stop.callback = .registered := by
  obtain ⟨d, hd, rfl | rfl⟩ := exists_of_woken hc
  · exact h.quiet hq c hd hl
  · rw [WaitPopPc.listening_wake] at hl
    exact h.quiet hq d hd hl

theorem StopInv.push (h : StopInv s) {p : WaitPushPc T W}
    {n : Instr.Next Loc (Cell T W) StopState (WaitPushPc T W)}
    (hn : WaitPushPc.Steps N s.mem s.stop p n) :
    StopInv { s with mem := n.mem, stop := n.obj, prod := some n.pc,
                     cons := woken n.woken s.cons } := by
  refine ⟨?_, ?_, ?_⟩
  · show n.obj.requested = _
    rw [hn.obj]
    exact h.raised
  · intro hreq c hc hl
    have hobj : n.obj = s.stop := hn.obj
    rw [show n.obj.callback = s.stop.callback by rw [hobj]]
    exact h.quiet_woken hc (by rw [← hobj]; exact hreq) hl
  · intro q hq hcl c hc
    obtain ⟨d, hd, rfl | rfl⟩ := exists_of_woken hc
    · exact (h.released q hq hcl c hd).mono hn.flag
    · exact ((h.released q hq hcl d hd).mono hn.flag).wake

theorem StopInv.pop (h : StopInv s) {c : WaitPopPc T W} (hc : s.cons = some c)
    {n : Instr.Next Loc (Cell T W) StopState (WaitPopPc T W)}
    (hn : WaitPopPc.Steps N s.mem s.stop c n) :
    StopInv { s with mem := n.mem, stop := n.obj, cons := some n.pc } := by
  refine ⟨?_, ?_, ?_⟩
  · show n.obj.requested = _
    rw [hn.requested]
    exact h.raised
  · intro hreq d hd hl
    rw [← Option.some.inj hd] at hl
    have hreq' : s.stop.requested = false := by rw [← hn.requested]; exact hreq
    exact hn.quiet hreq' (fun hlc => h.quiet hreq' c hc hlc) hl
  · intro q hq hcl d hd
    rw [← Option.some.inj hd]
    exact (h.released q hq hcl c hc).step (h.requested hq (StopPc.raised_of_cleared hcl)) hn

/-- The one step that needs the condition is the store of the callback: before it
the pop may be anywhere, after it the pop must be released. -/
theorem StopInv.requestStop (h : StopInv s) {p : StopPc} (hp : s.stopper = some p)
    (htimely : p = .callbackStore → s.cons.any WaitPopPc.passedTest = false)
    {n : Instr.Next Loc (Cell T W) StopState StopPc} (hn : StopPc.Steps s.mem s.stop p n) :
    StopInv { s with mem := n.mem, stop := n.obj, stopper := some n.pc,
                     cons := woken n.woken s.cons } := by
  cases hn with
  | again hreq =>
      rw [h.raised, hp] at hreq
      simp [StopPc.raised] at hreq
  | claim hreq hc =>
      refine .of_requested rfl rfl ?_
      intro q hq hcl
      rw [← Option.some.inj hq] at hcl
      simp [StopPc.cleared] at hcl
  | unheard hreq hc =>
      refine .of_requested rfl rfl ?_
      intro q _ _ c hcons
      refine WaitPopPc.released_of_not_listening ?_
      by_contra hl
      exact hc (h.quiet hreq c hcons (by simpa using hl))
  | callbackStore =>
      refine .of_requested (h.requested hp rfl) rfl ?_
      intro q hq _ c hc
      have hpassed := htimely rfl
      rw [show s.cons = some c from hc] at hpassed
      rw [← Option.some.inj hq]
      exact WaitPopPc.released_of_cleared hpassed
  | callbackNotify =>
      refine .of_requested (h.requested hp rfl) rfl ?_
      intro q _ _ c hc
      obtain ⟨d, hd, rfl⟩ := Option.map_eq_some_iff.mp hc
      exact (h.released .callbackNotify hp rfl d hd).wake
  | callbackDone =>
      refine .of_requested (h.requested hp rfl) rfl ?_
      intro q _ _ c hc
      exact (h.released .callbackDone hp rfl c hc).of_ne (by simp)

/-- A step that meets the condition keeps the invariant. -/
theorem StopInv.step (h : StopInv s) (htimely : CallbackTimely s e)
    (hs : step s e = some s') : StopInv s' := by
  cases moves_of_step hs with
  | callPush item hp => exact ⟨h.raised, h.quiet, h.released⟩
  | callPop hc =>
      refine ⟨h.raised, ?_, ?_⟩
      · intro _ c hc' hl
        rw [← Option.some.inj hc'] at hl
        simp [WaitPopPc.listening] at hl
      · intro q _ _ c hc'
        rw [← Option.some.inj hc']
        trivial
  | callRequestStop hp =>
      refine ⟨?_, h.quiet, ?_⟩
      · rw [h.raised, hp]
        rfl
      · intro q hq hcl
        rw [← Option.some.inj hq] at hcl
        simp [StopPc.cleared] at hcl
  | push p n hp hn => exact h.push (WaitPushPc.steps_of_sc hn)
  | pop c n hc hn => exact h.pop hc (WaitPopPc.steps_of_sc hn)
  | requestStop p n hp hn =>
      refine h.requestStop hp ?_ (StopPc.steps_of_sc hn)
      intro hpc
      exact htimely (hpc ▸ hp)
  | spurious =>
      refine ⟨h.raised, ?_, ?_⟩
      · intro hreq c hc hl
        obtain ⟨d, hd, rfl⟩ := Option.map_eq_some_iff.mp hc
        exact h.quiet hreq d hd (WaitPopPc.listening_wake d ▸ hl)
      · intro q hq hcl c hc
        obtain ⟨d, hd, rfl⟩ := Option.map_eq_some_iff.mp hc
        exact (h.released q hq hcl d hd).wake
  | retPush p ok hp hr => exact ⟨h.raised, h.quiet, h.released⟩
  | retPop c res hc hr =>
      refine ⟨h.raised, ?_, ?_⟩
      · intro _ c hc'
        simp at hc'
      · intro q _ _ c hc'
        simp at hc'

/-! ### The stop that is missed and the stop that is not -/

/-- A pop on an empty queue passes its stop test and tries once. -/
def passTest : List (Event Nat) := .callPop :: List.replicate 5 .pop

/-- The whole of a stop request. -/
def wholeStop : List (Event Nat) := .callRequestStop :: List.replicate 4 .requestStop

/-- The pop announces, tries again and waits. -/
def fallAsleep : List (Event Nat) := List.replicate 5 .pop

/-- A woken pop loads the flag, tests the token and deregisters its callback. -/
def leave : List (Event Nat) := List.replicate 3 .pop

/-- The stop request comes between the test and the announcement. -/
def missedRun : List (Event Nat) := passTest ++ wholeStop ++ fallAsleep

/-- **The gap is real.**  The stop request has completed, callback included, no push
is in progress, and the pop is blocked. -/
theorem missed_stop : ∃ s : State (WaitableSpscQueue slots128 : QueueCode Nat 64),
    (machine (WaitableSpscQueue slots128 : QueueCode Nat 64)).Exec missedRun s ∧
      s.stopper = some .done ∧ s.prod = none ∧ s.cons = some .blocked := by
  refine ⟨_, rfl, ?_, ?_, ?_⟩
  · rfl
  · rfl
  · rfl

/--
**A stop request whose callback runs in time is not missed.**  In every run in
which the callback never clears the flag between a pop's stop test and its
announcement, no state has the stop request completed, no push in progress and
the pop blocked.
-/
theorem stop_not_missed (N : Capacity W) (es : List (Event T))
    (s : State (WaitableSpscQueue N : QueueCode T W))
    (h : (machine (WaitableSpscQueue N : QueueCode T W)).Exec es s)
    (htimely : (machine (WaitableSpscQueue N : QueueCode T W)).Along CallbackTimely es) :
    ¬ (s.stopper = some .done ∧ s.prod = none ∧ s.cons = some .blocked) := by
  rintro ⟨hstop, -, hblocked⟩
  have hinv : StopInv s := Machine.Exec.invariant_along StopInv.initial
    (fun s e s' hi hg hs => hi.step hg hs) h htimely
  obtain ⟨-, hpc⟩ := hinv.released .done hstop rfl .blocked hblocked
  simp at hpc

/-- The condition is not too strong: from every state in which the callback is about
to clear the flag inside the gap, with no push and nothing queued, the steps of the
stop request followed by those of the pop end in a missed stop. -/
theorem missed_of_untimely (hstop : s.stopper = some .callbackStore)
    (hcons : s.cons = some .storeTrue) (hprod : s.prod = none)
    (hempty : s.mem .read_ = s.mem .write_) :
    ∃ t, (machine (WaitableSpscQueue N : QueueCode T W)).run s
        (List.replicate 3 .requestStop ++ List.replicate 5 .pop) = some t ∧
      t.stopper = some .done ∧ t.prod = none ∧ t.cons = some .blocked := by
  obtain ⟨m, st, p, c, q⟩ := s
  subst hstop hcons hprod
  have hsame : m .read_ = m .write_ := hempty
  simp [List.replicate, Machine.run_cons, machine, step, stepStop, stepPop, StopPc.code,
    WaitableSpscQueue, WaitPopPc.code, WaitPopPc.wake, PopPc.call, PopPc.code, Instr.map,
    woken, hsame]

/-- The stop request comes after the pop has gone to sleep, and the pop gets out. -/
def timelyRun : List (Event Nat) := passTest ++ fallAsleep ++ wholeStop ++ leave

theorem timelyRun_goes : ((machine (WaitableSpscQueue slots128 : QueueCode Nat 64)).run
    (machine (WaitableSpscQueue slots128 : QueueCode Nat 64)).init timelyRun).isSome = true := by
  decide +kernel

theorem stop_not_missed_timelyRun :
    ((machine (WaitableSpscQueue slots128 : QueueCode Nat 64)).final timelyRun
      timelyRun_goes).stopper = some .done ∧
    ¬ (((machine (WaitableSpscQueue slots128 : QueueCode Nat 64)).final timelyRun
          timelyRun_goes).stopper = some .done ∧
        ((machine (WaitableSpscQueue slots128 : QueueCode Nat 64)).final timelyRun
          timelyRun_goes).prod = none ∧
        ((machine (WaitableSpscQueue slots128 : QueueCode Nat 64)).final timelyRun
          timelyRun_goes).cons = some .blocked) :=
  ⟨by decide +kernel, stop_not_missed slots128 timelyRun _ (Machine.exec_final timelyRun_goes)
    (Machine.along_of_alongFrom (by decide +kernel))⟩

end MarketDataQueue

end MarketData
