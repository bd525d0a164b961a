/-
The program with the waitable queue does what the program with the spinning queue does.

`WaitableRefinesSpin` compares the two queue classes as long as nobody requests a stop.
With stop requests one thing has to be seen differently.  A waitable pop whose first try
has failed announces that it sleeps and tries again without looking at the token; a
spinning pop looks at the token before every try.  So the spinning pop has not begun yet
while the first try fails (`WaitPopPc.plain`): a try that finds nothing changes nothing,
and it is the second one that the spinning pop makes.  A try is begun in earnest where it
sees an item, and from there on the two go together.

The stop callback only writes the flag and notifies, and a request that is running it
has been heard already (`StopPc.plain`).
-/
import MarketData.Proofs.QueueSimulation
import MarketData.Proofs.WaitableRefinesSpin

namespace MarketData

open Lib

variable {T : Type} {W : Nat} {N : Capacity W}

/-! ### The spinning queue at the same moment -/

/-- A try that has not seen an item might as well not have begun. -/
def PopPc.restarted : PopPc T W → PopPc T W
  | .loadWrite _ => .loadRead
  | .done none => .loadRead
  | p => p

def WaitPopPc.plain : WaitPopPc T W → SpinPopPc T W
  | .firstPop p => .queue p.restarted
  | .storeTrue => .queue .loadRead
  | .secondPop (.done none) => .checkStop
  | .secondPop p => .queue p.restarted
  | .storeFalse item => .done (some item)
  | .deregisterCallback res => .done res
  | .done res => .done res
  | _ => .checkStop

/-- Without a callback `request_stop` is one step. -/
def StopPc.plain : StopPc → StopPc
  | .request => .request
  | _ => .done

theorem WaitPopPc.plain_ret {c : WaitPopPc T W} {res : Option T} (h : c.ret = some res) :
    c.plain.ret = some res := by
  cases c with
  | done r => exact h
  | _ => simp [WaitPopPc.ret] at h

theorem WaitPopPc.plain_wake (c : WaitPopPc T W) : c.wake.plain = c.plain := by
  cases c <;> rfl

namespace MarketDataQueue

/-- The spinning queue's state while the waitable queue is in `s`. -/
def plainState (s : State (WaitableSpscQueue N : QueueCode T W)) :
    State (SpinSpscQueue N : QueueCode T W) where
  mem := Function.update s.mem .isSleeping_ false
  stop := { requested := s.stop.requested, callback := .none }
  prod := s.prod.map WaitPushPc.spin
  cons := s.cons.map WaitPopPc.plain
  stopper := s.stopper.map StopPc.plain

variable {s s' : State (WaitableSpscQueue N : QueueCode T W)} {e : Event T}
  {t t' : State (SpinSpscQueue N : QueueCode T W)}

theorem plain_woken (b : Bool) (c : Option (WaitPopPc T W)) :
    (woken (Q := WaitableSpscQueue N) b c).map WaitPopPc.plain = c.map WaitPopPc.plain := by
  cases b with
  | false => rfl
  | true =>
      cases c with
      | none => rfl
      | some c => exact congrArg some (WaitPopPc.plain_wake c)

/-- The spinning queue answers with accesses, or not at all. -/
def Follows (t t' : State (SpinSpscQueue N : QueueCode T W)) : Prop :=
  ∃ ds, (∀ d ∈ ds, inside d = true) ∧
    (machine (SpinSpscQueue N : QueueCode T W)).run t ds = some t'

theorem Follows.of_eq (h : t' = t) : Follows t t' := by
  rw [h]
  exact ⟨[], by simp, rfl⟩

theorem Follows.one {d : Event T} (hd : inside d = true) (h : step t d = some t') :
    Follows t t' := by
  refine ⟨[d], by simpa using hd, ?_⟩
  rw [Machine.run_singleton]
  exact h

theorem Follows.trans {t'' : State (SpinSpscQueue N : QueueCode T W)} (h : Follows t t')
    (h' : Follows t' t'') : Follows t t'' := by
  obtain ⟨ds, hds, hrun⟩ := h
  obtain ⟨ds', hds', hrun'⟩ := h'
  refine ⟨ds ++ ds', ?_, Machine.run_append_some.mpr ⟨t', hrun, hrun'⟩⟩
  intro d hd
  rcases List.mem_append.mp hd with hd | hd
  · exact hds d hd
  · exact hds' d hd

/-! ### `push` and `request_stop` -/

theorem follows_push {p : WaitPushPc T W} (hp : s.prod = some p)
    {n : Instr.Next Loc (Cell T W) StopState (WaitPushPc T W)}
    (hn : WaitPushPc.Steps N s.mem s.stop p n) :
    Follows (plainState s)
      (plainState { s with mem := n.mem, stop := n.obj, prod := some n.pc,
                           cons := woken n.woken s.cons }) := by
  cases hn with
  | access q n' hn' =>
      have hq : (plainState s).prod = some q := by simp [plainState, hp, WaitPushPc.spin]
      have hsc := PushPc.sc_isSleeping false hn' (y := (plainState s).stop)
      have hmove := Moves.push (s := plainState s) q _ hq hsc
      exact Follows.one rfl hmove.step_eq
  | storeSleeping item =>
      refine Follows.of_eq ?_
      simp [plainState, hp, WaitPushPc.spin, woken]
  | notify item =>
      refine Follows.of_eq ?_
      simp only [plainState, hp, plain_woken]
      rfl
  | _ =>
      refine Follows.of_eq ?_
      simp only [plainState, hp]
      rfl

theorem follows_requestStop {p : StopPc} (hp : s.stopper = some p)
    {n : Instr.Next Loc (Cell T W) StopState StopPc} (hn : StopPc.Steps s.mem s.stop p n) :
    Follows (plainState s)
      (plainState { s with mem := n.mem, stop := n.obj, stopper := some n.pc,
                           cons := woken n.woken s.cons }) := by
  -- The spinning queue has no callback to run.
  have hrequest : p = .request → Follows (plainState s)
      { plainState s with stop := { requested := true, callback := .none },
                          stopper := some .done } := by
    rintro rfl
    refine Follows.one (d := .requestStop) rfl ?_
    cases hreq : s.stop.requested <;>
      simp [step, stepStop, plainState, hp, hreq, StopPc.plain, StopPc.code, woken]
  cases hn with
  | again hreq =>
      have hfollows := hrequest rfl
      rw [← hreq] at hfollows
      exact hfollows
  | claim _ _ => exact hrequest rfl
  | unheard _ _ => exact hrequest rfl
  | callbackStore =>
      refine Follows.of_eq ?_
      simp [plainState, hp, StopPc.plain, woken]
  | callbackNotify =>
      refine Follows.of_eq ?_
      simp only [plainState, hp, plain_woken]
      rfl
  | callbackDone =>
      refine Follows.of_eq ?_
      simp only [plainState, hp]
      rfl

/-! ### `pop` -/

/-- The spinning pop makes a step of its own code. -/
theorem follows_of_sc {c d : SpinPopPc T W} {m : Mem T W} (hc : t.cons = some c)
    (hsc : (c.code N).sc t.mem t.stop = some { mem := m, obj := t.stop, pc := d }) :
    Follows t { t with mem := m, cons := some d } := by
  have hmove := Moves.pop (s := t) c _ hc hsc
  exact Follows.one (d := .pop) rfl hmove.step_eq

/-- An access of a spinning pop that is inside a try. -/
theorem sc_queue {q q' : PopPc T W} {m m' : Mem T W} {st : StopState}
    (h : (q.code N).sc m st = some { mem := m', obj := st, pc := q' }) :
    ((SpinPopPc.queue q).code N).sc m st = some { mem := m', obj := st, pc := .queue q' } :=
  PopPc.call_access h

/-- From its beginning a try gets to where the counters have been compared. -/
theorem follows_compare (hc : t.cons = some (.queue .loadRead)) :
    Follows t { t with cons := some (.queue
      (if t.mem .read_ = t.mem .write_ then .done none else .move (t.mem .read_))) } := by
  have hread : Follows t { t with cons := some (.queue (.loadWrite (t.mem .read_))) } :=
    follows_of_sc hc rfl
  refine hread.trans ?_
  exact follows_of_sc (t := { t with cons := some (.queue (.loadWrite (t.mem .read_))) }) rfl rfl

/-- A try that has seen an item goes on to take it. -/
theorem taking_step {q : PopPc T W} {m : Mem T W} {st : StopState}
    {n : Instr.Next Loc (Cell T W) StopState (PopPc T W)} (hn : (q.code N).sc m st = some n)
    (hread : q ≠ .loadRead) (hwrite : ∀ r, q ≠ .loadWrite r) :
    q.restarted = q ∧ n.pc.restarted = n.pc ∧ n.pc ≠ .done none := by
  cases q with
  | loadRead => exact absurd rfl hread
  | loadWrite r => exact absurd rfl (hwrite r)
  | move r =>
      simp only [PopPc.code, Instr.sc_load, Option.some.injEq] at hn
      subst hn
      cases m (.data_ (r.toNat % N.val)) <;> simp [PopPc.restarted]
  | done res => simp [PopPc.code] at hn
  | fault => simp [PopPc.code] at hn
  | _ =>
      simp only [PopPc.code, Instr.sc_store, Option.some.injEq] at hn
      subst hn
      simp [PopPc.restarted]

/-- An access inside a try, of a waitable pop and of the spinning one: either the try has
just failed, or the spinning one keeps up. -/
theorem follows_try {q : PopPc T W} {pr : Option (PushPc T W)} {xs : List T}
    (hinv : QueueInv N s.mem pr (some q) xs)
    {n : Instr.Next Loc (Cell T W) StopState (PopPc T W)}
    (hn : (q.code N).sc s.mem s.stop = some n)
    (hcons : (plainState s).cons = some (.queue q.restarted)) :
    (n.pc = .done none ∧ n.mem = s.mem ∧ q.restarted = .loadRead ∧
        Follows (plainState s) { plainState s with cons := some (.queue (.done none)) }) ∨
      (n.pc ≠ .done none ∧ Follows (plainState s)
        { plainState s with mem := Function.update n.mem .isSleeping_ false,
                            cons := some (.queue n.pc.restarted) }) := by
  cases q with
  | loadRead =>
      simp only [PopPc.code, Instr.sc_load, Option.some.injEq] at hn
      subst hn
      refine .inr ⟨by simp, Follows.of_eq ?_⟩
      have hsame : (plainState s).cons = some (.queue .loadRead) := hcons
      simp only [PopPc.restarted]
      rw [← hsame]
      rfl
  | loadWrite r =>
      have hr : r = s.mem .read_ := hinv.cons
      have hcompare := follows_compare hcons
      simp only [PopPc.code, Instr.sc_load, Option.some.injEq] at hn
      subst hn
      by_cases hempty : r = s.mem .write_
      · refine .inl ⟨if_pos hempty, rfl, rfl, ?_⟩
        rw [if_pos (by simpa [plainState, ← hr] using hempty)] at hcompare
        exact hcompare
      · refine .inr ⟨by simp [hempty], ?_⟩
        rw [if_neg (by simpa [plainState, ← hr] using hempty)] at hcompare
        have hread : (plainState s).mem .read_ = r := by simp [plainState, hr]
        simp only [if_neg hempty, PopPc.restarted]
        rw [hread] at hcompare
        exact hcompare
  | _ =>
      obtain ⟨hq, hkeep, hne⟩ := taking_step hn (by simp) (by simp)
      have hsc := PopPc.sc_isSleeping false hn (y := (plainState s).stop)
      rw [hq] at hcons
      refine .inr ⟨hne, ?_⟩
      rw [hkeep]
      exact follows_of_sc hcons (sc_queue hsc)

theorem plain_secondPop {q : PopPc T W} (hq : q ≠ .done none) :
    (WaitPopPc.secondPop q).plain = .queue q.restarted := by
  cases q with
  | done res =>
      cases res with
      | none => exact absurd rfl hq
      | some item => rfl
  | _ => rfl

/-- A step of a waitable pop. -/
theorem follows_pop {c : WaitPopPc T W} (hc : s.cons = some c) {pr : Option (PushPc T W)}
    {xs : List T} (hinv : QueueInv N s.mem pr c.inPop xs)
    {n : Instr.Next Loc (Cell T W) StopState (WaitPopPc T W)}
    (hn : WaitPopPc.Steps N s.mem s.stop c n) :
    Follows (plainState s)
      (plainState { s with mem := n.mem, stop := n.obj, cons := some n.pc }) := by
  have hcons : (plainState s).cons = some c.plain := by simp [plainState, hc]
  cases hn with
  | proceed hreq =>
      refine follows_of_sc hcons ?_
      simp [WaitPopPc.plain, SpinPopPc.code, plainState, hreq, PopPc.restarted]
  | quit hreq =>
      refine follows_of_sc hcons ?_
      simp [WaitPopPc.plain, SpinPopPc.code, plainState, hreq]
  | firstAccess q n' hn' =>
      rcases follows_try hinv hn' hcons with ⟨hpc, hmem, hq, -⟩ | ⟨-, hfollows⟩
      · -- The spinning pop has not begun.
        refine Follows.of_eq ?_
        have hfirst : (WaitPopPc.firstPop q).plain = .queue .loadRead := by
          rw [WaitPopPc.plain, hq]
        have hfailed : (WaitPopPc.firstPop (.done none : PopPc T W)).plain = .queue .loadRead := rfl
        simp only [plainState, hc, hpc, hmem, Option.map_some, hfirst, hfailed]
      · exact hfollows
  | firstTook item => exact follows_of_sc hcons rfl
  | secondAccess q n' hn' =>
      have hq : q ≠ .done none := by
        rintro rfl
        simp [PopPc.code] at hn'
      rw [plain_secondPop hq] at hcons
      rcases follows_try hinv hn' hcons with ⟨hpc, hmem, -, hfollows⟩ | ⟨hne, hfollows⟩
      · refine hfollows.trans ?_
        have hback := follows_of_sc (N := N) (d := .checkStop)
          (t := { plainState s with cons := some (.queue (.done none)) }) rfl rfl
        rw [hpc, hmem]
        exact hback
      · rw [← plain_secondPop hne] at hfollows
        exact hfollows
  | secondTook item => exact follows_of_sc hcons rfl
  | storeTrue =>
      refine Follows.of_eq ?_
      simp [plainState, hc, WaitPopPc.plain, PopPc.restarted]
  | _ =>
      refine Follows.of_eq ?_
      simp [plainState, hc, WaitPopPc.plain, PopPc.restarted]

/-! ### One queue class in place of the other -/

/-- Calls, returns and the call of `request_stop` are made on both queues. -/
theorem plain_call (he : inside e = false) (hs : step s e = some s') :
    step (plainState s) e = some (plainState s') := by
  cases moves_of_step hs with
  | callPush item hp =>
      have hidle : (plainState s).prod = none := by simp [plainState, hp]
      exact (Moves.callPush item hidle).step_eq
  | callPop hc =>
      have hidle : (plainState s).cons = none := by simp [plainState, hc]
      exact (Moves.callPop hidle).step_eq
  | callRequestStop hp =>
      have hidle : (plainState s).stopper = none := by simp [plainState, hp]
      exact (Moves.callRequestStop hidle).step_eq
  | retPush p ok hp hr =>
      have hprod : (plainState s).prod = some p.spin := by simp [plainState, hp]
      have hret : p.spin.ret = some ok := WaitPushPc.spin_ret hr
      exact (Moves.retPush (s := plainState s) p.spin ok hprod hret).step_eq
  | retPop c res hc hr =>
      have hcons : (plainState s).cons = some c.plain := by simp [plainState, hc]
      have hret : c.plain.ret = some res := WaitPopPc.plain_ret hr
      exact (Moves.retPop (s := plainState s) c.plain res hcons hret).step_eq
  | _ => cases he

theorem plain_access (hinv : (waitableFifo N).Inv s) (hs : step s e = some s')
    (he : inside e = true) : Follows (plainState s) (plainState s') := by
  obtain ⟨xs, hxs⟩ := hinv
  cases moves_of_step hs with
  | push p n hp hn => exact follows_push hp (WaitPushPc.steps_of_sc hn)
  | pop c n hc hn =>
      unfold Fifo.Holds at hxs
      rw [hc] at hxs
      exact follows_pop hc hxs (WaitPopPc.steps_of_sc hn)
  | requestStop p n hp hn => exact follows_requestStop hp (StopPc.steps_of_sc hn)
  | spurious =>
      refine Follows.of_eq ?_
      simp only [plainState]
      rw [show s.cons.map (WaitableSpscQueue N).wake = woken true s.cons from rfl, plain_woken]
  | _ => cases he

end MarketDataQueue

open MarketDataQueue in
/-- The spinning queue follows the waitable one, stop requests and new sessions included. -/
def waitableAsSpin (N : Capacity W) :
    QueueSimulation (waitableFifo N) (SpinSpscQueue N : QueueCode T W) where
  image := plainState
  init := by simp [machine, plainState, Mem.initial, StopState.initial]
  call he hs := plain_call he hs
  pushRet := by
    intro s ok h
    obtain ⟨p, hp, hret⟩ := Option.bind_eq_some_iff.mp h
    have hspin : p.spin.ret = some ok := WaitPushPc.spin_ret hret
    simp [plainState, hp, hspin]
  popRet := by
    intro s res h
    obtain ⟨c, hc, hret⟩ := Option.bind_eq_some_iff.mp h
    have hplain : c.plain.ret = some res := WaitPopPc.plain_ret hret
    simp [plainState, hc, hplain]
  access hinv he hs := plain_access hinv hs he
  restart _ := rfl
  stopped h := by simp [plainState, h, StopPc.plain]
  contents _ := rfl

/-! ### The program -/

namespace System

variable {T : Transport} {cb : IFeedHandler.Callbacks}

/-- Two programs in states that differ in the queue class only. -/
structure SameOutside {Q Q' : QueueCode MarketDataMsg W} (N : Capacity W) (s : State Q T)
    (t : State Q' T) : Prop where
  generator : t.pipeline.generator = s.pipeline.generator
  worker : t.pipeline.worker = s.pipeline.worker
  contents : contents N t.pipeline.queue.mem = contents N s.pipeline.queue.mem
  network : t.network = s.network
  handler : t.handler = s.handler
  monitor : t.monitor = s.monitor

theorem sameOutside_withImage {Q Q' : QueueCode MarketDataMsg W} {F : Fifo N Q}
    (K : QueueSimulation F Q') (s : State Q T) : SameOutside N s (withImage K s) :=
  ⟨rfl, rfl, K.contents _, rfl, rfl, rfl⟩

/-- **The waitable strategy changes nothing outside the queue.**  Every run of the program
with the waitable queue, with any number of starts and stops, is matched by a run with the
spinning queue: the same calls and the same steps of the loops in the same order, which
generate, drop, send and deliver the same; in the end the two programs differ only in what
is inside the queue, and the queues hold the same messages. -/
theorem waitable_program_refines_spin (N : Capacity W) (T : Transport)
    (cb : IFeedHandler.Callbacks) (es : List (Event T)) (s : State (WaitableSpscQueue N) T)
    (h : (machine (WaitableSpscQueue N) T cb).Exec es s) :
    ∃ ds t, (machine (SpinSpscQueue N) T cb).Exec ds t ∧
      (machine (SpinSpscQueue N) T cb).log (shown cb) ds =
        (machine (WaitableSpscQueue N) T cb).log (shown cb) es ∧
      SameOutside N s t := by
  obtain ⟨ds, t, hds, hlog, -, rfl⟩ :=
    (simulation (waitableAsSpin N) T cb).exec h (Machine.along_true _)
  exact ⟨ds, _, hds, hlog, sameOutside_withImage _ s⟩

/-- The stop is requested after the first try of a pop has failed; then a message comes, and
the second try takes it. -/
def takenAfterStop : List Pipeline.Event :=
  [.setRate 1000, .startGenerator, .startDisseminator] ++ Pipeline.disseminatorSteps 2 ++
    List.replicate 6 .pop ++ [.callRequestStop] ++ List.replicate 4 .requestStop ++
    Pipeline.generatorSteps 5 ++ List.replicate 6 .push ++ Pipeline.generatorSteps 1 ++
    List.replicate 8 .pop ++ Pipeline.disseminatorSteps 3

def takenAfterStopRun : List (Event .zmq) :=
  takenAfterStop.map fun e => .pipeline e (Bytes.zero 4) ()

theorem takenAfterStopRun_goes :
    ((machine (WaitableSpscQueue slots128) .zmq IFeedHandler.Callbacks.both).run
      (machine (WaitableSpscQueue slots128) .zmq IFeedHandler.Callbacks.both).init
      takenAfterStopRun).isSome = true := by
  decide +kernel

/-- The spinning queue sends it too. -/
theorem waitable_program_refines_spin_takenAfterStop :
    ∃ ds t, (machine (SpinSpscQueue slots128) .zmq IFeedHandler.Callbacks.both).Exec ds t ∧
      t.network.length = 1 := by
  obtain ⟨ds, t, hds, -, hsame⟩ := waitable_program_refines_spin slots128 .zmq
    IFeedHandler.Callbacks.both takenAfterStopRun _ (Machine.exec_final takenAfterStopRun_goes)
  refine ⟨ds, t, hds, ?_⟩
  rw [hsame.network]
  decide +kernel

end System

end MarketData
