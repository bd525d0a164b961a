/-
`run_benchmark_pipeline` from its first call to its return.

Two things are shown of every run of the benchmark, for both queue classes and both
transports.

It comes to its end (`GoesOn`).  The main thread makes a bounded number of steps.  As
long as it has not returned it can make its next one, or it is in a `join`; then the
thread it waits for has taken fewer steps than a fixed number since the main thread's
last one, and can take another.  This puts together what was shown of the three `stop`s;
`Matches` says that they are called where those results apply.

And when it has returned, everything is accounted for (`Outcome`).  No thread is left
that could call into the monitor, which is destroyed then.  What was generated and not
dropped has been sent, except for what is left in the queue.  The number of messages that
`plot_throughput.py` reads from the files is not more than what was sent, unless the
network repeats packets or puts them out of order.
-/
import MarketData.Proofs.CsvFiles
import MarketData.Proofs.MainThread
import MarketData.Proofs.ReservedStorage
import Mathlib.Data.List.DropRight

namespace MarketData

open Lib IFeedHandler

namespace Main

variable {W : Nat} {Q : QueueCode MarketDataMsg W} {T : Transport} {X : HandlerCalls T}
  {cb : Callbacks} {p p' : Pipeline.State Q}

/-! ### How many steps the main thread makes -/

/-- How many steps `request_stop` has left. -/
def stopLeft : Option StopPc → Nat
  | some .request => 4
  | some .callbackStore => 3
  | some .callbackNotify => 2
  | some .callbackDone => 1
  | _ => 0

theorem stopLeft_step {e : Pipeline.Event} (hs : Pipeline.step p e = some p')
    (padding : Bytes 4) (env : T.Env) :
    stopLeft p'.queue.stopper + (insideCall X (.pipeline e padding env)).toNat ≤
      stopLeft p.queue.stopper + 4 * (pipelineCall e).toList.length := by
  cases Pipeline.moves_of_step hs with
  | generator hm =>
      rw [hm.frame.2.2.1]
      exact Nat.le_refl _
  | disseminator hworker hm =>
      rw [hm.frame.2.2.1]
      exact Nat.le_refl _
  | @access e qe q' hin hq =>
      cases MarketDataQueue.moves_of_step hq with
      | requestStop q n hstopper hn =>
          have hmine : insideCall X (.pipeline e padding env) = true := by
            cases e <;> cases hin
            rfl
          rw [hmine, hstopper]
          cases StopPc.steps_of_sc hn <;> simp [Pipeline.State.withQueue, stopLeft] <;> omega
      | callRequestStop hnone =>
          cases e <;> cases hin
          simp [Pipeline.State.withQueue, stopLeft, hnone, insideCall, pipelineCall]
      | push | pop | spurious =>
          cases e <;> cases hin
          simp [Pipeline.State.withQueue, insideCall]
      | _ => cases e <;> cases hin
  | idle he => cases e <;> simp [insideCall, Pipeline.onDisseminator] at he ⊢
  | startDisseminator hworker => simp [stopLeft, insideCall]
  | _ => simp [insideCall]

/-- How many steps inside its calls the main thread has left. -/
def insideLeft (L : HandlerLaws X) (s : System.State Q T) : Nat :=
  stopLeft s.pipeline.queue.stopper + L.left s.handler

theorem insideLeft_step (L : HandlerLaws X) {s s' : System.State Q T} {e : System.Event T}
    (hs : System.step cb s e = some s') :
    insideLeft L s' + (insideCall X e).toNat ≤
      insideLeft L s + 4 * (mainCall X e).toList.length := by
  unfold insideLeft
  cases e with
  | pipeline e padding env =>
      obtain ⟨hp, hh, -⟩ := System.pipelineStep_some hs
      have hle := stopLeft_step (X := X) hp padding env
      rw [hh]
      simp only [mainCall]
      omega
  | handler e =>
      obtain ⟨-, hh, hp, -⟩ := System.handlerStep_some hs
      have hle := L.left_step hh
      rw [hp]
      simp only [mainCall, insideCall]
      omega

theorem countP_or_le {α : Type} (f g : α → Bool) (as : List α) :
    as.countP (fun a => f a || g a) ≤ as.countP f + as.countP g := by
  induction as with
  | nil => exact Nat.le_refl _
  | cons a as ih =>
      simp only [List.countP_cons]
      cases f a <;> cases g a <;> simp <;> omega

/-- One step for each call, and at most four inside it. -/
theorem countP_isMain_le (L : HandlerLaws X) {es : List (System.Event T)} {s : System.State Q T}
    (h : (System.machine Q T cb).Exec es s) :
    es.countP (isMain X) ≤ 5 * (callsOf X es).length := by
  have hstep : ∀ {s s' : System.State Q T} {e : System.Event T}, True → True →
      (System.machine Q T cb).step s e = some s' →
      True ∧ insideLeft L s' + (insideCall X e).toNat ≤
        insideLeft L s + 4 * ((fun _ e => mainCall X e) s e).toList.length :=
    fun _ _ hs => ⟨trivial, insideLeft_step L hs⟩
  obtain ⟨-, hinside⟩ := Machine.budget_run hstep trivial (fun _ _ => trivial) h
  have hinit : insideLeft L (System.machine Q T cb).init = 0 := by
    show stopLeft none + L.left T.handler.init = 0
    rw [L.left_init]
    rfl
  have hcalls : (System.machine Q T cb).collect (fun _ e => mainCall X e)
      (System.machine Q T cb).init es = callsOf X es :=
    Machine.log_eq_filterMap (g := mainCall X) (fun _ _ => rfl) h
  rw [hinit, hcalls] at hinside
  have hsplit : es.countP (isMain X) ≤
      es.countP (fun e => (mainCall X e).isSome) + es.countP (insideCall X) :=
    countP_or_le _ _ es
  have hcount : es.countP (fun e => (mainCall X e).isSome) = (callsOf X es).length := by
    unfold callsOf
    rw [List.length_filterMap_eq_countP]
  omega

/-! ### The main thread can go on -/

/-- What has happened since the last step of the main thread. -/
def sinceMain (X : HandlerCalls T) (es : List (System.Event T)) : List (System.Event T) :=
  es.rtakeWhile fun e => !isMain X e

theorem sinceMain_spec (X : HandlerCalls T) (es : List (System.Event T)) :
    ∃ pre, es = pre ++ sinceMain X es ∧ callsOf X pre = callsOf X es ∧
      ∀ e ∈ sinceMain X es, mainCall X e = none ∧ insideCall X e = false := by
  have hnot : ∀ e ∈ sinceMain X es, mainCall X e = none ∧ insideCall X e = false := by
    intro e he
    have hmain := List.mem_rtakeWhile_imp he
    simpa [isMain] using hmain
  have hes : es = es.rdropWhile (fun e => !isMain X e) ++ sinceMain X es :=
    (List.rdropWhile_append_rtakeWhile).symm
  refine ⟨_, hes, ?_, hnot⟩
  have hnil : callsOf X (sinceMain X es) = [] := by
    rw [callsOf, List.filterMap_eq_nil_iff]
    exact fun e he => (hnot e he).1
  have hall : callsOf X es = callsOf X (es.rdropWhile fun e => !isMain X e) ++
      callsOf X (sinceMain X es) := by
    rw [callsOf, callsOf, callsOf, ← List.filterMap_append, ← hes]
  rw [hall, hnil, List.append_nil]

/-- The steps of the thread that a call waits for. -/
def awaited (L : HandlerLaws X) : MainCall → System.Event T → Bool
  | .joinGenerator, .pipeline e _ _ => Pipeline.isGenerator e
  | .joinDisseminator, .pipeline e _ _ => Pipeline.isWorker e
  | .joinHandler, .handler e => L.isReceiver e
  | _, _ => false

/-- How many steps the three threads have left at most. -/
def bounds (generator disseminator handler : Nat) : MainCall → Nat
  | .joinGenerator => generator
  | .joinDisseminator => disseminator
  | .joinHandler => handler
  | _ => 0

/-- The main thread can make its next call, or a step inside the one it is in. -/
def MainMoves (X : HandlerCalls T) (cb : Callbacks) (calls : List MainCall)
    (es : List (System.Event T)) (s : System.State Q T) : Prop :=
  ∃ e, isMain X e = true ∧ Follows X calls (es ++ [e]) ∧ (System.step cb s e).isSome = true

/-- The main thread waits in the call `c`, and the thread it waits for goes on. -/
def Awaits (L : HandlerLaws X) (cb : Callbacks) (bound : MainCall → Nat)
    (es : List (System.Event T)) (s : System.State Q T) (c : MainCall) : Prop :=
  (sinceMain X es).countP (awaited L c) < bound c ∧
    ∃ e, awaited L c e = true ∧ (System.step cb s e).isSome = true

/-- A run of the benchmark: how many steps the main thread has made, and how it goes on. -/
structure GoesOn (L : HandlerLaws X) (cb : Callbacks) (bound : MainCall → Nat)
    (calls : List MainCall) (es : List (System.Event T)) (s : System.State Q T) : Prop where
  steps : es.countP (isMain X) ≤ 5 * calls.length
  next : Returned X calls es ∨ MainMoves X cb calls es s ∨
    ∃ c, callsOf X es ++ [c] <+: calls ∧ Awaits L cb bound es s c

variable {L : HandlerLaws X} {s : System.State Q T} {es : List (System.Event T)} {m m' : Stage}
  {c : MainCall} {calls : List MainCall}

theorem enabled_pipeline {e : Pipeline.Event} (hfits : System.fits e = true)
    (h : (Pipeline.step s.pipeline e).isSome = true) (padding : Bytes 4) (env : T.Env) :
    (System.step cb s (.pipeline e padding env)).isSome = true := by
  simp [System.step, System.pipelineStep, hfits, h]

theorem enabled_handler {e : T.Event} (h : Enabled s.handler e) :
    (System.step cb s (.handler e)).isSome = true := by
  simp [System.step, System.handlerStep, System.fromNetwork, h.1, h.2]

/-- The next call. -/
theorem mainMoves_call {e : System.Event T} (hnext : callsOf X es ++ [c] <+: calls)
    (he : mainCall X e = some c) (hs : (System.step cb s e).isSome = true) :
    MainMoves X cb calls es s := by
  refine ⟨e, by simp [isMain, he], ?_, hs⟩
  rw [Follows, callsOf_snoc, he]
  exact hnext

/-- A step inside a call. -/
theorem mainMoves_inside {e : System.Event T} (hnext : callsOf X es ++ [c] <+: calls)
    (he : mainCall X e = none) (hin : insideCall X e = true)
    (hs : (System.step cb s e).isSome = true) : MainMoves X cb calls es s := by
  refine ⟨e, by simp [isMain, hin], ?_, hs⟩
  rw [Follows, callsOf_snoc, he, Option.toList_none, List.append_nil]
  exact List.IsPrefix.trans (List.prefix_append _ _) hnext

/-- The reading of the clock does not matter for whether a loop can go on. -/
theorem exists_fits (h : ∃ e, Pipeline.isGenerator e = true ∧ (Pipeline.step p e).isSome = true) :
    ∃ e, Pipeline.isGenerator e = true ∧ System.fits e = true ∧
      (Pipeline.step p e).isSome = true := by
  obtain ⟨e, he, hs⟩ := h
  cases e with
  | push => exact ⟨.push, rfl, rfl, hs⟩
  | generator now msg =>
      refine ⟨.generator 0 msg, rfl, rfl, ?_⟩
      simp only [Pipeline.step, Option.isSome_map] at hs ⊢
      revert hs
      unfold BaseGenerator.generationLoop
      cases p.generator.thread with
      | none => exact id
      | some pc => cases pc <;> exact id
  | _ => cases he

theorem exists_fits_worker
    (h : ∃ e, Pipeline.isWorker e = true ∧ (Pipeline.step p e).isSome = true) :
    ∃ e, Pipeline.isWorker e = true ∧ System.fits e = true ∧
      (Pipeline.step p e).isSome = true := by
  obtain ⟨e, he, hs⟩ := h
  cases e with
  | pop => exact ⟨.pop, rfl, rfl, hs⟩
  | disseminator u now =>
      refine ⟨.disseminator u 0, rfl, rfl, ?_⟩
      simp only [Pipeline.step] at hs ⊢
      revert hs
      cases p.worker with
      | none => exact id
      | some pc =>
          simp only [Option.bind_some, Option.isSome_map]
          cases pc <;> exact id
  | _ => cases he

/-! ### Waiting for a thread -/

/-- A stop request that has not returned can go on. -/
theorem requestStop_enabled {sp : StopPc} (hstopper : p.queue.stopper = some sp)
    (hne : sp ≠ .done) : (Pipeline.step p .requestStop).isSome = true := by
  obtain ⟨n, hn⟩ : ∃ n, (sp.code : Code MarketDataMsg W StopState StopPc).sc
      p.queue.mem p.queue.stop = some n := by
    cases sp with
    | done => exact absurd rfl hne
    | _ => exact ⟨_, rfl⟩
  have hq := (MarketDataQueue.Moves.requestStop sp n hstopper hn).step_eq
  simp [Pipeline.step, hq]

/-- Only `request_stop` and its callers move the stop request. -/
theorem stopper_step {e : Pipeline.Event} (hs : Pipeline.step p e = some p')
    (hcall : pipelineCall e = none) (he : e ≠ .requestStop) :
    p'.queue.stopper = p.queue.stopper := by
  cases Pipeline.moves_of_step hs with
  | generator hm => exact hm.frame.2.2.1
  | disseminator _ hm => exact hm.frame.2.2.1
  | access hin hq =>
      cases MarketDataQueue.moves_of_step hq with
      | callRequestStop _ => cases e <;> cases hin; cases hcall
      | requestStop _ _ _ _ => cases e <;> cases hin; exact absurd rfl he
      | _ => rfl
  | idle _ => rfl
  | startDisseminator _ => cases hcall
  | _ => rfl

theorem stopper_run {fs : List Pipeline.Event}
    (hfs : ∀ e ∈ fs, pipelineCall e = none ∧ e ≠ .requestStop) :
    ∀ {p p' : Pipeline.State Q}, (Pipeline.machine Q).run p fs = some p' →
      p'.queue.stopper = p.queue.stopper := by
  induction fs with
  | nil =>
      intro p p' h
      rw [Option.some.inj h]
  | cons e fs ih =>
      intro p p' h
      obtain ⟨t, ht, hrest⟩ := Machine.run_cons_some.mp h
      obtain ⟨hcall, hne⟩ := hfs e (by simp)
      rw [ih (fun e' he' => hfs e' (by simp [he'])) hrest, stopper_step ht hcall hne]

/-- The main thread made its last step before `t`; what the others have done since. -/
structure LastMove (L : HandlerLaws X) (cb : Callbacks) (m : Stage)
    (es : List (System.Event T)) (s : System.State Q T) (pre : List (System.Event T))
    (t : System.State Q T) : Prop where
  split : es = pre ++ sinceMain X es
  exec : (System.machine Q T cb).Exec pre t
  run : (System.machine Q T cb).run t (sinceMain X es) = some s
  agrees : Matches L m t
  others : ∀ e ∈ sinceMain X es, mainCall X e = none ∧ insideCall X e = false

theorem exists_lastMove (L : HandlerLaws X) (h : (System.machine Q T cb).Exec es s)
    (hm : protocol.Exec (callsOf X es) m) : ∃ pre t, LastMove L cb m es s pre t := by
  obtain ⟨pre, hsplit, hcalls, hothers⟩ := sinceMain_spec X es
  have hexec := h
  rw [hsplit] at hexec
  obtain ⟨t, hpre, hrun⟩ := hexec.split
  rw [← hcalls] at hm
  exact ⟨pre, t, hsplit, hpre, hrun, Matches.of_exec L hpre m hm, hothers⟩

/-- The steps of the generator and the disseminator among the last ones are not calls. -/
theorem LastMove.pipelineEvents {pre : List (System.Event T)} {t : System.State Q T}
    (h : LastMove L cb m es s pre t) :
    ∀ e ∈ (sinceMain X es).filterMap System.pipelineEvent,
      pipelineCall e = none ∧ e ≠ .requestStop := by
  intro e he
  obtain ⟨e', he', heq⟩ := List.mem_filterMap.mp he
  obtain ⟨hcall, hinside⟩ := h.others e' he'
  cases e' with
  | handler e' => cases heq
  | pipeline e' padding env =>
      rw [Option.some.inj heq] at hcall hinside
      refine ⟨hcall, ?_⟩
      rintro rfl
      cases hinside

theorem countP_pipelineEvent {f : Pipeline.Event → Bool} {g : System.Event T → Bool}
    (hpipeline : ∀ e padding env, g (.pipeline e padding env) = f e)
    (hhandler : ∀ e, g (.handler e) = false) (es : List (System.Event T)) :
    es.countP g = (es.filterMap System.pipelineEvent).countP f := by
  rw [List.countP_filterMap]
  refine List.countP_congr ?_
  intro e _
  cases e with
  | pipeline e padding env => rw [hpipeline]; rfl
  | handler e => rw [hhandler]; rfl

theorem countP_handlerEvent {f : T.Event → Bool} {g : System.Event T → Bool}
    (hpipeline : ∀ e padding env, g (.pipeline e padding env) = false)
    (hhandler : ∀ e, g (.handler e) = f e) (es : List (System.Event T)) :
    es.countP g = (es.filterMap System.handlerEvent).countP f := by
  rw [List.countP_filterMap]
  refine List.countP_congr ?_
  intro e _
  cases e with
  | pipeline e padding env => rw [hpipeline]; rfl
  | handler e => rw [hhandler]; rfl

variable {g d : Nat} {pre : List (System.Event T)} {t : System.State Q T}

/-- In `generating_thread_.join()`. -/
theorem LastMove.generator (h : LastMove L cb m es s pre t) (hg : Pipeline.GeneratorStops Q g)
    (hm : m.generator = .stopping) (hnext : callsOf X es ++ [.joinGenerator] <+: calls) :
    MainMoves X cb calls es s ∨ Awaits L cb (bounds g d L.bound) es s .joinGenerator := by
  have hstart : ∀ e ∈ (sinceMain X es).filterMap System.pipelineEvent, e ≠ .startGenerator := by
    intro e he heq
    have hcall := (h.pipelineEvents e he).1
    rw [heq] at hcall
    cases hcall
  rcases hg _ _ (System.pipeline_projection.exec h.exec) (h.agrees.pipeline.generatorStopping hm)
    _ _ (System.pipeline_projection.run h.run) hstart with hjoin | ⟨hlt, hnextStep⟩
  · exact .inl (mainMoves_call hnext rfl
      (enabled_pipeline rfl hjoin (Bytes.zero _) L.env))
  · refine .inr ⟨?_, ?_⟩
    · rw [countP_pipelineEvent (f := Pipeline.isGenerator) (fun _ _ _ => rfl) (fun _ => rfl)]
      exact hlt
    · obtain ⟨e, he, hfits, hsome⟩ := exists_fits hnextStep
      exact ⟨.pipeline e (Bytes.zero _) L.env, he, enabled_pipeline hfits hsome _ _⟩

/-- In `worker_.request_stop()` or `worker_.join()`. -/
theorem LastMove.disseminator (h : LastMove L cb m es s pre t)
    {G : Pipeline.State Q → Pipeline.Event → Prop} (hd : Pipeline.DisseminatorStops Q G d)
    (hG : (Pipeline.machine Q).Along G (es.filterMap System.pipelineEvent))
    (hm : m.disseminator = .stopping) (hnext : callsOf X es ++ [.joinDisseminator] <+: calls) :
    MainMoves X cb calls es s ∨ Awaits L cb (bounds g d L.bound) es s .joinDisseminator := by
  have hrun := System.pipeline_projection.run h.run
  have hstopper : s.pipeline.queue.stopper = t.pipeline.queue.stopper :=
    stopper_run h.pipelineEvents hrun
  obtain ⟨sp, hsp⟩ := Option.ne_none_iff_exists'.mp (h.agrees.pipeline.workerStopping hm)
  by_cases hdone : sp = .done
  · subst hdone
    have hstart : ∀ e ∈ (sinceMain X es).filterMap System.pipelineEvent,
        e ≠ .startDisseminator := by
      intro e he heq
      have hcall := (h.pipelineEvents e he).1
      rw [heq] at hcall
      cases hcall
    have hpre : (Pipeline.machine Q).Along G (pre.filterMap System.pipelineEvent) := by
      rw [h.split, List.filterMap_append] at hG
      exact hG.left
    rcases hd _ _ (System.pipeline_projection.exec h.exec) hpre hsp _ _ hrun hstart with
      hjoin | ⟨hlt, hnextStep⟩
    · exact .inl (mainMoves_call hnext rfl
        (enabled_pipeline rfl hjoin (Bytes.zero _) L.env))
    · refine .inr ⟨?_, ?_⟩
      · rw [countP_pipelineEvent (f := Pipeline.isWorker) (fun _ _ _ => rfl) (fun _ => rfl)]
        exact hlt
      · obtain ⟨e, he, hfits, hsome⟩ := exists_fits_worker hnextStep
        exact ⟨.pipeline e (Bytes.zero _) L.env, he, enabled_pipeline hfits hsome _ _⟩
  · -- The request itself has not returned.
    have hsome := requestStop_enabled (hstopper.trans hsp) hdone
    exact .inl (mainMoves_inside hnext rfl rfl
      (enabled_pipeline rfl hsome (Bytes.zero _) L.env))

/-- In `receiver_thread_.join()`. -/
theorem LastMove.handler (h : LastMove L cb m es s pre t) (hm : m.handler = .stopping)
    (hcalling : m.calling = false) (hnext : callsOf X es ++ [.joinHandler] <+: calls) :
    MainMoves X cb calls es s ∨ Awaits L cb (bounds g d L.bound) es s .joinHandler := by
  have htracks : L.Tracks (.stopping, false) t.handler := by
    rw [← hm, ← hcalling]
    exact h.agrees.handler
  have hothers : ∀ e ∈ (sinceMain X es).filterMap System.handlerEvent,
      X.call e = none ∧ X.inside e = false := by
    intro e he
    obtain ⟨e', he', heq⟩ := List.mem_filterMap.mp he
    have hnot := h.others e' he'
    cases e' with
    | pipeline e' padding env => cases heq
    | handler e' =>
        rw [Option.some.inj heq] at hnot
        exact hnot
  rcases L.stops (System.handler_projection.exec h.exec) htracks
    (System.handler_projection.run h.run) hothers with ⟨e, he, hen⟩ | ⟨hlt, e, he, hen⟩
  · exact .inl (mainMoves_call (e := .handler e) hnext he (enabled_handler hen))
  · refine .inr ⟨?_, .handler e, he, enabled_handler hen⟩
    rw [countP_handlerEvent (f := L.isReceiver) (fun _ _ _ => rfl) (fun _ => rfl)]
    exact hlt

/-! ### Every call of the benchmark -/

/-- The next call can be made, or it is a join and the thread it waits for goes on. -/
def NextCall (L : HandlerLaws X) (cb : Callbacks) (bound : MainCall → Nat)
    (calls : List MainCall) (es : List (System.Event T)) (s : System.State Q T) : Prop :=
  MainMoves X cb calls es s ∨
    ∃ c, callsOf X es ++ [c] <+: calls ∧ Awaits L cb bound es s c

theorem nextCall_pipeline {e : Pipeline.Event} (hfits : System.fits e = true)
    (hs : (Pipeline.step s.pipeline e).isSome = true) (hcall : pipelineCall e = some c)
    (hnext : callsOf X es ++ [c] <+: calls) {bound : MainCall → Nat} :
    NextCall L cb bound calls es s :=
  .inl (mainMoves_call (e := .pipeline e (Bytes.zero _) L.env) hnext hcall
    (enabled_pipeline hfits hs _ _))

theorem LastMove.onHandler (h : LastMove L cb m es s pre t) (hnow : Matches L m s)
    {x : Status × Bool} (hm : HandlerMove (some c) (m.handler, m.calling) x)
    (hsub : ∀ c', c = .subscribe c' → ∃ symbol, c ∈ X.subscribe symbol)
    (hnext : callsOf X es ++ [c] <+: calls) :
    NextCall L cb (bounds g d L.bound) calls es s := by
  have htracks := hnow.handler
  generalize hx : (m.handler, m.calling) = y at hm htracks
  cases hm with
  | start =>
      obtain ⟨e, he, hen⟩ := L.canStart htracks
      exact .inl (mainMoves_call (e := .handler e) hnext he (enabled_handler hen))
  | subscribe c' =>
      obtain ⟨symbol, hmem⟩ := hsub c' rfl
      obtain ⟨e, he, hen⟩ := L.canSubscribe hmem htracks
      exact .inl (mainMoves_call (e := .handler e) hnext he (enabled_handler hen))
  | subscribed =>
      obtain ⟨e, he | ⟨he, hin⟩, hen⟩ := L.canReturn htracks
      · exact .inl (mainMoves_call (e := .handler e) hnext he (enabled_handler hen))
      · exact .inl (mainMoves_inside (e := .handler e) hnext he hin (enabled_handler hen))
  | request =>
      obtain ⟨e, he, hen⟩ := L.canRequest htracks
      exact .inl (mainMoves_call (e := .handler e) hnext he (enabled_handler hen))
  | join =>
      obtain ⟨hhandler, hcalling⟩ := Prod.mk.inj hx
      exact (h.handler hhandler hcalling hnext).imp_right fun hawaits => ⟨_, hnext, hawaits⟩

theorem LastMove.nextCall (h : LastMove L cb m es s pre t) (hnow : Matches L m s)
    (hg : Pipeline.GeneratorStops Q g) {G : Pipeline.State Q → Pipeline.Event → Prop}
    (hd : Pipeline.DisseminatorStops Q G d)
    (hG : (Pipeline.machine Q).Along G (es.filterMap System.pipelineEvent))
    (ha : Allows m c m') (hsub : ∀ c', c = .subscribe c' → ∃ symbol, c ∈ X.subscribe symbol)
    (hnext : callsOf X es ++ [c] <+: calls) :
    NextCall L cb (bounds g d L.bound) calls es s := by
  cases ha with
  | @setRate r _ => exact nextCall_pipeline (e := .setRate r) rfl rfl rfl hnext
  | handler hm => exact h.onHandler hnow hm hsub hnext
  | startDisseminator _ => exact nextCall_pipeline (e := .startDisseminator) rfl rfl rfl hnext
  | requestStopDisseminator hrunning =>
      obtain ⟨pc, hpc⟩ :=
        Option.ne_none_iff_exists'.mp (hnow.pipeline.workerJoinable (by simp [hrunning]))
      have hstopper := hnow.pipeline.workerRunning hrunning
      refine nextCall_pipeline (e := .callRequestStop) rfl ?_ rfl hnext
      simp [Pipeline.step, Pipeline.callRequestStop, hpc, MarketDataQueue.step, hstopper]
  | joinDisseminator hstopping =>
      exact (h.disseminator hd hG hstopping hnext).imp_right fun hawaits => ⟨_, hnext, hawaits⟩
  | startGenerator _ _ => exact nextCall_pipeline (e := .startGenerator) rfl rfl rfl hnext
  | requestStopGenerator _ =>
      exact nextCall_pipeline (e := .requestStopGenerator) rfl rfl rfl hnext
  | joinGenerator hstopping =>
      exact (h.generator hg hstopping hnext).imp_right fun hawaits => ⟨_, hnext, hawaits⟩

/-- The only calls of `subscribe` are those for the symbols. -/
theorem subscribe_of_mem {messageRate : BitVec 32} {symbolsFile : List Byte} {c' : Call}
    (h : MainCall.subscribe c' ∈ runBenchmarkPipeline X messageRate symbolsFile) :
    ∃ symbol, MainCall.subscribe c' ∈ X.subscribe symbol := by
  simp only [runBenchmarkPipeline, List.mem_append, List.mem_flatMap] at h
  rcases h with (h | ⟨symbol, -, h⟩) | h
  · simp at h
  · exact ⟨symbol, h⟩
  · simp at h

/-- **In every run of the benchmark the main thread goes on.** -/
theorem goesOn (L : HandlerLaws X) (hg : Pipeline.GeneratorStops Q g)
    {G : Pipeline.State Q → Pipeline.Event → Prop} (hd : Pipeline.DisseminatorStops Q G d)
    {messageRate : BitVec 32} (hrate : messageRate ≠ 0) {symbolsFile : List Byte}
    (h : (System.machine Q T cb).Exec es s)
    (hG : (Pipeline.machine Q).Along G (es.filterMap System.pipelineEvent))
    (hF : Follows X (runBenchmarkPipeline X messageRate symbolsFile) es) :
    GoesOn L cb (bounds g d L.bound) (runBenchmarkPipeline X messageRate symbolsFile) es s := by
  obtain ⟨rest, hrest⟩ := hF
  have hall := protocol_accepts L hrate symbolsFile
  rw [← hrest] at hall
  obtain ⟨m, hm, hrun⟩ := hall.split
  refine ⟨?_, ?_⟩
  · refine Nat.le_trans (countP_isMain_le L h) ?_
    rw [← hrest, List.length_append]
    omega
  · cases rest with
    | nil => exact .inl (by rw [Returned, ← hrest, List.append_nil])
    | cons c rest =>
        obtain ⟨m', hnext, -⟩ := Machine.run_cons_some.mp hrun
        obtain ⟨pre, t, hlast⟩ := exists_lastMove L h hm
        have hcalls : callsOf X es ++ [c] <+: runBenchmarkPipeline X messageRate symbolsFile :=
          ⟨rest, by rw [← hrest, List.append_assoc]; rfl⟩
        have hsub : ∀ c', c = .subscribe c' → ∃ symbol, c ∈ X.subscribe symbol := by
          intro c' hc
          have hmem : c ∈ runBenchmarkPipeline X messageRate symbolsFile := by simp [← hrest]
          rw [hc] at hmem ⊢
          exact subscribe_of_mem hmem
        exact .inr (hlast.nextCall (Matches.of_exec L h m hm) hg hd hG (allows_of_next hnext)
          hsub hcalls)

/-! ### When it has returned -/

/-- What is left when `run_benchmark_pipeline` has returned: no thread, and no callback any
more; what was generated and not dropped has been sent or is in the queue; and what is in
the queue is missing from the files of the monitor. -/
structure Outcome (X : HandlerCalls T) (N : Capacity W) (cb : Callbacks)
    (es : List (System.Event T)) (s : System.State Q T) : Prop where
  generator : s.pipeline.generator.thread = none
  disseminator : s.pipeline.worker = none
  handler : X.joinable s.handler = false
  quiet : ∀ e, System.delivered cb s e = none
  accounted : (System.kept Q es).map Pipeline.unstamped =
    (((System.machine Q T cb).log System.sending es).map Prod.snd ++
      contents N s.pipeline.queue.mem).map Pipeline.unstamped
  reported : ((System.machine Q T cb).log System.handed es).Sublist s.network →
    ∀ outDir files,
      PlotThroughput.totalReceived outDir (LatencyMonitor.saveToCsv outDir s.monitor files) +
        (contents N s.pipeline.queue.mem).length ≤ (System.kept Q es).length

variable {N : Capacity W} {F : Fifo N Q}

/-- Without threads no message is in anybody's hands. -/
theorem nothing_inHand (h : Pipeline.Coupled F p) (hthread : p.generator.thread = none)
    (hworker : p.worker = none) :
    Pipeline.popped F p = [] ∧ Pipeline.trying F p = [] := by
  have hprod : p.queue.prod = none := by
    refine h.notPushing ?_
    rw [hthread]
    rfl
  have hcons : p.queue.cons = none := by
    refine h.notPopping ?_
    rw [hworker]
    rfl
  unfold Pipeline.popped Pipeline.trying
  rw [hprod, hcons, hthread, hworker]
  exact ⟨rfl, rfl⟩

theorem Outcome.of_exec (L : HandlerLaws X) (F : Fifo N Q) {S : T.Sound}
    (K : Transport.InSequence S) {messageRate : BitVec 32} (hrate : messageRate ≠ 0)
    {symbolsFile : List Byte} (h : (System.machine Q T cb).Exec es s)
    (hR : Returned X (runBenchmarkPipeline X messageRate symbolsFile) es) :
    Outcome X N cb es s := by
  have hcalls := protocol_accepts L hrate symbolsFile
  rw [← hR] at hcalls
  have hlast : Matches L Stage.last s := Matches.of_exec L h _ hcalls
  have hthread := hlast.pipeline.generatorIdle rfl
  have hworker := hlast.pipeline.workerIdle rfl
  have hinv : Pipeline.RunInv F _ s.pipeline :=
    Pipeline.RunInv.of_exec (System.pipeline_projection.exec h)
  obtain ⟨hpopped, htrying⟩ := nothing_inHand hinv.coupled hthread hworker
  have hkept := System.kept_eq F h
  rw [hpopped, htrying, List.append_nil, List.append_nil] at hkept
  refine ⟨hthread, hworker, L.idle hlast.handler, ?_, hkept, ?_⟩
  · intro e
    cases e with
    | pipeline e padding env => rfl
    | handler e => exact L.quiet hlast.handler cb e
  · intro hhanded outDir files
    have hsent := ((System.Arrives.of_exec F K h).inOrder hhanded).length_le
    have hlength := congrArg List.length hkept
    rw [(System.Reports.of_exec outDir files h).total]
    simp only [List.length_map, List.length_append] at hsent hlength
    omega

/-! ### Main results -/

theorem rate_ne_zero {growth : Growth} {files : String → List Byte} {result : ParseResult}
    {b : Benchmark} (h : main growth files result = .ok (some b)) : b.config.messageRate ≠ 0 := by
  obtain ⟨hrate, -, -⟩ := main_eq_ok h
  have hle := (main_accepts_iff.mp ⟨b, h⟩).rate
  rw [hrate]
  rintro heq
  rw [heq] at hle
  exact absurd hle (by decide)

/-- Whatever the command line and the files were, if `main` comes to starting threads: in
every run of the benchmark whose steps meet `G`, and at every moment of it, the main
thread has returned, or it can go on, or the thread it waits for can.  The underlying
queue is `CustomSpscQueue`, which is what `main` takes unless `--underlying boost` is given;
the queue of that library is not modelled. -/
def NeverHangs (Q : QueueCode MarketDataMsg W) (L : HandlerLaws X)
    (G : Pipeline.State Q → Pipeline.Event → Prop) (bound : MainCall → Nat) : Prop :=
  ∀ growth files result b, main growth files result = .ok (some b) →
    ∀ cb es s, (System.machine Q T cb).Exec es s →
      (Pipeline.machine Q).Along G (es.filterMap System.pipelineEvent) →
      Follows X (b.calls files X) es → GoesOn L cb bound (b.calls files X) es s

theorem neverHangs (L : HandlerLaws X) (hg : Pipeline.GeneratorStops Q g)
    {G : Pipeline.State Q → Pipeline.Event → Prop} (hd : Pipeline.DisseminatorStops Q G d) :
    NeverHangs Q L G (bounds g d L.bound) := by
  intro growth files result b hb cb es s h hG hF
  exact goesOn L hg hd (rate_ne_zero hb) h hG hF

/-- **The benchmark comes to its end**, with either queue class and either transport.  With
the waitable queue, in every run in which no stop callback falls between a pop's test of
the token and its announcement that it sleeps. -/
theorem benchmark_never_hangs (N : Capacity W) {V : Nat} (M : Capacity V) :
    (NeverHangs (SpinSpscQueue N) (udpLaws M) (fun _ _ => True) (bounds 8 19 (6 * M.val + 6)) ∧
      NeverHangs (SpinSpscQueue N) zmqLaws (fun _ _ => True) (bounds 8 19 4)) ∧
    NeverHangs (WaitableSpscQueue N) (udpLaws M) Pipeline.CallbackTimely
        (bounds 12 23 (6 * M.val + 6)) ∧
      NeverHangs (WaitableSpscQueue N) zmqLaws Pipeline.CallbackTimely (bounds 12 23 4) := by
  have hspin := Pipeline.generatorStops (spinPushEnds N)
  have hwaitable := Pipeline.generatorStops (waitablePushEnds N)
  have hspin' := Pipeline.spin_disseminatorStops N
  have hwaitable' := Pipeline.waitable_disseminatorStops N
  exact ⟨⟨neverHangs (udpLaws M) hspin hspin', neverHangs zmqLaws hspin hspin'⟩,
    neverHangs (udpLaws M) hwaitable hwaitable', neverHangs zmqLaws hwaitable hwaitable'⟩

/-- Every run in which the main thread has returned, over `CustomSpscQueue` again. -/
def Accounts (Q : QueueCode MarketDataMsg W) (X : HandlerCalls T) (N : Capacity W) : Prop :=
  ∀ growth files result b, main growth files result = .ok (some b) →
    ∀ cb es s, (System.machine Q T cb).Exec es s → Returned X (b.calls files X) es →
      Outcome X N cb es s

theorem accounts_of_laws (L : HandlerLaws X) (F : Fifo N Q) {S : T.Sound}
    (K : Transport.InSequence S) : Accounts Q X N := by
  intro growth files result b hb cb es s h hR
  exact Outcome.of_exec L F K (rate_ne_zero hb) h hR

/-- **When the benchmark has returned, nothing is left running and nothing unaccounted
for**, with either queue class and either transport. -/
theorem benchmark_accounts (N : Capacity W) {V : Nat} (M : Capacity V) :
    (Accounts (SpinSpscQueue N) (udpCalls M) N ∧ Accounts (SpinSpscQueue N) zmqCalls N) ∧
      Accounts (WaitableSpscQueue N) (udpCalls M) N ∧
        Accounts (WaitableSpscQueue N) zmqCalls N :=
  ⟨⟨accounts_of_laws (udpLaws M) (spinFifo N) (.udp M),
      accounts_of_laws zmqLaws (spinFifo N) .zmq⟩,
    accounts_of_laws (udpLaws M) (waitableFifo N) (.udp M),
    accounts_of_laws zmqLaws (waitableFifo N) .zmq⟩

/-! ### A run -/

def inPipeline (es : List Pipeline.Event) : List (System.Event .zmq) :=
  es.map fun e => .pipeline e (Bytes.zero 4) ()

/-- Two messages are pushed, and one of them is sent, received and reported. -/
def beforeStop : List (System.Event .zmq) :=
  inPipeline [.setRate 10000] ++ [.handler .start] ++
    inPipeline ([.startDisseminator, .startGenerator] ++ Pipeline.generatorSteps 5 ++
      List.replicate 4 .push ++ [.generator 1 Pipeline.sampleTrade] ++
      List.replicate 4 (.generator 2000000 Pipeline.sampleTrade) ++ List.replicate 4 .push ++
      Pipeline.generatorSteps 1 ++ Pipeline.disseminatorSteps 2 ++ List.replicate 7 .pop ++
      Pipeline.disseminatorSteps 3) ++
    (System.receiveSteps 20).map fun e => .handler e

/-- Everything is stopped; the disseminator leaves the other message in the queue. -/
def wholeBenchmark : List (System.Event .zmq) :=
  beforeStop ++
    inPipeline ([.requestStopGenerator] ++ Pipeline.generatorSteps 1 ++
      [.joinGenerator, .callRequestStop, .requestStop] ++ Pipeline.disseminatorSteps 1 ++ [.pop] ++
      Pipeline.disseminatorSteps 1 ++ [.joinDisseminator]) ++
    [.handler .requestStop, .handler .checkStop, .handler .join]

theorem wholeBenchmark_goes : ((System.machine (SpinSpscQueue slots128) .zmq Callbacks.both).run
    (System.machine (SpinSpscQueue slots128) .zmq Callbacks.both).init wholeBenchmark).isSome =
      true := by
  decide +kernel

/-- The generator has been asked to stop, and the main thread waits for it. -/
def stopAsked : List (System.Event .zmq) := beforeStop ++ inPipeline [.requestStopGenerator]

theorem stopAsked_goes : ((System.machine (SpinSpscQueue slots128) .zmq Callbacks.both).run
    (System.machine (SpinSpscQueue slots128) .zmq Callbacks.both).init stopAsked).isSome =
      true := by
  decide +kernel

/-- The generator is stopped and its message sent, and the pop sleeps when the disseminator
is asked to stop; the callback has woken it. -/
def stopAskedAsleep : List (System.Event .zmq) :=
  inPipeline [.setRate 10000] ++ [.handler .start] ++
    inPipeline ([.startDisseminator, .startGenerator] ++ Pipeline.generatorSteps 5 ++
      List.replicate 6 .push ++ [.requestStopGenerator] ++ Pipeline.generatorSteps 2 ++
      [.joinGenerator] ++ Pipeline.disseminatorSteps 2 ++ List.replicate 9 .pop ++
      Pipeline.disseminatorSteps 4 ++ List.replicate 10 .pop ++ [.callRequestStop] ++
      List.replicate 4 .requestStop)

theorem stopAskedAsleep_goes :
    ((System.machine (WaitableSpscQueue slots128) .zmq Callbacks.both).run
      (System.machine (WaitableSpscQueue slots128) .zmq Callbacks.both).init
      stopAskedAsleep).isSome = true := by
  decide +kernel

/-- The main thread waits in a `join`: for the generator with the spinning queue, for the
disseminator with the waitable one. -/
theorem benchmark_never_hangs_runs :
    ∃ b, main .doubling oneSymbol {} = .ok (some b) ∧
      GoesOn zmqLaws Callbacks.both (bounds 8 19 4) (b.calls oneSymbol zmqCalls) stopAsked
        ((System.machine (SpinSpscQueue slots128) .zmq Callbacks.both).final stopAsked
          stopAsked_goes) ∧
      GoesOn zmqLaws Callbacks.both (bounds 12 23 4) (b.calls oneSymbol zmqCalls) stopAskedAsleep
        ((System.machine (WaitableSpscQueue slots128) .zmq Callbacks.both).final stopAskedAsleep
          stopAskedAsleep_goes) := by
  refine ⟨_, rfl, ?_, ?_⟩
  · refine (benchmark_never_hangs slots128 slots128).1.2 .doubling oneSymbol {} _ rfl
      Callbacks.both stopAsked _ (Machine.exec_final stopAsked_goes) (Machine.along_true _) ?_
    exact ⟨[.joinGenerator, .requestStopDisseminator, .joinDisseminator, .requestStopHandler,
      .joinHandler], by decide +kernel⟩
  · refine (benchmark_never_hangs slots128 slots128).2.2 .doubling oneSymbol {} _ rfl
      Callbacks.both stopAskedAsleep _ (Machine.exec_final stopAskedAsleep_goes)
      (Machine.along_of_alongFrom (by decide +kernel)) ?_
    exact ⟨[.joinDisseminator, .requestStopHandler, .joinHandler], by decide +kernel⟩

/-- Two messages were generated; one was received, and one is in the queue. -/
theorem benchmark_accounts_wholeBenchmark :
    (System.kept (SpinSpscQueue slots128) wholeBenchmark).length = 2 ∧
    ∃ s, (System.machine (SpinSpscQueue slots128) .zmq Callbacks.both).Exec wholeBenchmark s ∧
      (contents slots128 s.pipeline.queue.mem).length = 1 ∧
      PlotThroughput.totalReceived "data"
        (LatencyMonitor.saveToCsv "data" s.monitor fun _ => none) ≤ 1 := by
  have hkept : (System.kept (SpinSpscQueue slots128) wholeBenchmark).length = 2 := by
    decide +kernel
  have hleft : (contents slots128 ((System.machine (SpinSpscQueue slots128) .zmq
      Callbacks.both).final wholeBenchmark wholeBenchmark_goes).pipeline.queue.mem).length = 1 := by
    decide +kernel
  have hnetwork : (System.machine (SpinSpscQueue slots128) .zmq Callbacks.both).log System.handed
      wholeBenchmark = ((System.machine (SpinSpscQueue slots128) .zmq Callbacks.both).final
        wholeBenchmark wholeBenchmark_goes).network := by
    decide +kernel
  have houtcome := (benchmark_accounts slots128 slots128).1.2 .doubling oneSymbol {} _ rfl
    Callbacks.both wholeBenchmark _ (Machine.exec_final wholeBenchmark_goes)
    (show callsOf zmqCalls wholeBenchmark = runBenchmarkPipeline zmqCalls 10000 (oneSymbol "") by
      decide +kernel)
  have hreported := houtcome.reported (by rw [hnetwork]) "data" fun _ => none
  rw [hkept, hleft] at hreported
  exact ⟨hkept, _, Machine.exec_final wholeBenchmark_goes, hleft, by omega⟩

end Main

end MarketData
