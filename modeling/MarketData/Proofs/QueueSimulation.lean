/-
One queue class in place of another.

`BaseGenerator` and `IDisseminator` call `push` and `pop` and look at what they return;
nothing else in the program looks at the queue.  So if one queue class can answer every
call as another one does, a program that uses the first does nothing that the program
with the second could not do, whatever its threads and its callers do: this is proved
here once for two queue classes.

`QueueSimulation` is what has to be shown of the two classes.  `image` takes a state of
the first to the state the second is in at the same moment.  A call, a return and the
call of `request_stop` happen on both sides; an access inside a call is answered by some
accesses, and they may be several or none.

`Shown` is what an observer outside the queue sees of a step of the program.  The
accesses are not seen.
-/
import MarketData.Proofs.EndToEnd

namespace MarketData

open Lib

variable {W : Nat} {N : Capacity W}

namespace MarketDataQueue

/-- A step inside a call. -/
def inside {T : Type} : Event T → Bool
  | .push => true
  | .pop => true
  | .requestStop => true
  | .spurious => true
  | _ => false

/-- A new stop state, for a new consumer thread. -/
def State.restarted {T : Type} {Q : QueueCode T W} (s : State Q) : State Q :=
  { s with stop := StopState.initial, stopper := none }

end MarketDataQueue

open MarketDataQueue in
/-- The queue class `Q'` follows `Q`. -/
structure QueueSimulation {T : Type} {Q : QueueCode T W} (F : Fifo N Q) (Q' : QueueCode T W) where
  image : State Q → State Q'
  init : image (machine Q).init = (machine Q').init
  call : ∀ {s e s'}, inside e = false → step s e = some s' → step (image s) e = some (image s')
  pushRet : ∀ {s ok}, s.prod.bind Q.pushRet = some ok → (image s).prod.bind Q'.pushRet = some ok
  popRet : ∀ {s res}, s.cons.bind Q.popRet = some res → (image s).cons.bind Q'.popRet = some res
  access : ∀ {s e s'}, F.Inv s → inside e = true → step s e = some s' →
    ∃ ds, (∀ d ∈ ds, inside d = true) ∧ (machine Q').run (image s) ds = some (image s')
  restart : ∀ s, image s.restarted = (image s).restarted
  stopped : ∀ {s}, s.stopper = some .done → (image s).stopper = some .done
  contents : ∀ s, contents N (image s).mem = contents N s.mem

/-! ### The pipeline -/

namespace Pipeline

variable {Q Q' : QueueCode MarketDataMsg W} {F : Fifo N Q}

/-- A step inside a call on the queue. -/
def inside : Event → Bool
  | .push => true
  | .pop => true
  | .requestStop => true
  | .spurious => true
  | _ => false

/-- The step of the pipeline that is a step inside a call. -/
def access : MarketDataQueue.Event MarketDataMsg → Event
  | .push => .push
  | .pop => .pop
  | .requestStop => .requestStop
  | _ => .spurious

theorem step_access {s : State Q} {d : MarketDataQueue.Event MarketDataMsg}
    (hd : MarketDataQueue.inside d = true) :
    step s (access d) = (MarketDataQueue.step s.queue d).map s.withQueue := by
  cases d with
  | push | pop | requestStop | spurious => rfl
  | _ => cases hd

theorem inside_access (d : MarketDataQueue.Event MarketDataMsg) : inside (access d) = true := by
  cases d <;> rfl

theorem run_access {ds : List (MarketDataQueue.Event MarketDataMsg)}
    (hds : ∀ d ∈ ds, MarketDataQueue.inside d = true) :
    ∀ {s : State Q} {q : MarketDataQueue.State Q},
      (MarketDataQueue.machine Q).run s.queue ds = some q →
      (machine Q).run s (ds.map access) = some (s.withQueue q) := by
  induction ds with
  | nil =>
      intro s q h
      rw [← Option.some.inj h]
      rfl
  | cons d ds ih =>
      intro s q h
      obtain ⟨q₁, hq₁, hrest⟩ := Machine.run_cons_some.mp h
      refine Machine.run_cons_some.mpr ⟨s.withQueue q₁, ?_, ?_⟩
      · show step s (access d) = _
        rw [step_access (hds d (by simp))]
        exact congrArg (Option.map s.withQueue) hq₁
      · exact ih (fun d' hd' => hds d' (by simp [hd'])) hrest

end Pipeline

namespace QueueSimulation

variable {Q Q' : QueueCode MarketDataMsg W} {F : Fifo N Q} (K : QueueSimulation F Q')

def pipeline (s : Pipeline.State Q) : Pipeline.State Q' where
  generator := s.generator
  queue := K.image s.queue
  worker := s.worker

/-- The generator's loop goes on as it would with the other queue. -/
theorem generationLoop {g g' : BaseGenerator.State} {q q' : MarketDataQueue.State Q} {now : Nat}
    {msg : MarketDataMsg} (h : BaseGenerator.generationLoop g q now msg = some (g', q')) :
    BaseGenerator.generationLoop g (K.image q) now msg = some (g', K.image q') := by
  cases BaseGenerator.moves_of_generationLoop h with
  | callPush hpc hstop hq =>
      have hq' := K.call rfl hq
      simp [BaseGenerator.generationLoop, hpc, hstop, hq']
  | retPush hpc hret hq =>
      have hq' := K.call rfl hq
      have hret' := K.pushRet hret
      simp [BaseGenerator.generationLoop, hpc, hret', hq']
  | drop hpc hstop => simp [BaseGenerator.generationLoop, hpc, hstop]
  | _ hpc => simp [BaseGenerator.generationLoop, hpc]

/-- So does the worker's. -/
theorem runLoopStep {pc pc' : IDisseminator.Pc} {q q' : MarketDataQueue.State Q}
    {u : Bytes topicHeaderSize} {now : Nat}
    (h : IDisseminator.runLoopStep pc q u now = some (pc', q')) :
    IDisseminator.runLoopStep pc (K.image q) u now = some (pc', K.image q') := by
  cases IDisseminator.moves_of_runLoopStep h with
  | callPop hq => simp [IDisseminator.runLoopStep, K.call rfl hq]
  | popped hret hq =>
      have hq' := K.call rfl hq
      have hret' := K.popRet hret
      simp [IDisseminator.runLoopStep, hret', hq']
  | stopped hret hq =>
      have hq' := K.call rfl hq
      have hret' := K.popRet hret
      simp [IDisseminator.runLoopStep, hret', hq']
  | _ => rfl

variable {s s' : Pipeline.State Q} {e : Pipeline.Event}

theorem step_outside (he : Pipeline.inside e = false) (hs : Pipeline.step s e = some s') :
    Pipeline.step (K.pipeline s) e = some (K.pipeline s') := by
  cases e with
  | push | pop | requestStop | spurious => cases he
  | setRate r =>
      rw [← Option.some.inj hs]
      rfl
  | startGenerator =>
      rw [← Option.some.inj hs]
      rfl
  | requestStopGenerator =>
      rw [← Option.some.inj hs]
      rfl
  | joinGenerator =>
      obtain ⟨g', hg, rfl⟩ := Option.map_eq_some_iff.mp hs
      simp [Pipeline.step, pipeline, hg]
  | generator now msg =>
      obtain ⟨⟨g', q'⟩, hg, rfl⟩ := Option.map_eq_some_iff.mp hs
      have hg' := K.generationLoop hg
      simp [Pipeline.step, pipeline, hg']
  | disseminator u now =>
      obtain ⟨pc, hworker, hstep⟩ := Option.bind_eq_some_iff.mp hs
      obtain ⟨⟨pc', q'⟩, hpc, rfl⟩ := Option.map_eq_some_iff.mp hstep
      have hpc' := K.runLoopStep hpc
      simp [Pipeline.step, pipeline, hworker, hpc']
  | startDisseminator =>
      have hs : Pipeline.startDisseminator s = s' := Option.some.inj hs
      subst hs
      unfold Pipeline.startDisseminator
      cases hworker : s.worker with
      | none =>
          have hrestart := K.restart s.queue
          unfold MarketDataQueue.State.restarted at hrestart
          simp [Pipeline.step, Pipeline.startDisseminator, pipeline, hworker, hrestart]
      | some pc => simp [Pipeline.step, Pipeline.startDisseminator, pipeline, hworker]
  | callRequestStop =>
      have hs : Pipeline.callRequestStop s = some s' := hs
      unfold Pipeline.callRequestStop at hs
      cases hworker : s.worker with
      | none =>
          rw [hworker] at hs
          rw [← Option.some.inj hs]
          simp [Pipeline.step, Pipeline.callRequestStop, pipeline, hworker]
      | some pc =>
          rw [hworker] at hs
          obtain ⟨q', hq, rfl⟩ := Option.map_eq_some_iff.mp hs
          have hq' := K.call rfl hq
          simp [Pipeline.step, Pipeline.callRequestStop, pipeline, hworker, hq',
            Pipeline.State.withQueue]
  | joinDisseminator =>
      cases Pipeline.moves_of_joinDisseminator hs with
      | access he hq => cases he
      | joinDisseminator hworker hstop =>
          have hstop' := K.stopped hstop
          simp [Pipeline.step, Pipeline.joinDisseminator, pipeline, hworker, hstop']
      | idle _ =>
          have hs : Pipeline.joinDisseminator s = some s := hs
          unfold Pipeline.joinDisseminator at hs
          split at hs
          · next hworker => simp [Pipeline.step, Pipeline.joinDisseminator, pipeline, hworker]
          · next hworker =>
              split at hs
              · have hnone := congrArg Pipeline.State.worker (Option.some.inj hs)
                exact absurd (hnone.trans hworker) (by simp)
              · cases hs
          · cases hs

theorem step_inside (hinv : F.Inv s.queue) (he : Pipeline.inside e = true)
    (hs : Pipeline.step s e = some s') :
    ∃ ds, (∀ d ∈ ds, Pipeline.inside d = true) ∧
      (Pipeline.machine Q').run (K.pipeline s) ds = some (K.pipeline s') := by
  obtain ⟨qe, hqe, rfl⟩ : ∃ qe, MarketDataQueue.inside qe = true ∧ e = Pipeline.access qe := by
    cases e with
    | push => exact ⟨.push, rfl, rfl⟩
    | pop => exact ⟨.pop, rfl, rfl⟩
    | requestStop => exact ⟨.requestStop, rfl, rfl⟩
    | spurious => exact ⟨.spurious, rfl, rfl⟩
    | _ => cases he
  rw [Pipeline.step_access hqe] at hs
  obtain ⟨q', hq, rfl⟩ := Option.map_eq_some_iff.mp hs
  obtain ⟨ds, hds, hrun⟩ := K.access hinv hqe hq
  refine ⟨ds.map Pipeline.access, ?_, Pipeline.run_access (s := K.pipeline s) hds hrun⟩
  intro d hd
  obtain ⟨d', -, rfl⟩ := List.mem_map.mp hd
  exact Pipeline.inside_access d'

end QueueSimulation

/-! ### The whole program -/

namespace System

variable {Q Q' : QueueCode MarketDataMsg W} {F : Fifo N Q} {T : Transport}
  {cb : IFeedHandler.Callbacks}

/-- A step inside a call on the queue. -/
def inside : Event T → Bool
  | .pipeline e _ _ => Pipeline.inside e
  | .handler _ => false

/-- What a step generates or drops. -/
def marked (s : State Q T) : Event T → Option Pipeline.Mark
  | .pipeline e _ _ => Pipeline.mark s.pipeline e
  | .handler _ => none

/-- A step as it looks from outside the queue. -/
structure Shown (T : Transport) where
  event : Event T
  marked : Option Pipeline.Mark
  sending : Option Transport.Sending
  delivered : Option Delivery

def shown (cb : IFeedHandler.Callbacks) (s : State Q T) (e : Event T) : Option (Shown T) :=
  if inside e then none
  else some { event := e, marked := marked s e, sending := sending s e,
              delivered := delivered cb s e }

/-- The program with the other queue, at the same moment. -/
def withImage (K : QueueSimulation F Q') (s : State Q T) : State Q' T where
  pipeline := K.pipeline s.pipeline
  network := s.network
  handler := s.handler
  monitor := s.monitor

variable (K : QueueSimulation F Q') {s s' : State Q T} {e : Event T}

theorem shown_withImage (s : State Q T) (e : Event T) :
    shown cb (withImage K s) e = shown cb s e := by
  cases e with
  | pipeline e padding env => cases e <;> rfl
  | handler e => rfl

theorem step_withImage (he : inside e = false) (hs : step cb s e = some s') :
    step cb (withImage K s) e = some (withImage K s') := by
  cases e with
  | handler e =>
      have hs : handlerStep cb s e = some s' := hs
      unfold handlerStep at hs
      obtain ⟨hfrom, hs⟩ := Option.ite_none_right_eq_some.mp hs
      obtain ⟨h', hh, rfl⟩ := Option.map_eq_some_iff.mp hs
      have hfrom' : fromNetwork (withImage K s) e = true := hfrom
      have hh' : T.handler.step (withImage K s).handler e = some h' := hh
      simp only [step, handlerStep, hfrom', hh', if_true, Option.map_some]
      rfl
  | pipeline e padding env =>
      have hs : pipelineStep s e padding env = some s' := hs
      unfold pipelineStep at hs
      obtain ⟨hfits, hs⟩ := Option.ite_none_right_eq_some.mp hs
      obtain ⟨p', hp, rfl⟩ := Option.map_eq_some_iff.mp hs
      have hp' : Pipeline.step (withImage K s).pipeline e = some (K.pipeline p') :=
        K.step_outside he hp
      simp only [step, pipelineStep, hfits, hp', if_true, Option.map_some]
      rfl

/-- Steps inside calls put nothing on the network. -/
theorem run_inside {ds : List Pipeline.Event} (hds : ∀ d ∈ ds, Pipeline.inside d = true)
    (padding : Bytes 4) (env : T.Env) :
    ∀ {s : State Q T} {p : Pipeline.State Q}, (Pipeline.machine Q).run s.pipeline ds = some p →
      (machine Q T cb).run s (ds.map fun d => .pipeline d padding env) =
        some { s with pipeline := p } := by
  induction ds with
  | nil =>
      intro s p h
      rw [← Option.some.inj h]
      rfl
  | cons d ds ih =>
      intro s p h
      obtain ⟨p₁, hp₁, hrest⟩ := Machine.run_cons_some.mp h
      have hp₁ : Pipeline.step s.pipeline d = some p₁ := hp₁
      have hstep : step cb s (.pipeline d padding env) = some { s with pipeline := p₁ } := by
        have hd := hds d (by simp)
        cases d with
        | push | pop | requestStop | spurious => simp [step, pipelineStep, fits, packet, hp₁]
        | _ => cases hd
      refine Machine.run_cons_some.mpr ⟨_, hstep, ?_⟩
      exact ih (fun d' hd' => hds d' (by simp [hd'])) hrest

theorem collect_inside {ds : List (Event T)} (hds : ∀ d ∈ ds, inside d = true) :
    ∀ s : State Q T, (machine Q T cb).collect (shown cb) s ds = [] := by
  induction ds with
  | nil => intro s; rfl
  | cons d ds ih =>
      intro s
      have hd : shown cb s d = none := if_pos (hds d (by simp))
      simp only [Machine.collect, hd, Option.toList_none, List.nil_append]
      cases (machine Q T cb).step s d with
      | none => rfl
      | some s' => exact ih (fun d' hd' => hds d' (by simp [hd'])) s'

/-- **The program with the other queue follows**, step by step. -/
theorem simulation (T : Transport) (cb : IFeedHandler.Callbacks) :
    Machine.Simulation (machine Q T cb) (machine Q' T cb) (shown cb) (shown cb)
      (fun _ _ => True) (fun s t => (∃ es, (machine Q T cb).Exec es s) ∧ t = withImage K s) where
  init := by
    refine ⟨⟨[], Machine.Exec.nil⟩, ?_⟩
    show _ = withImage K (machine Q T cb).init
    unfold withImage QueueSimulation.pipeline
    have hinit := K.init
    simp only [machine, Pipeline.machine]
    rw [hinit]
  step := by
    rintro s t e s' ⟨⟨es, hex⟩, rfl⟩ - hs
    have hex' : (machine Q T cb).Exec (es ++ [e]) s' :=
      hex.append (by rw [Machine.run_singleton]; exact hs)
    cases he : inside e with
    | false =>
        have hstep := step_withImage K he hs
        refine ⟨[e], withImage K s', ?_, ?_, ⟨_, hex'⟩, rfl⟩
        · rw [Machine.run_singleton]
          exact hstep
        · rw [Machine.collect_singleton _ hstep, shown_withImage]
    | true =>
        cases e with
        | handler e => cases he
        | pipeline e padding env =>
            have hinv : Pipeline.RunInv F _ s.pipeline :=
              Pipeline.RunInv.of_exec (pipeline_projection.exec hex)
            have hs : pipelineStep s e padding env = some s' := hs
            obtain ⟨-, hs⟩ := Option.ite_none_right_eq_some.mp hs
            obtain ⟨p', hp, rfl⟩ := Option.map_eq_some_iff.mp hs
            have hpacket : packet s.pipeline e padding env = none := by
              cases e with
              | disseminator u now => cases he
              | _ => rfl
            obtain ⟨ds, hds, hrun⟩ := K.step_inside hinv.coupled.inv he hp
            refine ⟨ds.map fun d => .pipeline d padding env, _,
              run_inside (s := withImage K s) hds padding env hrun, ?_, ⟨_, hex'⟩, ?_⟩
            · have hunseen : shown cb s (.pipeline e padding env) = none := if_pos he
              rw [hunseen]
              refine collect_inside ?_ _
              intro d hd
              obtain ⟨d', hd', rfl⟩ := List.mem_map.mp hd
              exact hds d' hd'
            · rw [hpacket, Option.toList_none, List.append_nil]
              rfl

end System

end MarketData
