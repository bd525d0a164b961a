/-
The rate that the benchmark can report.

`plot_throughput.py` divides the number of messages it reads from the files by the
duration it asked for.  That number goes back to the generator's schedule in steps: what
is in the files was delivered, what was delivered was sent, what was sent was generated,
and the generator keeps to its schedule in each of its sessions.  A benchmark has one
session (`OneSession`), so the schedule bounds the whole of it.

The duration plays no part: what counts is how long the generator ran by its own clock.
-/
import MarketData.Proofs.BenchmarkRuns
import MarketData.Proofs.MessageRate

namespace MarketData

open Lib

variable {W : Nat} {Q : QueueCode MarketDataMsg W}

namespace Pipeline

open BaseGenerator

variable {s s' : State Q} {e : Event} {es : List Event}

/-! ### One session -/

/-- The messages keep to the schedule, from the first to the last reading. -/
def KeptSchedule (interval : Nat) (readings : List Nat) (n : Nat) : Prop :=
  n = 0 ∨ ∃ first last, readings.head? = some first ∧ readings.getLast? = some last ∧
    OnSchedule interval n first last

/-- A run of one session: it has not begun, it is under way, or it is over. -/
inductive OneSession (interval : Nat) (readings : List Nat) (n : Nat) (started : Prop) :
    Option Pc → Prop
  | before (hnot : ¬ started) (hr : readings = []) (hn : n = 0) :
      OneSession interval readings n started none
  | during {pc : Pc} (hstarted : started) (h : Paced interval readings n (some pc)) :
      OneSession interval readings n started (some pc)
  | ended (hstarted : started) (h : KeptSchedule interval readings n) :
      OneSession interval readings n started none

theorem KeptSchedule.of_paced {interval n : Nat} {readings : List Nat} {thread : Option Pc}
    (h : Paced interval readings n thread) : KeptSchedule interval readings n := by
  cases h with
  | begin hr hn => exact .inl hn
  | running hfirst hlast hon hpc => exact .inr ⟨_, _, hfirst, hlast, hon⟩

theorem OneSession.kept {interval n : Nat} {readings : List Nat} {started : Prop}
    {thread : Option Pc} (h : OneSession interval readings n started thread) :
    KeptSchedule interval readings n := by
  cases h with
  | before hnot hr hn => exact .inl hn
  | during hstarted h => exact .of_paced h
  | ended hstarted h => exact h

theorem OneSession.started {interval n : Nat} {readings : List Nat} {started : Prop}
    {thread : Option Pc} (h : OneSession interval readings n started thread) (hn : n ≠ 0) :
    started := by
  cases h with
  | before hnot hr hzero => exact absurd hzero hn
  | during hstarted h => exact hstarted
  | ended hstarted h => exact hstarted

/-- Only `set_rate` sets the rate. -/
theorem rate_step (hs : step s e = some s') (he : ∀ r, e ≠ .setRate r) :
    s'.generator.messagesPerSec = s.generator.messagesPerSec ∧
      s'.generator.interval = s.generator.interval := by
  cases moves_of_step hs with
  | setRate r => exact absurd rfl (he r)
  | startGenerator =>
      rcases start_cases s.generator with ⟨-, -, hstart⟩ | ⟨-, hstart⟩
      · rw [hstart]
        exact ⟨rfl, rfl⟩
      · rw [hstart]
        exact ⟨rfl, rfl⟩
  | requestStopGenerator =>
      rcases requestStop_cases s.generator with ⟨-, hstop⟩ | ⟨_, -, hstop⟩
      · rw [hstop]
        exact ⟨rfl, rfl⟩
      · rw [hstop]
        exact ⟨rfl, rfl⟩
  | joinGenerator hg =>
      rcases join_cases hg with rfl | ⟨-, rfl⟩
      · exact ⟨rfl, rfl⟩
      · exact ⟨rfl, rfl⟩
  | generator hm =>
      obtain ⟨pc, rfl⟩ := Moves.goto_eq hm
      exact ⟨rfl, rfl⟩
  | _ => exact ⟨rfl, rfl⟩

/-- Without a thread nothing is read and nothing generated, and only `start` makes one. -/
theorem idle_generator_step (hthread : s.generator.thread = none) (hs : step s e = some s')
    (he : e ≠ .startGenerator) :
    s'.generator.thread = none ∧ reading s e = none ∧ generatedMsg s e = none := by
  cases moves_of_step hs with
  | setRate r =>
      refine ⟨?_, rfl, rfl⟩
      exact (setRate_frame s.generator r).1.trans hthread
  | startGenerator => exact absurd rfl he
  | requestStopGenerator =>
      refine ⟨?_, rfl, by simp [generatedMsg, mark, hthread]⟩
      rcases requestStop_cases s.generator with ⟨-, hstop⟩ | ⟨pc, hpc, -⟩
      · rw [hstop]
        exact hthread
      · exact absurd (hpc.symm.trans hthread) (by simp)
  | joinGenerator hg =>
      refine ⟨?_, rfl, rfl⟩
      rcases join_cases hg with rfl | ⟨-, rfl⟩
      · exact hthread
      · rfl
  | generator hm => exact absurd hthread hm.thread_ne_none
  | access hin hq =>
      refine ⟨hthread, ?_, ?_⟩
      · cases e <;> first | rfl | cases hin
      · unfold generatedMsg
        rw [(unseen (Or.inl (by rw [hin]; rfl))).1]
  | idle hon =>
      refine ⟨hthread, ?_, ?_⟩
      · cases e <;> first | rfl | cases hon
      · unfold generatedMsg
        rw [(unseen (Or.inr hon)).1]
  | _ => exact ⟨hthread, rfl, rfl⟩

/-- `set_rate` and `start`. -/
def isSetUp : Event → Bool
  | .setRate _ => true
  | .startGenerator => true
  | _ => false

/-- The rate is set and the generator is started, each once and in this order. -/
def StartedOnce (r : BitVec 32) (es : List Event) : Prop :=
  es.filter isSetUp <+: [.setRate r, .startGenerator]

theorem StartedOnce.init {r : BitVec 32} (h : StartedOnce r (es ++ [e])) : StartedOnce r es := by
  rw [StartedOnce, List.filter_append] at h
  exact (List.prefix_append _ _).trans h

/-- Neither comes after `start`. -/
theorem StartedOnce.started {r : BitVec 32} (h : StartedOnce r (es ++ [e]))
    (he : isSetUp e = true) : Event.startGenerator ∉ es := by
  intro hmem
  have hfirst : Event.startGenerator ∈ es.filter isSetUp := List.mem_filter.mpr ⟨hmem, rfl⟩
  rw [StartedOnce, List.filter_append, List.filter_singleton, he] at h
  generalize es.filter isSetUp = calls at hfirst h
  cases calls with
  | nil => cases hfirst
  | cons c calls =>
      obtain ⟨rfl, h⟩ := List.cons_prefix_cons.mp h
      have hlength := h.length_le
      cases calls with
      | nil => exact absurd (List.mem_singleton.mp hfirst) (by simp)
      | cons c' calls => simp at hlength

/-- What is started has a rate. -/
theorem StartedOnce.rated {r : BitVec 32} (h : StartedOnce r es)
    (hstart : Event.startGenerator ∈ es) : es.filter isSetUp = [.setRate r, .startGenerator] := by
  have hmem : Event.startGenerator ∈ es.filter isSetUp := List.mem_filter.mpr ⟨hstart, rfl⟩
  rw [StartedOnce] at h
  generalize es.filter isSetUp = calls at hmem h
  cases calls with
  | nil => cases hmem
  | cons c calls =>
      obtain ⟨rfl, hrest⟩ := List.cons_prefix_cons.mp h
      cases calls with
      | nil => exact absurd (List.mem_singleton.mp hmem) (by simp)
      | cons c' calls =>
          obtain ⟨rfl, hnil⟩ := List.cons_prefix_cons.mp hrest
          rw [List.prefix_nil.mp hnil]

theorem mem_start_snoc (he : e ≠ .startGenerator) :
    Event.startGenerator ∈ es ++ [e] ↔ Event.startGenerator ∈ es := by
  simp [Ne.symm he]

theorem OneSession.step {n : Nat} {readings : List Nat}
    (h : OneSession s.generator.interval readings n (Event.startGenerator ∈ es)
      s.generator.thread)
    (hs : step s e = some s')
    (he : isSetUp e = true → Event.startGenerator ∉ es)
    (hsorted : (readings ++ (reading s e).toList).Pairwise (· ≤ ·)) :
    OneSession s'.generator.interval (readings ++ (reading s e).toList)
      (n + (generatedMsg s e).toList.length) (Event.startGenerator ∈ es ++ [e])
      s'.generator.thread := by
  generalize hthread : s.generator.thread = thread at h
  cases h with
  | before hnot hr hn =>
      by_cases hstart : e = .startGenerator
      · subst hstart
        have hs : { s with generator := afterCall s.generator (start s.generator) } = s' :=
          Option.some.inj hs
        have hread : reading s .startGenerator = none := rfl
        subst hs
        rcases start_cases s.generator with ⟨hmark, -, heq⟩ | ⟨hmark, heq⟩
        · have hmsg : generatedMsg s .startGenerator = none := by simp [generatedMsg, mark, hmark]
          rw [hread, hmsg, heq]
          exact .during (by simp) (.begin (by simp [hr]) (by simp [hn]))
        · have hmsg : generatedMsg s .startGenerator = none := by simp [generatedMsg, mark, hmark]
          rw [hread, hmsg, heq, hthread]
          exact .ended (by simp) (.inl (by simp [hn]))
      · obtain ⟨hnone, hread, hmsg⟩ := idle_generator_step hthread hs hstart
        rw [hread, hmsg, hnone, mem_start_snoc hstart]
        exact .before hnot (by simp [hr]) (by simp [hn])
  | @during pc hstarted hpaced =>
      have hrate : ∀ r, e ≠ .setRate r := by
        rintro r rfl
        exact he rfl hstarted
      have hstart : e ≠ .startGenerator := by
        rintro rfl
        exact he rfl hstarted
      rw [mem_start_snoc hstart]
      by_cases hjoin : e = .joinGenerator
      · subst hjoin
        have hread : reading s .joinGenerator = none := rfl
        have hmsg : generatedMsg s .joinGenerator = none := rfl
        obtain ⟨g', hg, rfl⟩ := Option.map_eq_some_iff.mp hs
        rw [hread, hmsg, Option.toList_none, Option.toList_none, List.append_nil]
        rcases join_cases hg with rfl | ⟨-, rfl⟩
        · rw [hthread]
          exact .during hstarted hpaced
        · exact .ended hstarted (.of_paced hpaced)
      · have hduring : duringSession e = true := by
          cases e with
          | setRate r => exact absurd rfl (hrate r)
          | joinGenerator => exact absurd rfl hjoin
          | _ => rfl
        rw [← hthread] at hpaced
        obtain ⟨hinterval, hpaced'⟩ := hpaced.step hduring hs hsorted
        rw [hinterval]
        generalize hthread' : s'.generator.thread = thread' at hpaced'
        cases hpaced' with
        | begin hr hn => exact .during hstarted (.begin hr hn)
        | running hfirst hlast hon hpc => exact .during hstarted (.running hfirst hlast hon hpc)
  | ended hstarted hkept =>
      have hrate : ∀ r, e ≠ .setRate r := by
        rintro r rfl
        exact he rfl hstarted
      have hstart : e ≠ .startGenerator := by
        rintro rfl
        exact he rfl hstarted
      obtain ⟨hnone, hread, hmsg⟩ := idle_generator_step hthread hs hstart
      rw [hread, hmsg, hnone, mem_start_snoc hstart, (rate_step hs hrate).2]
      refine .ended hstarted ?_
      rw [Option.toList_none, Option.toList_none, List.append_nil]
      exact hkept

theorem OneSession.of_exec {r : BitVec 32} (h : (machine Q).Exec es s) : StartedOnce r es →
    ((machine Q).log reading es).Pairwise (· ≤ ·) →
    OneSession s.generator.interval ((machine Q).log reading es)
      ((machine Q).log generatedMsg es).length (Event.startGenerator ∈ es) s.generator.thread := by
  refine Machine.Exec.induction (P := fun es s => StartedOnce r es →
    ((machine Q).log reading es).Pairwise (· ≤ ·) →
    OneSession s.generator.interval ((machine Q).log reading es)
      ((machine Q).log generatedMsg es).length (Event.startGenerator ∈ es)
      s.generator.thread) ?_ ?_ h
  · intro _ _
    exact .before (by simp) rfl rfl
  · intro es s e s' hex ih hs honce hsorted
    rw [Machine.log_snoc reading hex hs] at hsorted ⊢
    rw [Machine.log_snoc generatedMsg hex hs, List.length_append]
    exact (ih honce.init (List.pairwise_append.mp hsorted).1).step hs honce.started hsorted

/-- The generator has the rate that was set. -/
theorem rate_of_exec {r : BitVec 32} (hr : 1 ≤ r) (h : (machine Q).Exec es s) :
    (∀ r', Event.setRate r' ∈ es → r' = r) → Event.setRate r ∈ es →
      s.generator.messagesPerSec = r := by
  refine Machine.Exec.induction (P := fun es s => (∀ r', Event.setRate r' ∈ es → r' = r) →
    Event.setRate r ∈ es → s.generator.messagesPerSec = r) ?_ ?_ h
  · intro _ hmem
    cases hmem
  · intro es s e s' _ ih hs hall hmem
    by_cases hset : ∃ r', e = .setRate r'
    · obtain ⟨r', rfl⟩ := hset
      obtain rfl := hall r' (by simp)
      have hs : { s with generator := afterCall s.generator (setRate s.generator r') } = s' :=
        Option.some.inj hs
      have hlt : ¬ r' < 1 := BitVec.not_lt.mpr hr
      rw [← hs, setRate, if_neg hlt]
      rfl
    · have hne : ∀ r', e ≠ .setRate r' := fun r' heq => hset ⟨r', heq⟩
      rw [(rate_step hs hne).1]
      refine ih (fun r' hr' => hall r' (by simp [hr'])) ?_
      rcases List.mem_append.mp hmem with hmem | hmem
      · exact hmem
      · exact absurd (List.mem_singleton.mp hmem).symm (hne r)

/-- Where one session is all there is, its schedule bounds the whole run. -/
theorem generated_le {r : BitVec 32} {first T : Nat} (hr : 1 ≤ r) (h : (machine Q).Exec es s)
    (honce : StartedOnce r es) (hsorted : ((machine Q).log reading es).Pairwise (· ≤ ·))
    (hfirst : ((machine Q).log reading es).head? = some first)
    (hwithin : ∀ now ∈ (machine Q).log reading es, now ≤ first + T) :
    ((machine Q).log generatedMsg es).length * (1000000000 / r.toNat) ≤
      T + 1000000000 / r.toNat := by
  have hsession := OneSession.of_exec h honce hsorted
  by_cases hzero : ((machine Q).log generatedMsg es).length = 0
  · rw [hzero, Nat.zero_mul]
    exact Nat.zero_le _
  · rcases hsession.kept with hnone | ⟨first', last, hfirst', hlast, hon⟩
    · exact absurd hnone hzero
    · obtain rfl : first = first' := Option.some.inj (hfirst.symm.trans hfirst')
      have hrated := honce.rated (hsession.started hzero)
      have hset : Event.setRate r ∈ es :=
        List.mem_of_mem_filter (hrated ▸ List.mem_cons_self)
      have hrate : s.generator.messagesPerSec = r := by
        refine rate_of_exec hr h (fun r' hr' => ?_) hset
        have hmem : Event.setRate r' ∈ es.filter isSetUp := List.mem_filter.mpr ⟨hr', rfl⟩
        rw [hrated] at hmem
        simpa using hmem
      have hinterval : s.generator.interval = 1000000000 / r.toNat := by
        rw [rated_of_exec h, hrate]
        rw [hrate]
        rintro rfl
        exact absurd hr (by decide)
      have hreached := hon.reached
      have hle := hwithin last (List.mem_of_getLast? hlast)
      rw [← hinterval]
      omega

/-! ### What was kept was generated -/

/-- What the sessions have generated. -/
def Sessions.generated (ss : Sessions) : List MarketDataMsg := ss.all.flatMap Session.generated

theorem Sessions.kept_sublist (ss : Sessions) :
    (ss.all.flatMap Session.kept).Sublist ss.generated := by
  unfold Sessions.generated
  induction ss.all with
  | nil => exact List.Sublist.refl _
  | cons x xs ih =>
      rw [List.flatMap_cons, List.flatMap_cons]
      exact (List.take_sublist _ _).append ih

theorem Sessions.generated_note (ss : Sessions) (m : Option Mark) :
    (ss.note m).generated.Sublist (ss.generated ++ madeBy m) := by
  obtain ⟨past, latest⟩ := ss
  cases m with
  | none => exact List.sublist_append_left _ _
  | some m =>
      cases latest <;> cases m <;>
        simp [Sessions.note, Sessions.record, Sessions.generated, Sessions.all, Session.start,
          madeBy]

/-- What was kept was generated. -/
theorem kept_sublist_generated (h : (machine Q).Exec es s) :
    ((sessions Q es).all.flatMap Session.kept).Sublist ((machine Q).log generatedMsg es) := by
  refine (sessions Q es).kept_sublist.trans ?_
  refine Machine.Exec.induction (P := fun es _ => (sessions Q es).generated.Sublist
    ((machine Q).log generatedMsg es)) (List.Sublist.refl _) ?_ h
  intro es s e s' hex ih hs
  rw [sessions_snoc hex hs, Machine.log_snoc generatedMsg hex hs]
  have hmade : madeBy (mark s e) = (generatedMsg s e).toList := by
    unfold generatedMsg
    cases mark s e with
    | none => rfl
    | some m => cases m <;> rfl
  refine ((sessions Q es).generated_note (mark s e)).trans ?_
  rw [hmade]
  exact ih.append (List.Sublist.refl _)

end Pipeline

namespace Main

open IFeedHandler

variable {T : Transport} {X : HandlerCalls T} {cb : Callbacks} {es : List (System.Event T)}
  {s : System.State Q T}

/-! ### The session of a benchmark -/

/-- The calls that set up the generator. -/
def setUpEvent : MainCall → Option Pipeline.Event
  | .setRate r => some (.setRate r)
  | .startGenerator => some .startGenerator
  | _ => none

theorem setUpEvent_handler {c : MainCall} {x y : Status × Bool} (h : HandlerMove (some c) x y) :
    setUpEvent c = none := by
  cases h <;> rfl

theorem setUp_callsOf (L : HandlerLaws X) (es : List (System.Event T)) :
    (callsOf X es).filterMap setUpEvent =
      (es.filterMap System.pipelineEvent).filter Pipeline.isSetUp := by
  rw [callsOf, List.filterMap_filterMap, ← List.filterMap_eq_filter, List.filterMap_filterMap]
  refine List.filterMap_congr ?_
  intro e _
  cases e with
  | pipeline e padding env => cases e <;> rfl
  | handler e =>
      show (X.call e).bind setUpEvent = none
      cases hc : X.call e with
      | none => rfl
      | some c =>
          obtain ⟨x, y, hmove⟩ := L.handlerCall hc
          exact setUpEvent_handler hmove

/-- Without a rate the generator was not set up. -/
theorem setUp_of_unrated {calls : List MainCall} : ∀ {m m' : Stage},
    protocol.run m calls = some m' → m'.rated = false →
      m.rated = false ∧ calls.filterMap setUpEvent = [] := by
  induction calls with
  | nil =>
      intro m m' h hrated
      rw [Option.some.inj h]
      exact ⟨hrated, rfl⟩
  | cons c calls ih =>
      intro m m' h hrated
      obtain ⟨t, ht, hrest⟩ := Machine.run_cons_some.mp h
      obtain ⟨hunrated, hnil⟩ := ih hrest hrated
      rw [List.filterMap_cons]
      cases allows_of_next ht with
      | setRate hr => cases hunrated
      | startGenerator hidle hm => cases hm.symm.trans hunrated
      | handler hmove =>
          rw [setUpEvent_handler hmove]
          exact ⟨hunrated, hnil⟩
      | _ => exact ⟨hunrated, hnil⟩

theorem setUp_runBenchmarkPipeline (L : HandlerLaws X) (messageRate : BitVec 32)
    (symbolsFile : List Byte) :
    (runBenchmarkPipeline X messageRate symbolsFile).filterMap setUpEvent =
      [.setRate messageRate, .startGenerator] := by
  have hcalling : protocol.init.calling = false := rfl
  have hrated : protocol.init.rated = false := rfl
  obtain ⟨-, hnil⟩ := setUp_of_unrated
    (protocol_subscribes L hcalling (subscribedSymbols symbolsFile)) hrated
  rw [runBenchmarkPipeline, List.filterMap_append, List.filterMap_append, hnil]
  rfl

/-- A benchmark sets its rate and starts its generator, each once. -/
theorem startedOnce_of_follows (L : HandlerLaws X) {messageRate : BitVec 32}
    {symbolsFile : List Byte} (h : Follows X (runBenchmarkPipeline X messageRate symbolsFile) es) :
    Pipeline.StartedOnce messageRate (es.filterMap System.pipelineEvent) := by
  rw [Pipeline.StartedOnce, ← setUp_callsOf L, ← setUp_runBenchmarkPipeline L messageRate]
  exact List.IsPrefix.filterMap setUpEvent h

/-! ### Main result -/

/-- What the generator read of its clock. -/
def readings (Q : QueueCode MarketDataMsg W) (es : List (System.Event T)) : List Nat :=
  (Pipeline.machine Q).log Pipeline.reading (es.filterMap System.pipelineEvent)

/-- Whatever the command line and the files were: at every moment of every run of the
benchmark, over a network that does not repeat packets or put them out of order, if the
generator's clock has moved on by no more than `span` nanoseconds, then the monitor's
files have no more messages in them than the rate of the command line allows.  The
underlying queue is `CustomSpscQueue`; `--underlying boost` is not modelled. -/
def ReportsWithinRate (Q : QueueCode MarketDataMsg W) (X : HandlerCalls T) : Prop :=
  ∀ growth files result b, main growth files result = .ok (some b) →
    ∀ cb es s, (System.machine Q T cb).Exec es s → Follows X (b.calls files X) es →
      ((System.machine Q T cb).log System.handed es).Sublist s.network →
      (readings Q es).Pairwise (· ≤ ·) →
      ∀ first span, (readings Q es).head? = some first →
        (∀ now ∈ readings Q es, now ≤ first + span) →
        ∀ outDir old,
          (PlotThroughput.totalReceived outDir
            (LatencyMonitor.saveToCsv outDir s.monitor old) - 1) *
              (1000000000 / result.rate.toNat) ≤ span

theorem total_le_generated {N : Capacity W} (F : Fifo N Q) {S : T.Sound}
    (K : Transport.InSequence S) (h : (System.machine Q T cb).Exec es s)
    (hhanded : ((System.machine Q T cb).log System.handed es).Sublist s.network)
    (outDir : String) (old : Files) :
    PlotThroughput.totalReceived outDir (LatencyMonitor.saveToCsv outDir s.monitor old) ≤
      ((Pipeline.machine Q).log Pipeline.generatedMsg
        (es.filterMap System.pipelineEvent)).length := by
  have harrives := System.Arrives.of_exec F K h
  have hsent := (harrives.inOrder hhanded).length_le
  have hkept := harrives.generated.length_le
  have hgenerated :=
    (Pipeline.kept_sublist_generated (System.pipeline_projection.exec h)).length_le
  rw [(System.Reports.of_exec outDir old h).total]
  simp only [List.length_map, System.kept] at hsent hkept
  omega

theorem reportsWithinRate (L : HandlerLaws X) {N : Capacity W} (F : Fifo N Q) {S : T.Sound}
    (K : Transport.InSequence S) : ReportsWithinRate Q X := by
  intro growth files result b hb cb es s h hF hhanded hsorted first span hfirst hspan outDir old
  have hrate : b.config.messageRate = result.rate := (main_eq_ok hb).1
  have hone : 1 ≤ result.rate := by
    have hle := (main_accepts_iff.mp ⟨b, hb⟩).rate
    bv_omega
  rw [Benchmark.calls, hrate] at hF
  have htotal := total_le_generated F K h hhanded outDir old
  have hgenerated := Pipeline.generated_le hone (System.pipeline_projection.exec h)
    (startedOnce_of_follows L hF) hsorted hfirst hspan
  generalize ((Pipeline.machine Q).log Pipeline.generatedMsg
    (es.filterMap System.pipelineEvent)).length = n at htotal hgenerated
  have hinterval : (0 : Int) ≤ 1000000000 / (result.rate.toNat : Int) :=
    Int.ediv_nonneg (by omega) (Int.natCast_nonneg _)
  have hscaled := Int.mul_le_mul_of_nonneg_right htotal hinterval
  have hcast : (n : Int) * (1000000000 / result.rate.toNat) ≤
      span + 1000000000 / result.rate.toNat := by
    exact_mod_cast hgenerated
  rw [Int.sub_mul, Int.one_mul]
  omega

/-- **The benchmark does not report more than its rate**, with either queue class and
either transport. -/
theorem benchmark_reports_within_rate (N : Capacity W) {V : Nat} (M : Capacity V) :
    (ReportsWithinRate (SpinSpscQueue N) (udpCalls M) ∧
        ReportsWithinRate (SpinSpscQueue N) zmqCalls) ∧
      ReportsWithinRate (WaitableSpscQueue N) (udpCalls M) ∧
        ReportsWithinRate (WaitableSpscQueue N) zmqCalls :=
  ⟨⟨reportsWithinRate (udpLaws M) (spinFifo N) (.udp M),
      reportsWithinRate zmqLaws (spinFifo N) .zmq⟩,
    reportsWithinRate (udpLaws M) (waitableFifo N) (.udp M),
    reportsWithinRate zmqLaws (waitableFifo N) .zmq⟩

/-! ### A run -/

/-- The second message with both stamps. -/
def secondTrade : MarketDataMsg :=
  (Pipeline.sampleTrade.setEnqueueTimestamp 2000000).setDisseminateTimestamp 2000005

/-- The second message is sent and received, too. -/
def bothReceived : List (System.Event .zmq) :=
  beforeStop ++
    inPipeline (Pipeline.disseminatorSteps 1 ++ List.replicate 7 .pop ++
      List.replicate 3 (.disseminator (Bytes.zero _) 2000005)) ++
    [ZmqFeedHandler.Event.arrive (Transport.multipart (Bytes.zero 4) secondTrade), .checkStop,
      .recv .frame 2000009, .rcvmore, .recv .frame 2000009].map fun e => .handler e

theorem bothReceived_goes : ((System.machine (SpinSpscQueue slots128) .zmq Callbacks.both).run
    (System.machine (SpinSpscQueue slots128) .zmq Callbacks.both).init bothReceived).isSome =
      true := by
  decide +kernel

/-- Ten thousand messages a second, a clock that moves on by two milliseconds, and two
messages in the files. -/
theorem benchmark_reports_within_rate_bothReceived :
    readings (SpinSpscQueue slots128) bothReceived = [1, 1, 1, 2000000, 2000000] ∧
    ∃ s, (System.machine (SpinSpscQueue slots128) .zmq Callbacks.both).Exec bothReceived s ∧
      PlotThroughput.totalReceived "data"
        (LatencyMonitor.saveToCsv "data" s.monitor fun _ => none) = 2 ∧
      (PlotThroughput.totalReceived "data"
        (LatencyMonitor.saveToCsv "data" s.monitor fun _ => none) - 1) *
          (1000000000 / (10000 : BitVec 32).toNat) ≤ 1999999 := by
  have hreadings : readings (SpinSpscQueue slots128) bothReceived =
      [1, 1, 1, 2000000, 2000000] := by
    decide +kernel
  have hnetwork : (System.machine (SpinSpscQueue slots128) .zmq Callbacks.both).log System.handed
      bothReceived = ((System.machine (SpinSpscQueue slots128) .zmq Callbacks.both).final
        bothReceived bothReceived_goes).network := by
    decide +kernel
  have htwo : ((System.machine (SpinSpscQueue slots128) .zmq Callbacks.both).log
      (System.delivered Callbacks.both) bothReceived).length = 2 := by
    decide +kernel
  have hcalls : callsOf zmqCalls bothReceived ++ [.requestStopGenerator, .joinGenerator,
      .requestStopDisseminator, .joinDisseminator, .requestStopHandler, .joinHandler] =
      runBenchmarkPipeline zmqCalls 10000 (oneSymbol "") := by
    decide +kernel
  have htotal := (System.Reports.of_exec "data" (fun _ => none)
    (Machine.exec_final bothReceived_goes)).total
  rw [htwo] at htotal
  refine ⟨hreadings, _, Machine.exec_final bothReceived_goes, htotal, ?_⟩
  refine (benchmark_reports_within_rate slots128 slots128).1.2 .doubling oneSymbol {} _ rfl
    Callbacks.both bothReceived _ (Machine.exec_final bothReceived_goes) ⟨_, hcalls⟩ ?_ ?_ 1 _
    ?_ ?_ "data" _
  · rw [hnetwork]
  · rw [hreadings]
    decide
  · rw [hreadings]
    rfl
  · rw [hreadings]
    decide

end Main

end MarketData
