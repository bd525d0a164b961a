/-
A pop returns an item that is visible to it, unless it has gone to sleep.

The wake-up that store buffers can cost `WaitableSpscQueue` is lost in one place: after
the second try of `pop` has failed.  A pop that has not got there, and any pop of
`SpinSpscQueue`, finds an item whose count has reached memory, in a fixed number of its
own steps and flushes, whatever the producer does meanwhile.

What is left of a pop is `work`, with two for a store: its step, and the flush that it
then still owes.  The work goes down with each step because the empty test cannot fail:
the counter in memory only moves on, and until the pop has passed its test it is the
only one who could have counted the item out.
-/
import MarketData.Lib.Progress
import MarketData.Proofs.BufferedFifo

namespace MarketData

open Lib
open StaleCounters (StaleInv reads)

variable {T : Type} {W : Nat} {N : Capacity W} {m : Mem T W} {b : Buf T W} {st : StopState}

/-! ### The accesses of a pop -/

/-- The steps and flushes until a pop that finds an item is done. -/
def PopPc.work : PopPc T W → Nat
  | .loadRead => 7
  | .loadWrite _ => 6
  | .move _ => 5
  | .destroy _ _ => 4
  | .publish _ _ => 2
  | .done _ => 0
  | .fault => 0

/-- The pop has not passed its empty test. -/
def PopPc.seeking : PopPc T W → Bool
  | .loadRead => true
  | .loadWrite _ => true
  | .done none => true
  | _ => false

/-- What an access of a pop leaves behind when its empty test does not fail. -/
structure PopPc.Nearer (q : PopPc T W) (b : Buf T W)
    (n : Instr.NextTso Loc (Cell T W) StopState (PopPc T W)) : Prop where
  found : n.pc ≠ .done none
  seeking : n.pc.seeking = true → q.seeking = true
  buffered : b.length ≤ n.buf.length
  work : n.pc.work + n.buf.length < q.work + b.length

theorem PopPc.nearer {q : PopPc T W} {n : Instr.NextTso Loc (Cell T W) StopState (PopPc T W)}
    (h : (q.code N).tso m b st = some n)
    (hne : ∀ r, q = .loadWrite r → r ≠ Instr.view m b .write_) (hfault : n.pc ≠ .fault) :
    Nearer q b n := by
  cases q with
  | loadRead =>
      simp only [PopPc.code, Instr.tso_load, Option.some.injEq] at h
      subst h
      exact ⟨by simp, fun _ => rfl, Nat.le_refl _, by simp [work]⟩
  | loadWrite r =>
      simp only [PopPc.code, Instr.tso_load, Option.some.injEq] at h
      subst h
      rw [if_neg (hne r rfl)]
      exact ⟨by simp, fun _ => rfl, Nat.le_refl _, by simp [work]⟩
  | move r =>
      simp only [PopPc.code, Instr.tso_load, Option.some.injEq] at h
      subst h
      cases hcell : Instr.view m b (.data_ (r.toNat % N.val)) with
      | none => simp [hcell] at hfault
      | some item => exact ⟨by simp, by simp [seeking], Nat.le_refl _, by simp [work]⟩
  | destroy r item =>
      rw [PopPc.code, Instr.tso_store (by simp), Option.some.injEq] at h
      subst h
      refine ⟨by simp, by simp [seeking], by simp, ?_⟩
      simp only [work, List.length_append, List.length_singleton]
      omega
  | publish r item =>
      rw [PopPc.code, Instr.tso_store (by simp), Option.some.injEq] at h
      subst h
      refine ⟨by simp, by simp [seeking], by simp, ?_⟩
      simp only [work, List.length_append, List.length_singleton]
      omega
  | done res => simp [PopPc.code] at h
  | fault => simp [PopPc.code] at h

/-- A pop that has not passed its test gives nothing up. -/
theorem PopPc.retires_of_seeking {q : PopPc T W} (h : q.seeking = true) : q.retires = [] := by
  cases q with
  | publish r item => simp [seeking] at h
  | _ => rfl

/-- An access leaves the stop state alone. -/
theorem PopPc.tso_obj {q : PopPc T W} {n : Instr.NextTso Loc (Cell T W) StopState (PopPc T W)}
    (h : (q.code N).tso m b st = some n) : n.obj = st := by
  cases q with
  | destroy r item =>
      rw [PopPc.code, Instr.tso_store (by simp), Option.some.injEq] at h
      rw [← h]
  | publish r item =>
      rw [PopPc.code, Instr.tso_store (by simp), Option.some.injEq] at h
      rw [← h]
  | done res => simp [PopPc.code] at h
  | fault => simp [PopPc.code] at h
  | _ =>
      simp only [PopPc.code, Instr.tso_load, Option.some.injEq] at h
      rw [← h]

theorem PushPc.tso_obj {q : PushPc T W} {n : Instr.NextTso Loc (Cell T W) StopState (PushPc T W)}
    (h : (q.code N).tso m b st = some n) : n.obj = st := by
  cases q with
  | construct item w =>
      rw [PushPc.code, Instr.tso_store (by simp), Option.some.injEq] at h
      rw [← h]
  | publish item w =>
      rw [PushPc.code, Instr.tso_store (by simp), Option.some.injEq] at h
      rw [← h]
  | done item ok => simp [PushPc.code] at h
  | _ =>
      simp only [PushPc.code, Instr.tso_load, Option.some.injEq] at h
      rw [← h]

/-- Inside a pop a caller can always go on. -/
theorem PopPc.tso_call_enabled {P : Type} {inside : PopPc T W → P} {ret : Option T → P}
    {q : PopPc T W} (h : q ≠ .fault) (m : Mem T W) (b : Buf T W) (st : StopState) :
    ∃ n, (q.call N inside ret : Code T W StopState P).tso m b st = some n := by
  cases q with
  | fault => exact absurd rfl h
  | _ => exact ⟨_, rfl⟩

/-! ### What a queue class has to show -/

/-- Nobody has requested a stop, and no callback runs. -/
def StopState.Quiet (st : StopState) : Prop := st.requested = false ∧ st.callback ≠ .running

/-- What is left of a pop after a step in which no empty test failed. -/
structure PopCloser {P : Type} (asleep seeking : P → Bool) (work : P → Nat) (c : P) (b : Buf T W)
    (n : Instr.NextTso Loc (Cell T W) StopState P) : Prop where
  awake : asleep n.pc = false
  seeking : seeking n.pc = true → seeking c = true
  buffered : b.length ≤ n.buf.length
  work : work n.pc + n.buf.length < work c + b.length

/-- The pops of a queue class while no stop is requested. -/
structure PopFinds {Q : QueueCode T W} (F : Fifo N Q) where
  /-- The places that a pop comes to without a stop request. -/
  calm : Q.PopPc → Bool
  /-- The pop may wait for a wake-up. -/
  asleep : Q.PopPc → Bool
  /-- The pop has not passed the empty test of the try that will find an item. -/
  seeking : Q.PopPc → Bool
  work : Q.PopPc → Nat
  bound : Nat
  work_le : ∀ c, work c ≤ bound
  push_stop : ∀ {p m b st n}, (Q.pushCode p).tso m b st = some n → n.obj = st
  calm_call : calm Q.pop = true
  calm_step : ∀ {c m b st n}, (Q.popCode c).tso m b st = some n → st.Quiet → calm c = true →
    calm n.pc = true ∧ n.obj.Quiet
  calm_wake : ∀ {c}, calm c = true → calm (Q.wake c) = true
  wake_awake : ∀ {c}, asleep c = false → Q.wake c = c
  seeking_retires : ∀ {c q}, F.inPop c = some q → seeking c = true → q.retires = []
  seeking_load : ∀ {c r}, F.inPop c = some (.loadWrite r) → seeking c = true
  step : ∀ {c m b st n}, (Q.popCode c).tso m b st = some n → st.Quiet → calm c = true →
    asleep c = false → (∀ r, F.inPop c = some (.loadWrite r) → r ≠ Instr.view m b .write_) →
    F.inPop n.pc ≠ some .fault → PopCloser asleep seeking work c b n
  enabled : ∀ {c}, calm c = true → asleep c = false → F.inPop c ≠ some .fault → work c ≠ 0 →
    ∀ m st, ∃ n, (Q.popCode c).tso m [] st = some n
  found : ∀ {c}, calm c = true → asleep c = false → F.inPop c ≠ some .fault → work c = 0 →
    ∃ item, Q.popRet c = some (some item)

/-! ### `SpinSpscQueue` -/

namespace SpinPopPc

def calm : SpinPopPc T W → Bool
  | .done none => false
  | _ => true

def seeking : SpinPopPc T W → Bool
  | .queue q => q.seeking
  | .checkStop => true
  | .done _ => false

def work : SpinPopPc T W → Nat
  | .queue (.done none) => 10
  | .queue q => q.work + 1
  | .checkStop => 9
  | .done _ => 0

theorem work_queue {q : PopPc T W} (h : q ≠ .done none) : (queue q).work = q.work + 1 := by
  cases q with
  | done res =>
      cases res with
      | none => exact absurd rfl h
      | some item => rfl
  | _ => rfl

theorem calm_step {c : SpinPopPc T W} {n : Instr.NextTso Loc (Cell T W) StopState (SpinPopPc T W)}
    (h : (c.code N).tso m b st = some n) (hst : st.Quiet) : n.pc.calm = true ∧ n.obj.Quiet := by
  cases c with
  | checkStop =>
      simp only [code, Instr.tso_lib, Option.some.injEq] at h
      subst h
      simp [hst.1, calm, hst]
  | queue q =>
      rcases PopPc.call_tso h with ⟨res, rfl, rfl⟩ | ⟨n', hn', rfl⟩
      · cases res <;> exact ⟨rfl, hst⟩
      · exact ⟨rfl, by rw [PopPc.tso_obj hn']; exact hst⟩
  | done res => simp [code] at h

theorem closer {c : SpinPopPc T W} {n : Instr.NextTso Loc (Cell T W) StopState (SpinPopPc T W)}
    (h : (c.code N).tso m b st = some n) (hst : st.Quiet)
    (hne : ∀ r, c.inPop = some (.loadWrite r) → r ≠ Instr.view m b .write_)
    (hfault : n.pc.inPop ≠ some .fault) :
    PopCloser (fun _ => false) seeking work c b n := by
  cases c with
  | checkStop =>
      simp only [code, Instr.tso_lib, Option.some.injEq] at h
      subst h
      refine ⟨rfl, fun _ => rfl, Nat.le_refl _, ?_⟩
      simp [hst.1, work, PopPc.work]
  | queue q =>
      rcases PopPc.call_tso h with ⟨res, rfl, rfl⟩ | ⟨n', hn', rfl⟩
      · cases res with
        | none => exact ⟨rfl, fun _ => rfl, Nat.le_refl _, by simp [work]⟩
        | some item => exact ⟨rfl, by simp [seeking], Nat.le_refl _, by simp [work, PopPc.work]⟩
      · have hnearer := PopPc.nearer hn' (fun r hr => hne r (by rw [hr]; rfl))
          (fun hf => hfault (by rw [← hf]; rfl))
        have hq : q ≠ .done none := by
          rintro rfl
          simp [PopPc.code] at hn'
        have hwork := hnearer.work
        refine ⟨rfl, hnearer.seeking, hnearer.buffered, ?_⟩
        rw [work_queue hq, work_queue hnearer.found]
        show n'.pc.work + 1 + n'.buf.length < _
        omega
  | done res => simp [code] at h

end SpinPopPc

def spinFinds (N : Capacity W) :
    PopFinds (spinFifo N : Fifo N (SpinSpscQueue N : QueueCode T W)) where
  calm := SpinPopPc.calm
  asleep _ := false
  seeking := SpinPopPc.seeking
  work := SpinPopPc.work
  bound := 10
  work_le c := by
    cases c with
    | queue q =>
        cases q with
        | done res => cases res <;> simp [SpinPopPc.work, PopPc.work]
        | _ => simp [SpinPopPc.work, PopPc.work]
    | _ => simp [SpinPopPc.work]
  push_stop h := PushPc.tso_obj h
  calm_call := rfl
  calm_step h hst _ := SpinPopPc.calm_step h hst
  calm_wake h := h
  wake_awake _ := rfl
  seeking_retires := by
    intro c q hq hseeking
    cases c with
    | queue p =>
        obtain rfl : p = q := Option.some.inj hq
        exact PopPc.retires_of_seeking hseeking
    | _ => simp [spinFifo, SpinPopPc.inPop] at hq
  seeking_load := by
    intro c r hr
    cases c with
    | queue p =>
        obtain rfl : p = .loadWrite r := Option.some.inj hr
        rfl
    | _ => simp [spinFifo, SpinPopPc.inPop] at hr
  step h hst _ _ hne hfault := SpinPopPc.closer h hst hne hfault
  enabled := by
    intro c hcalm _ hfault hwork m st
    cases c with
    | checkStop => exact ⟨_, rfl⟩
    | queue q => exact PopPc.tso_call_enabled (fun hf => hfault (by rw [hf]; rfl)) m [] st
    | done res => exact absurd rfl hwork
  found := by
    intro c hcalm _ hfault hwork
    cases c with
    | done res =>
        cases res with
        | none => simp [SpinPopPc.calm] at hcalm
        | some item => exact ⟨item, rfl⟩
    | checkStop => simp [SpinPopPc.work] at hwork
    | queue q =>
        cases q with
        | done res => cases res <;> simp [SpinPopPc.work] at hwork
        | _ => simp [SpinPopPc.work] at hwork

/-! ### `WaitableSpscQueue` -/

theorem WaitPushPc.tso_obj {p : WaitPushPc T W}
    {n : Instr.NextTso Loc (Cell T W) StopState (WaitPushPc T W)}
    (h : (p.code N).tso m b st = some n) : n.obj = st := by
  cases WaitPushPc.steps_of_tso h with
  | access q n' hn' => exact PushPc.tso_obj hn'
  | _ => rfl

namespace WaitPopPc

/-- Without a stop request no callback runs inside `pop`, and `pop` does not give up. -/
def calm : WaitPopPc T W → Bool
  | .callbackStore => false
  | .callbackNotify => false
  | .deregisterCallback none => false
  | .done none => false
  | _ => true

def seeking : WaitPopPc T W → Bool
  | .registerCallback => true
  | .checkStop => true
  | .firstPop q => q.seeking
  | .storeTrue => true
  | .secondPop q => q.seeking
  | _ => false

def work : WaitPopPc T W → Nat
  | .firstPop (.done none) => 13
  | .storeTrue => 12
  | .registerCallback => 11
  | .checkStop => 10
  | .secondPop q => q.work + 4
  | .storeFalse _ => 3
  | .firstPop q => q.work + 2
  | .deregisterCallback _ => 1
  | _ => 0

theorem work_firstPop {q : PopPc T W} (h : q ≠ .done none) : (firstPop q).work = q.work + 2 := by
  cases q with
  | done res =>
      cases res with
      | none => exact absurd rfl h
      | some item => rfl
  | _ => rfl

theorem not_committed {q : PopPc T W} (h : q ≠ .done none) : (secondPop q).committed = false := by
  cases q with
  | done res =>
      cases res with
      | none => exact absurd rfl h
      | some item => rfl
  | _ => rfl

theorem calm_step {c : WaitPopPc T W} {n : Instr.NextTso Loc (Cell T W) StopState (WaitPopPc T W)}
    (h : (c.code N).tso m b st = some n) (hst : st.Quiet) (hcalm : c.calm = true) :
    n.pc.calm = true ∧ n.obj.Quiet := by
  cases c with
  | registerCallback =>
      simp only [code, Instr.tso_lib, Option.some.injEq] at h
      subst h
      simp [hst.1, calm, StopState.Quiet]
  | checkStop =>
      simp only [code, Instr.tso_lib, Option.some.injEq] at h
      subst h
      simp [hst.1, calm, hst]
  | firstPop q =>
      rcases PopPc.call_tso h with ⟨res, rfl, rfl⟩ | ⟨n', hn', rfl⟩
      · cases res <;> exact ⟨rfl, hst⟩
      · exact ⟨rfl, by rw [PopPc.tso_obj hn']; exact hst⟩
  | storeTrue =>
      obtain ⟨-, rfl⟩ := Instr.tso_store_seqCst h
      exact ⟨rfl, hst⟩
  | secondPop q =>
      rcases PopPc.call_tso h with ⟨res, rfl, rfl⟩ | ⟨n', hn', rfl⟩
      · cases res <;> exact ⟨rfl, hst⟩
      · exact ⟨rfl, by rw [PopPc.tso_obj hn']; exact hst⟩
  | storeFalse item =>
      rw [code, Instr.tso_store (by simp), Option.some.injEq] at h
      subst h
      exact ⟨rfl, hst⟩
  | wait =>
      simp only [code, Instr.tso_load, Option.some.injEq] at h
      subst h
      refine ⟨?_, hst⟩
      by_cases hflag : Instr.view m b .isSleeping_ = true <;> simp [hflag, calm]
  | deregisterCallback res =>
      simp only [code, Instr.tso_lib, Option.some.injEq] at h
      subst h
      rw [if_neg hst.2]
      cases res with
      | none => simp [calm] at hcalm
      | some item => exact ⟨rfl, hst.1, by simp⟩
  | callbackStore => simp [calm] at hcalm
  | callbackNotify => simp [calm] at hcalm
  | blocked => simp [code] at h
  | done res => simp [code] at h

theorem closer {c : WaitPopPc T W} {n : Instr.NextTso Loc (Cell T W) StopState (WaitPopPc T W)}
    (h : (c.code N).tso m b st = some n) (hst : st.Quiet) (hcalm : c.calm = true)
    (hawake : c.committed = false)
    (hne : ∀ r, c.inPop = some (.loadWrite r) → r ≠ Instr.view m b .write_)
    (hfault : n.pc.inPop ≠ some .fault) : PopCloser committed seeking work c b n := by
  cases c with
  | registerCallback =>
      simp only [code, Instr.tso_lib, Option.some.injEq] at h
      subst h
      refine ⟨?_, fun _ => rfl, Nat.le_refl _, ?_⟩ <;> simp [hst.1, committed, work]
  | checkStop =>
      simp only [code, Instr.tso_lib, Option.some.injEq] at h
      subst h
      refine ⟨?_, fun _ => rfl, Nat.le_refl _, ?_⟩ <;> simp [hst.1, committed, work, PopPc.work]
  | firstPop q =>
      rcases PopPc.call_tso h with ⟨res, rfl, rfl⟩ | ⟨n', hn', rfl⟩
      · cases res with
        | none => exact ⟨rfl, fun _ => rfl, Nat.le_refl _, by simp [work]⟩
        | some item => exact ⟨rfl, by simp [seeking], Nat.le_refl _, by simp [work, PopPc.work]⟩
      · have hnearer := PopPc.nearer hn' (fun r hr => hne r (by rw [hr]; rfl))
          (fun hf => hfault (by rw [← hf]; rfl))
        have hq : q ≠ .done none := by
          rintro rfl
          simp [PopPc.code] at hn'
        have hwork := hnearer.work
        refine ⟨rfl, hnearer.seeking, hnearer.buffered, ?_⟩
        rw [work_firstPop hq, work_firstPop hnearer.found]
        show n'.pc.work + 2 + n'.buf.length < _
        omega
  | storeTrue =>
      obtain ⟨rfl, rfl⟩ := Instr.tso_store_seqCst h
      exact ⟨rfl, fun _ => rfl, Nat.le_refl _, by simp [work, PopPc.work]⟩
  | secondPop q =>
      rcases PopPc.call_tso h with ⟨res, rfl, rfl⟩ | ⟨n', hn', rfl⟩
      · cases res with
        | none => simp [committed] at hawake
        | some item => exact ⟨rfl, by simp [seeking], Nat.le_refl _, by simp [work, PopPc.work]⟩
      · have hnearer := PopPc.nearer hn' (fun r hr => hne r (by rw [hr]; rfl))
          (fun hf => hfault (by rw [← hf]; rfl))
        have hwork := hnearer.work
        refine ⟨not_committed hnearer.found, hnearer.seeking, hnearer.buffered, ?_⟩
        show n'.pc.work + 4 + n'.buf.length < q.work + 4 + b.length
        omega
  | storeFalse item =>
      rw [code, Instr.tso_store (by simp), Option.some.injEq] at h
      subst h
      refine ⟨rfl, by simp [seeking], by simp, ?_⟩
      simp only [work, List.length_append, List.length_singleton]
      omega
  | deregisterCallback res =>
      simp only [code, Instr.tso_lib, Option.some.injEq] at h
      subst h
      rw [if_neg hst.2]
      exact ⟨rfl, by simp [seeking], Nat.le_refl _, by simp [work]⟩
  | callbackStore => simp [calm] at hcalm
  | callbackNotify => simp [calm] at hcalm
  | wait => simp [committed] at hawake
  | blocked => simp [code] at h
  | done res => simp [code] at h

end WaitPopPc

def waitableFinds (N : Capacity W) :
    PopFinds (waitableFifo N : Fifo N (WaitableSpscQueue N : QueueCode T W)) where
  calm := WaitPopPc.calm
  asleep := WaitPopPc.committed
  seeking := WaitPopPc.seeking
  work := WaitPopPc.work
  bound := 13
  work_le c := by
    cases c with
    | firstPop q =>
        cases q with
        | done res => cases res <;> simp [WaitPopPc.work, PopPc.work]
        | _ => simp [WaitPopPc.work, PopPc.work]
    | secondPop q => cases q <;> simp [WaitPopPc.work, PopPc.work]
    | _ => simp [WaitPopPc.work]
  push_stop h := WaitPushPc.tso_obj h
  calm_call := rfl
  calm_step h hst hcalm := WaitPopPc.calm_step h hst hcalm
  calm_wake := by
    intro c hcalm
    cases c with
    | blocked => rfl
    | _ => exact hcalm
  wake_awake := by
    intro c hawake
    cases c with
    | blocked => simp [WaitPopPc.committed] at hawake
    | _ => rfl
  seeking_retires := by
    intro c q hq hseeking
    cases c with
    | firstPop p =>
        obtain rfl : p = q := Option.some.inj hq
        exact PopPc.retires_of_seeking hseeking
    | secondPop p =>
        obtain rfl : p = q := Option.some.inj hq
        exact PopPc.retires_of_seeking hseeking
    | _ => simp [waitableFifo, WaitPopPc.inPop] at hq
  seeking_load := by
    intro c r hr
    cases c with
    | firstPop p =>
        obtain rfl : p = .loadWrite r := Option.some.inj hr
        rfl
    | secondPop p =>
        obtain rfl : p = .loadWrite r := Option.some.inj hr
        rfl
    | _ => simp [waitableFifo, WaitPopPc.inPop] at hr
  step h hst hcalm hawake hne hfault := WaitPopPc.closer h hst hcalm hawake hne hfault
  enabled := by
    intro c hcalm hawake hfault hwork m st
    cases c with
    | firstPop q => exact PopPc.tso_call_enabled (fun hf => hfault (by rw [hf]; rfl)) m [] st
    | secondPop q => exact PopPc.tso_call_enabled (fun hf => hfault (by rw [hf]; rfl)) m [] st
    | blocked => simp [WaitPopPc.committed] at hawake
    | done res => exact absurd rfl hwork
    | _ => exact ⟨_, rfl⟩
  found := by
    intro c hcalm hawake hfault hwork
    cases c with
    | done res =>
        cases res with
        | none => simp [WaitPopPc.calm] at hcalm
        | some item => exact ⟨item, rfl⟩
    | firstPop q =>
        cases q with
        | done res => cases res <;> simp [WaitPopPc.work] at hwork
        | _ => simp [WaitPopPc.work] at hwork
    | callbackStore => simp [WaitPopPc.calm] at hcalm
    | callbackNotify => simp [WaitPopPc.calm] at hcalm
    | wait => simp [WaitPopPc.committed] at hawake
    | blocked => simp [WaitPopPc.committed] at hawake
    | _ => simp [WaitPopPc.work] at hwork

namespace StoreBuffers

variable {Q : QueueCode T W} {F : BufferedFifo N Q} (K : PopFinds F.toFifo) {s s' : State Q}
  {e : Event T}

/-! ### A visible item -/

/-- The count that memory has of the items put in is ahead of the pop's own count. -/
def Visible (s : State Q) : Prop := s.mem .write_ ≠ Instr.view s.mem s.consBuf .read_

instance (s : State Q) : Decidable (Visible s) :=
  inferInstanceAs (Decidable (s.mem .write_ ≠ Instr.view s.mem s.consBuf .read_))

theorem Behind.visible_iff {bp bc : Buf T W} {t : StaleCounters.State T W} {fw fr : Nat}
    {taken xs : List T} (h : Behind N m bp bc t fw fr) (hinv : StaleInv N t taken xs) :
    m .write_ ≠ Instr.view m bc .read_ ↔ reads t < fw := by
  have hbtw := h.between hinv
  have hview : Instr.view m bc .read_ = BitVec.ofNat W (reads t) := by
    rw [h.cons_view (by simp) h.prodStores.ne_read]
    exact hinv.readValues.last
  rw [hview, h.written]
  constructor
  · intro hne
    refine Nat.lt_of_le_of_ne hbtw.seen ?_
    rintro rfl
    exact hne rfl
  · intro hlt heq
    have hfull := hbtw.full
    have hread := hbtw.read
    have hwritten := hbtw.written
    have hsub := StaleCounters.toNat_sub (N := N) (Nat.le_of_lt hlt) (by omega)
    rw [heq, BitVec.sub_self, BitVec.toNat_zero] at hsub
    omega

/-- The steps of the pop's thread, and the flushes of its buffer. -/
def isPop : Event T → Bool
  | .pop => true
  | .flushCons => true
  | _ => false

/-- A pop that is awake is on its way to an item. -/
structure Seeks (s : State Q) : Prop where
  quiet : s.stop.Quiet
  awake : ∃ c, s.cons = some c ∧ K.calm c = true ∧ K.asleep c = false
  ahead : ∃ t fw taken xs, StaleInv N t taken xs ∧ Follows F s t fw ∧
    ∀ c, s.cons = some c → K.seeking c = true → reads t < fw

/-- The steps and flushes the pop has left. -/
def popLeft (s : State Q) : Nat :=
  match s.cons with
  | some c => if K.work c = 0 then 0 else K.work c + s.consBuf.length
  | none => 0

theorem popLeft_le (s : State Q) : popLeft K s ≤ K.bound + s.consBuf.length := by
  unfold popLeft
  split
  · next c hc =>
      have hle := K.work_le c
      split <;> omega
  · exact Nat.zero_le _

variable {K}

/-- A pop never stands at a slot without an object. -/
theorem Seeks.not_fault (h : Seeks K s) {c : Q.PopPc} (hc : s.cons = some c) :
    F.inPop c ≠ some .fault := by
  obtain ⟨t, fw, taken, xs, hinv, hf, -⟩ := h.ahead
  intro hfault
  have hcons := hinv.queue.cons
  rw [hf.cons, hc] at hcons
  rw [show (some c).bind F.inPop = some .fault from hfault] at hcons
  exact hcons

/-- A step that leaves the pop where it is. -/
theorem Seeks.stay (h : Seeks K s) (hs : step s e = some s') (hstop : s'.stop = s.stop)
    (hcons : s'.cons = s.cons) (hout : leaving F s e = []) : Seeks K s' := by
  obtain ⟨t, fw, taken, xs, hinv, hf, hseek⟩ := h.ahead
  obtain ⟨ds, t', fw', xs', -, -, hf', hle, hinv', -⟩ := hf.step hinv hs
  refine ⟨by rw [hstop]; exact h.quiet, by rw [hcons]; exact h.awake,
    t', fw', _, xs', hinv', hf', ?_⟩
  intro c hc hseeking
  have hreads := hinv'.readCount
  rw [hout, List.append_nil, ← hinv.readCount] at hreads
  rw [hcons] at hc
  have hlt := hseek c hc hseeking
  omega

/-- A step of the pop brings it nearer to the item. -/
theorem Seeks.pop (h : Seeks K s) {c : Q.PopPc} (hc : s.cons = some c)
    {n : Instr.NextTso Loc (Cell T W) StopState Q.PopPc}
    (hn : (Q.popCode c).tso s.mem s.consBuf s.stop = some n)
    (hs : step s .pop = some { s with mem := n.mem, consBuf := n.buf, stop := n.obj,
                                      cons := some n.pc }) :
    Seeks K { s with mem := n.mem, consBuf := n.buf, stop := n.obj, cons := some n.pc } ∧
      PopCloser K.asleep K.seeking K.work c s.consBuf n := by
  obtain ⟨c₀, hc₀, hcalm, hawake⟩ := h.awake
  obtain rfl : c₀ = c := Option.some.inj (hc₀.symm.trans hc)
  obtain ⟨t, fw, taken, xs, hinv, hf, hseek⟩ := h.ahead
  obtain ⟨ds, t', fw', xs', -, -, hf', hle, hinv', -⟩ := hf.step hinv hs
  have hne : ∀ r, F.inPop c₀ = some (.loadWrite r) → r ≠ Instr.view s.mem s.consBuf .write_ := by
    intro r hr heq
    obtain ⟨fr, hb⟩ := hf.behind
    have hlt := hseek c₀ hc (K.seeking_load hr)
    have hread := hinv.queue.cons
    rw [hf.cons, hc, show (some c₀).bind F.inPop = some (.loadWrite r) from hr] at hread
    refine (hb.visible_iff hinv).mpr hlt ?_
    calc s.mem .write_
        = Instr.view s.mem s.consBuf .write_ :=
          (Instr.view_of_not_mem s.consBuf hb.consStores.ne_write).symm
      _ = r := heq.symm
      _ = t.mem .read_ := hread
      _ = Instr.view s.mem s.consBuf .read_ :=
          (hb.cons_view (by simp) hb.prodStores.ne_read).symm
  have hfault : F.inPop n.pc ≠ some .fault := by
    intro hfault
    have hcons := hinv'.queue.cons
    rw [hf'.cons, show (some n.pc).bind F.inPop = some .fault from hfault] at hcons
    exact hcons
  have hcloser := K.step hn h.quiet hcalm hawake hne hfault
  obtain ⟨hcalm', hquiet'⟩ := K.calm_step hn h.quiet hcalm
  refine ⟨⟨hquiet', ⟨n.pc, rfl, hcalm', hcloser.awake⟩, t', fw', _, xs', hinv', hf', ?_⟩, hcloser⟩
  intro c' hc' hseeking
  obtain rfl : n.pc = c' := Option.some.inj hc'
  have hseeking₀ := hcloser.seeking hseeking
  have hout : leaving F s .pop = [] := by
    unfold leaving
    rw [hc]
    show ((F.inPop c₀).map PopPc.retires).getD [] = []
    cases hq : F.inPop c₀ with
    | none => rfl
    | some q => exact K.seeking_retires hq hseeking₀
  have hreads := hinv'.readCount
  rw [hout, List.append_nil, ← hinv.readCount] at hreads
  have hlt := hseek c₀ hc hseeking₀
  omega

/-- Every step of the pop counts, and nobody else's step sets it back. -/
theorem Seeks.step (h : Seeks K s) (he : e ≠ .retPop) (hs : step s e = some s') :
    Seeks K s' ∧ popLeft K s' ≤ popLeft K s - (isPop e).toNat := by
  obtain ⟨c, hc, hcalm, hawake⟩ := h.awake
  cases moves_of_step hs with
  | callPush item hp => exact ⟨h.stay hs rfl rfl rfl, Nat.le_refl _⟩
  | callPop hnone => exact absurd (hc.symm.trans hnone) (by simp)
  | push p n hp hn =>
      have hcons : MarketDataQueue.woken n.woken s.cons = s.cons := by
        rw [hc]
        cases n.woken with
        | false => rfl
        | true => exact congrArg some (K.wake_awake hawake)
      refine ⟨h.stay hs (K.push_stop hn) hcons rfl, ?_⟩
      unfold popLeft
      simp only [hcons]
      exact Nat.le_refl _
  | pop c' n hc' hn =>
      obtain ⟨h', hcloser⟩ := h.pop hc' hn hs
      refine ⟨h', ?_⟩
      have hwork := hcloser.work
      have hbuffered := hcloser.buffered
      unfold popLeft
      simp only [hc', isPop, Bool.toNat_true]
      rw [if_neg (show K.work c' ≠ 0 by omega)]
      split <;> omega
  | flushProd en rest hb => exact ⟨h.stay hs rfl rfl rfl, Nat.le_refl _⟩
  | flushCons en rest hb =>
      refine ⟨h.stay hs rfl rfl rfl, ?_⟩
      unfold popLeft
      simp only [hc, hb, isPop, Bool.toNat_true, List.length_cons]
      split <;> omega
  | spurious =>
      have hcons : s.cons.map Q.wake = s.cons := by
        rw [hc]
        exact congrArg some (K.wake_awake hawake)
      refine ⟨h.stay hs rfl hcons rfl, ?_⟩
      unfold popLeft
      simp only [hcons]
      exact Nat.le_refl _
  | retPush p ok hp hr => exact ⟨h.stay hs rfl rfl rfl, Nat.le_refl _⟩
  | retPop c res hc hr => exact absurd rfl he

variable (K)

theorem seeks_progress : Machine.Progress (machine Q) (fun e => e ≠ .retPop) isPop (Seeks K)
    (popLeft K) where
  step h he hs := h.step he hs
  enabled := by
    intro s h hpos
    obtain ⟨c, hc, hcalm, hawake⟩ := h.awake
    have hwork : K.work c ≠ 0 := by
      intro hzero
      unfold popLeft at hpos
      simp only [hc, hzero, if_true] at hpos
      exact Nat.lt_irrefl 0 hpos
    cases hb : s.consBuf with
    | nil =>
        obtain ⟨n, hn⟩ := K.enabled hcalm hawake (h.not_fault hc) hwork s.mem s.stop
        refine ⟨.pop, rfl, by simp, ?_⟩
        show (s.cons.bind (stepPop s)).isSome = true
        rw [hc]
        show (stepPop s c).isSome = true
        unfold stepPop
        rw [hb, hn]
        rfl
    | cons en rest =>
        refine ⟨.flushCons, rfl, by simp, ?_⟩
        show ((Instr.flush s.mem s.consBuf).map _).isSome = true
        rw [hb]
        rfl

/-- Without a stop request a pop is where it can be then. -/
theorem calm_of_exec {es : List (Event T)} (h : (machine Q).Exec es s) :
    s.stop.Quiet ∧ ∀ c, s.cons = some c → K.calm c = true := by
  refine Machine.Exec.induction (P := fun _ s => s.stop.Quiet ∧ ∀ c, s.cons = some c →
    K.calm c = true) ⟨⟨rfl, by simp [machine, StopState.initial]⟩, by simp [machine]⟩ ?_ h
  rintro es s e s' - ⟨hquiet, hcalm⟩ hs
  have hwake : ∀ c, s.cons.map Q.wake = some c → K.calm c = true := by
    intro c hc
    obtain ⟨d, hd, rfl⟩ := Option.map_eq_some_iff.mp hc
    exact K.calm_wake (hcalm d hd)
  cases moves_of_step hs with
  | callPop hc =>
      refine ⟨hquiet, ?_⟩
      intro c hc'
      rw [← Option.some.inj hc']
      exact K.calm_call
  | push p n hp hn =>
      refine ⟨by rw [show n.obj = s.stop from K.push_stop hn]; exact hquiet, ?_⟩
      intro c hc
      cases hw : n.woken with
      | false =>
          rw [hw] at hc
          exact hcalm c hc
      | true =>
          rw [hw] at hc
          exact hwake c hc
  | pop c n hc hn =>
      obtain ⟨hcalm', hquiet'⟩ := K.calm_step hn hquiet (hcalm c hc)
      refine ⟨hquiet', ?_⟩
      intro c' hc'
      rw [← Option.some.inj hc']
      exact hcalm'
  | spurious => exact ⟨hquiet, hwake⟩
  | retPop c res hc hr => exact ⟨hquiet, by simp⟩
  | _ => exact ⟨hquiet, hcalm⟩

/-! ### Main result -/

/-- From every reachable state with a pop in progress that is awake and an item visible to
it, however the run goes on while the pop has not returned: it is about to return an item,
or its thread has made fewer than `bound` steps and flushes, not counting those that were
due before, and can make another. -/
def FindsVisible (Q : QueueCode T W) (asleep : Q.PopPc → Bool) (bound : Nat) : Prop :=
  ∀ es s c, (machine Q).Exec es s → s.cons = some c → asleep c = false → Visible s →
    ∀ fs s', (machine Q).run s fs = some s' → (∀ e ∈ fs, e ≠ .retPop) →
      (∃ item, s'.cons.bind Q.popRet = some (some item)) ∨
        (fs.countP isPop < bound + s.consBuf.length ∧
          ∃ e, isPop e = true ∧ (step s' e).isSome = true)

theorem findsVisible : FindsVisible Q K.asleep K.bound := by
  intro es s c hex hc hawake hvisible fs s' hrun hall
  obtain ⟨hquiet, hcalm⟩ := calm_of_exec K hex
  obtain ⟨ds, t, fw, taken, xs, -, hinv, -, hf, -, -⟩ := follows_of_exec (F := F) hex
  have hseeks : Seeks K s := by
    refine ⟨hquiet, ⟨c, hc, hcalm c hc, hawake⟩, t, fw, taken, xs, hinv, hf, ?_⟩
    intro c' _ _
    obtain ⟨fr, hb⟩ := hf.behind
    exact (hb.visible_iff hinv).mp hvisible
  obtain ⟨hseeks', hle⟩ := (seeks_progress K).run hseeks hall hrun
  obtain ⟨c', hc', hcalm', hawake'⟩ := hseeks'.awake
  by_cases hzero : K.work c' = 0
  · obtain ⟨item, hitem⟩ := K.found hcalm' hawake' (hseeks'.not_fault hc') hzero
    refine Or.inl ⟨item, ?_⟩
    rw [hc']
    exact hitem
  · have hpos : 0 < popLeft K s' := by
      unfold popLeft
      simp only [hc', if_neg hzero]
      omega
    obtain ⟨e, hmine, -, hsome⟩ := (seeks_progress K).enabled hseeks' hpos
    have hbound := popLeft_le K s
    exact Or.inr ⟨by omega, e, hmine, hsome⟩

/--
**A pop finds what is visible to it**, with `SpinSpscQueue` always, and with
`WaitableSpscQueue` unless its second try has failed already.
-/
theorem visible_item_found (N : Capacity W) :
    FindsVisible (SpinSpscQueue N : QueueCode T W) (fun _ => false) 10 ∧
      FindsVisible (WaitableSpscQueue N : QueueCode T W) WaitPopPc.committed 13 :=
  ⟨findsVisible (F := spinBuffered N) (spinFinds N),
    findsVisible (F := waitableBuffered N) (waitableFinds N)⟩

/-- The item becomes visible when the first try of the pop has failed. -/
def seenLate : List (Event Nat) := tryOnce ++ pushItem ++ [.flushProd, .flushProd]

/-- The pop announces that it will sleep and tries again. -/
def secondTry : List (Event Nat) := List.replicate 9 .pop ++ List.replicate 3 .flushCons

theorem seenLate_goes : ((machine (WaitableSpscQueue slots128 : QueueCode Nat 64)).run
    (machine (WaitableSpscQueue slots128 : QueueCode Nat 64)).init seenLate).isSome = true := by
  decide +kernel

theorem secondTry_goes : ((machine (WaitableSpscQueue slots128 : QueueCode Nat 64)).run
    ((machine (WaitableSpscQueue slots128 : QueueCode Nat 64)).final seenLate seenLate_goes)
    secondTry).isSome = true := by
  decide +kernel

theorem visible_item_found_seenLate :
    ∃ s s', (machine (WaitableSpscQueue slots128 : QueueCode Nat 64)).Exec seenLate s ∧
      Visible s ∧ (machine (WaitableSpscQueue slots128 : QueueCode Nat 64)).run s secondTry =
        some s' ∧ ∃ item, s'.cons.bind WaitPopPc.ret = some (some item) := by
  have hvisible : Visible ((machine (WaitableSpscQueue slots128 : QueueCode Nat 64)).final seenLate
      seenLate_goes) := by
    decide +kernel
  refine ⟨_, _, Machine.exec_final seenLate_goes, hvisible, (Option.some_get secondTry_goes).symm,
    ?_⟩
  have h := (visible_item_found slots128).2 seenLate _ .storeTrue
    (Machine.exec_final seenLate_goes) rfl rfl hvisible secondTry _
    (Option.some_get secondTry_goes).symm (by simp [secondTry])
  rcases h with hitem | ⟨-, e, hmine, hsome⟩
  · exact hitem
  · -- nothing is left to do, so the pop has returned
    cases e with
    | pop => exact absurd hsome (by decide +kernel)
    | flushCons => exact absurd hsome (by decide +kernel)
    | _ => simp [isPop] at hmine

end StoreBuffers

end MarketData
