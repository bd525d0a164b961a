/-
What a step of a queue's users can do.

`Moves` lists the steps of `MarketDataQueue.machine` with their guards, and `Steps`
those of the two operations of `WaitableSpscQueue`, so that an invariant is proved
by one case analysis and never by unfolding `step` or `code`.
-/
import MarketData.Proofs.CustomSpscQueue
import MarketData.Utils.SpinSpscQueue
import MarketData.Utils.WaitableSpscQueue

namespace MarketData

open Lib

variable {T : Type} {W : Nat} {N : Capacity W}

namespace MarketDataQueue

variable {Q : QueueCode T W}

/-- The steps of the machine, one constructor for each event. -/
inductive Moves (s : State Q) : Event T → State Q → Prop
  | callPush (item : T) (h : s.prod = none) :
      Moves s (.callPush item) { s with prod := some (Q.push item) }
  | callPop (h : s.cons = none) : Moves s .callPop { s with cons := some Q.pop }
  | callRequestStop (h : s.stopper = none) :
      Moves s .callRequestStop { s with stopper := some .request }
  | push (p : Q.PushPc) (n) (h : s.prod = some p)
      (hn : (Q.pushCode p).sc s.mem s.stop = some n) :
      Moves s .push { s with mem := n.mem, stop := n.obj, prod := some n.pc,
                             cons := woken n.woken s.cons }
  | pop (c : Q.PopPc) (n) (h : s.cons = some c)
      (hn : (Q.popCode c).sc s.mem s.stop = some n) :
      Moves s .pop { s with mem := n.mem, stop := n.obj, cons := some n.pc }
  | requestStop (p : StopPc) (n) (h : s.stopper = some p)
      (hn : p.code.sc s.mem s.stop = some n) :
      Moves s .requestStop { s with mem := n.mem, stop := n.obj, stopper := some n.pc,
                                    cons := woken n.woken s.cons }
  | spurious : Moves s .spurious { s with cons := s.cons.map Q.wake }
  | retPush (p : Q.PushPc) (ok : Bool) (h : s.prod = some p) (hr : Q.pushRet p = some ok) :
      Moves s .retPush { s with prod := none }
  | retPop (c : Q.PopPc) (res : Option T) (h : s.cons = some c) (hr : Q.popRet c = some res) :
      Moves s .retPop { s with cons := none }

theorem moves_of_step {s s' : State Q} {e : Event T} (h : step s e = some s') : Moves s e s' := by
  cases e with
  | callPush item =>
      simp only [step] at h
      split at h <;> simp only [Option.some.injEq, reduceCtorEq] at h
      rename_i hidle
      subst h
      exact Moves.callPush item hidle
  | callPop =>
      simp only [step] at h
      split at h <;> simp only [Option.some.injEq, reduceCtorEq] at h
      rename_i hidle
      subst h
      exact Moves.callPop hidle
  | callRequestStop =>
      simp only [step] at h
      split at h <;> simp only [Option.some.injEq, reduceCtorEq] at h
      rename_i hidle
      subst h
      exact Moves.callRequestStop hidle
  | push =>
      obtain ⟨p, hp, hstep⟩ := Option.bind_eq_some_iff.mp h
      obtain ⟨n, hn, rfl⟩ := Option.map_eq_some_iff.mp hstep
      exact Moves.push p n hp hn
  | pop =>
      obtain ⟨c, hc, hstep⟩ := Option.bind_eq_some_iff.mp h
      obtain ⟨n, hn, rfl⟩ := Option.map_eq_some_iff.mp hstep
      exact Moves.pop c n hc hn
  | requestStop =>
      obtain ⟨p, hp, hstep⟩ := Option.bind_eq_some_iff.mp h
      obtain ⟨n, hn, rfl⟩ := Option.map_eq_some_iff.mp hstep
      exact Moves.requestStop p n hp hn
  | spurious =>
      simp only [step, Option.some.injEq] at h
      subst h
      exact Moves.spurious
  | retPush =>
      simp only [step] at h
      split at h <;> simp only [Option.some.injEq, reduceCtorEq] at h
      rename_i ok hret
      obtain ⟨p, hp, hr⟩ := Option.bind_eq_some_iff.mp hret
      subst h
      exact Moves.retPush p ok hp hr
  | retPop =>
      simp only [step] at h
      split at h <;> simp only [Option.some.injEq, reduceCtorEq] at h
      rename_i res hret
      obtain ⟨c, hc, hr⟩ := Option.bind_eq_some_iff.mp hret
      subst h
      exact Moves.retPop c res hc hr

theorem Moves.step_eq {s s' : State Q} {e : Event T} (h : Moves s e s') : step s e = some s' := by
  cases h with
  | callPush item h => simp only [step, h]
  | callPop h => simp only [step, h]
  | callRequestStop h => simp only [step, h]
  | push p n h hn => simp only [step, h, Option.bind_some, stepPush, hn, Option.map_some]
  | pop c n h hn => simp only [step, h, Option.bind_some, stepPop, hn, Option.map_some]
  | requestStop p n h hn => simp only [step, h, Option.bind_some, stepStop, hn, Option.map_some]
  | spurious => rfl
  | retPush p ok h hr => simp only [step, h, Option.bind_some, hr]
  | retPop c res h hr => simp only [step, h, Option.bind_some, hr]

end MarketDataQueue

/-! ### The operations of `WaitableSpscQueue` -/

/-- The steps of a waitable push in memory `m`. -/
inductive WaitPushPc.Steps (N : Capacity W) (m : Mem T W) (st : StopState) :
    WaitPushPc T W → Instr.Next Loc (Cell T W) StopState (WaitPushPc T W) → Prop
  | access (p : PushPc T W) (n : Instr.Next Loc (Cell T W) StopState (PushPc T W))
      (h : (p.code N).sc m st = some n) :
      Steps N m st (.queue p) { mem := n.mem, obj := st, pc := .queue n.pc }
  | accepted (item : T) :
      Steps N m st (.queue (.done item true)) { mem := m, obj := st, pc := .loadSleeping item }
  | refused (item : T) :
      Steps N m st (.queue (.done item false)) { mem := m, obj := st, pc := .done item false }
  | awake (item : T) (h : m .isSleeping_ = false) :
      Steps N m st (.loadSleeping item) { mem := m, obj := st, pc := .done item true }
  | asleep (item : T) (h : m .isSleeping_ = true) :
      Steps N m st (.loadSleeping item) { mem := m, obj := st, pc := .storeSleeping item }
  | storeSleeping (item : T) :
      Steps N m st (.storeSleeping item)
        { mem := Function.update m .isSleeping_ false, obj := st, pc := .notify item }
  | notify (item : T) :
      Steps N m st (.notify item) { mem := m, obj := st, pc := .done item true, woken := true }

theorem WaitPushPc.steps_of_sc {m : Mem T W} {st : StopState} {p : WaitPushPc T W}
    {n : Instr.Next Loc (Cell T W) StopState (WaitPushPc T W)}
    (h : (p.code N).sc m st = some n) : Steps N m st p n := by
  cases p with
  | queue p =>
      rcases PushPc.call_cases h with ⟨item, ok, rfl, rfl⟩ | ⟨n', hn', rfl⟩
      · cases ok
        · exact Steps.refused item
        · exact Steps.accepted item
      · exact Steps.access p n' hn'
  | loadSleeping item =>
      simp only [WaitPushPc.code, Instr.sc_load, Option.some.injEq] at h
      subst h
      by_cases hflag : m .isSleeping_ = true
      · rw [if_pos hflag]
        exact Steps.asleep item hflag
      · rw [if_neg hflag]
        exact Steps.awake item (by simpa using hflag)
  | storeSleeping item =>
      simp only [WaitPushPc.code, Instr.sc_store, Option.some.injEq] at h
      subst h
      exact Steps.storeSleeping item
  | notify item =>
      simp only [WaitPushPc.code, Instr.sc_notify, Option.some.injEq] at h
      subst h
      exact Steps.notify item
  | done item ok => simp [WaitPushPc.code] at h

/-- The steps of a waitable pop in memory `m` under the stop state `st`. -/
inductive WaitPopPc.Steps (N : Capacity W) (m : Mem T W) (st : StopState) :
    WaitPopPc T W → Instr.Next Loc (Cell T W) StopState (WaitPopPc T W) → Prop
  | register (h : st.requested = false) :
      Steps N m st .registerCallback
        { mem := m, obj := { st with callback := .registered }, pc := .checkStop }
  | registerLate (h : st.requested = true) :
      Steps N m st .registerCallback { mem := m, obj := st, pc := .callbackStore }
  | callbackStore :
      Steps N m st .callbackStore
        { mem := Function.update m .isSleeping_ false, obj := st, pc := .callbackNotify }
  | callbackNotify :
      Steps N m st .callbackNotify { mem := m, obj := st, pc := .checkStop, woken := true }
  | proceed (h : st.requested = false) :
      Steps N m st .checkStop { mem := m, obj := st, pc := .firstPop .loadRead }
  | quit (h : st.requested = true) :
      Steps N m st .checkStop { mem := m, obj := st, pc := .deregisterCallback none }
  | firstAccess (p : PopPc T W) (n : Instr.Next Loc (Cell T W) StopState (PopPc T W))
      (h : (p.code N).sc m st = some n) :
      Steps N m st (.firstPop p) { mem := n.mem, obj := st, pc := .firstPop n.pc }
  | firstTook (item : T) :
      Steps N m st (.firstPop (.done (some item)))
        { mem := m, obj := st, pc := .deregisterCallback (some item) }
  | firstEmpty :
      Steps N m st (.firstPop (.done none)) { mem := m, obj := st, pc := .storeTrue }
  | storeTrue :
      Steps N m st .storeTrue
        { mem := Function.update m .isSleeping_ true, obj := st, pc := .secondPop .loadRead }
  | secondAccess (p : PopPc T W) (n : Instr.Next Loc (Cell T W) StopState (PopPc T W))
      (h : (p.code N).sc m st = some n) :
      Steps N m st (.secondPop p) { mem := n.mem, obj := st, pc := .secondPop n.pc }
  | secondTook (item : T) :
      Steps N m st (.secondPop (.done (some item)))
        { mem := m, obj := st, pc := .storeFalse item }
  | secondEmpty :
      Steps N m st (.secondPop (.done none)) { mem := m, obj := st, pc := .wait }
  | storeFalse (item : T) :
      Steps N m st (.storeFalse item)
        { mem := Function.update m .isSleeping_ false, obj := st,
          pc := .deregisterCallback (some item) }
  | block (h : m .isSleeping_ = true) :
      Steps N m st .wait { mem := m, obj := st, pc := .blocked }
  | unblock (h : m .isSleeping_ = false) :
      Steps N m st .wait { mem := m, obj := st, pc := .checkStop }
  | deregisterWait (res : Option T) (h : st.callback = .running) :
      Steps N m st (.deregisterCallback res) { mem := m, obj := st, pc := .deregisterCallback res }
  | deregister (res : Option T) (h : st.callback ≠ .running) :
      Steps N m st (.deregisterCallback res)
        { mem := m, obj := { st with callback := .none }, pc := .done res }

theorem WaitPopPc.steps_of_sc {m : Mem T W} {st : StopState} {c : WaitPopPc T W}
    {n : Instr.Next Loc (Cell T W) StopState (WaitPopPc T W)}
    (h : (c.code N).sc m st = some n) : Steps N m st c n := by
  cases c with
  | registerCallback =>
      simp only [WaitPopPc.code, Instr.sc_lib, Option.some.injEq] at h
      subst h
      by_cases hreq : st.requested = true
      · rw [if_pos hreq]
        exact Steps.registerLate hreq
      · rw [if_neg hreq]
        exact Steps.register (by simpa using hreq)
  | callbackStore =>
      simp only [WaitPopPc.code, Instr.sc_store, Option.some.injEq] at h
      subst h
      exact Steps.callbackStore
  | callbackNotify =>
      simp only [WaitPopPc.code, Instr.sc_notify, Option.some.injEq] at h
      subst h
      exact Steps.callbackNotify
  | checkStop =>
      simp only [WaitPopPc.code, Instr.sc_lib, Option.some.injEq] at h
      subst h
      by_cases hreq : st.requested = true
      · rw [if_pos hreq]
        exact Steps.quit hreq
      · rw [if_neg hreq]
        exact Steps.proceed (by simpa using hreq)
  | firstPop p =>
      rcases PopPc.call_cases h with ⟨res, rfl, rfl⟩ | ⟨n', hn', rfl⟩
      · cases res with
        | none => exact Steps.firstEmpty
        | some item => exact Steps.firstTook item
      · exact Steps.firstAccess p n' hn'
  | storeTrue =>
      simp only [WaitPopPc.code, Instr.sc_store, Option.some.injEq] at h
      subst h
      exact Steps.storeTrue
  | secondPop p =>
      rcases PopPc.call_cases h with ⟨res, rfl, rfl⟩ | ⟨n', hn', rfl⟩
      · cases res with
        | none => exact Steps.secondEmpty
        | some item => exact Steps.secondTook item
      · exact Steps.secondAccess p n' hn'
  | storeFalse item =>
      simp only [WaitPopPc.code, Instr.sc_store, Option.some.injEq] at h
      subst h
      exact Steps.storeFalse item
  | wait =>
      simp only [WaitPopPc.code, Instr.sc_load, Option.some.injEq] at h
      subst h
      by_cases hflag : m .isSleeping_ = true
      · rw [if_pos hflag]
        exact Steps.block hflag
      · rw [if_neg hflag]
        exact Steps.unblock (by simpa using hflag)
  | blocked => simp [WaitPopPc.code] at h
  | deregisterCallback res =>
      simp only [WaitPopPc.code, Instr.sc_lib, Option.some.injEq] at h
      subst h
      by_cases hrun : st.callback = .running
      · rw [if_pos hrun]
        exact Steps.deregisterWait res hrun
      · rw [if_neg hrun]
        exact Steps.deregister res hrun
  | done res => simp [WaitPopPc.code] at h

/-- A push leaves the flag as it is or clears it. -/
theorem WaitPushPc.Steps.flag {m : Mem T W} {st : StopState} {p : WaitPushPc T W}
    {n : Instr.Next Loc (Cell T W) StopState (WaitPushPc T W)} (h : Steps N m st p n) :
    m .isSleeping_ = false → n.mem .isSleeping_ = false := by
  intro hm
  cases h with
  | access q n' hn' => rw [(PushPc.frame hn').2.1]; exact hm
  | storeSleeping item => simp
  | _ => exact hm

/-- A push does not touch the stop state. -/
theorem WaitPushPc.Steps.obj {m : Mem T W} {st : StopState} {p : WaitPushPc T W}
    {n : Instr.Next Loc (Cell T W) StopState (WaitPushPc T W)} (h : Steps N m st p n) :
    n.obj = st := by
  cases h <;> rfl

/-- A pop never raises or lowers the stop flag. -/
theorem WaitPopPc.Steps.requested {m : Mem T W} {st : StopState} {c : WaitPopPc T W}
    {n : Instr.Next Loc (Cell T W) StopState (WaitPopPc T W)} (h : Steps N m st c n) :
    n.obj.requested = st.requested := by
  cases h <;> rfl

/-- Whether or not there was a notify, the pop is where it was or where a wake-up took it. -/
theorem MarketDataQueue.exists_of_woken {b : Bool} {c : Option (WaitPopPc T W)} {c' : WaitPopPc T W}
    (h : MarketDataQueue.woken (Q := WaitableSpscQueue N) b c = some c') :
    ∃ d, c = some d ∧ (c' = d ∨ c' = d.wake) := by
  cases b with
  | false => exact ⟨c', h, Or.inl rfl⟩
  | true =>
      obtain ⟨d, hd, hw⟩ := Option.map_eq_some_iff.mp h
      exact ⟨d, hd, Or.inr hw.symm⟩

/-! ### `request_stop` -/

/-- The steps of a stop request in memory `m` under the stop state `st`. -/
inductive StopPc.Steps (m : Mem T W) (st : StopState) :
    StopPc → Instr.Next Loc (Cell T W) StopState StopPc → Prop
  | again (h : st.requested = true) : Steps m st .request { mem := m, obj := st, pc := .done }
  | claim (h : st.requested = false) (hc : st.callback = .registered) :
      Steps m st .request
        { mem := m, obj := { requested := true, callback := .running }, pc := .callbackStore }
  | unheard (h : st.requested = false) (hc : st.callback ≠ .registered) :
      Steps m st .request { mem := m, obj := { st with requested := true }, pc := .done }
  | callbackStore :
      Steps m st .callbackStore
        { mem := Function.update m .isSleeping_ false, obj := st, pc := .callbackNotify }
  | callbackNotify :
      Steps m st .callbackNotify { mem := m, obj := st, pc := .callbackDone, woken := true }
  | callbackDone :
      Steps m st .callbackDone { mem := m, obj := { st with callback := .none }, pc := .done }

theorem StopPc.steps_of_sc {m : Mem T W} {st : StopState} {p : StopPc}
    {n : Instr.Next Loc (Cell T W) StopState StopPc} (h : p.code.sc m st = some n) :
    Steps m st p n := by
  cases p with
  | request =>
      simp only [StopPc.code, Instr.sc_lib, Option.some.injEq] at h
      subst h
      by_cases hreq : st.requested = true
      · rw [if_pos hreq]
        exact Steps.again hreq
      · rw [if_neg hreq]
        have hnot : st.requested = false := by simpa using hreq
        by_cases hreg : st.callback = .registered
        · rw [if_pos hreg]
          exact Steps.claim hnot hreg
        · rw [if_neg hreg]
          exact Steps.unheard hnot hreg
  | callbackStore =>
      simp only [StopPc.code, Instr.sc_store, Option.some.injEq] at h
      subst h
      exact Steps.callbackStore
  | callbackNotify =>
      simp only [StopPc.code, Instr.sc_notify, Option.some.injEq] at h
      subst h
      exact Steps.callbackNotify
  | callbackDone =>
      simp only [StopPc.code, Instr.sc_lib, Option.some.injEq] at h
      subst h
      exact Steps.callbackDone
  | done => simp [StopPc.code] at h

end MarketData
