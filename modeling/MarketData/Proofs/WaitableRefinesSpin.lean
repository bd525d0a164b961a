/-
The waitable queue does what the spinning queue does, and sleeps only when it may.

Without a stop request a waitable pop is a spinning pop that also writes and reads
`is_sleeping_`, and a waitable push is a spinning push that does so once its item
is in.  `spinState` forgets the flag and everything about it; each step of the
waitable queue is one step of the spinning queue on the forgotten state, or none.

`WakeInv` is the part about sleeping.  A consumer that has found the queue empty
after raising the flag is `committed` to sleep; if an item is there all the same,
and the flag is still up, then the push that brought it has not looked at the flag
yet or is about to clear it.  A consumer that is blocked while the flag is down is
owed a notify by a push that has just cleared it.  Since the flag is written by
both sides, a clear decided during one sleep may land in a later one; the invariant
does not care which sleep it was decided in.
-/
import MarketData.Proofs.Fifo

namespace MarketData

open Lib

variable {T : Type} {W : Nat} {N : Capacity W}

/-! ### The queue below does not look at the flag -/

theorem PushPc.sc_isSleeping {pc : PushPc T W} {m : Mem T W} {x y : StopState}
    {n : Instr.Next Loc (Cell T W) StopState (PushPc T W)} (b : Bool)
    (h : (pc.code N).sc m x = some n) :
    (pc.code N).sc (Function.update m .isSleeping_ b) y =
      some { mem := Function.update n.mem .isSleeping_ b, obj := y, pc := n.pc } := by
  cases pc <;>
    simp only [PushPc.code, Instr.sc_load, Instr.sc_store, Instr.sc_halt, Option.some.injEq,
      reduceCtorEq] at h <;>
    subst h <;>
    simp [PushPc.code, Function.update_comm]

theorem PopPc.sc_isSleeping {pc : PopPc T W} {m : Mem T W} {x y : StopState}
    {n : Instr.Next Loc (Cell T W) StopState (PopPc T W)} (b : Bool)
    (h : (pc.code N).sc m x = some n) :
    (pc.code N).sc (Function.update m .isSleeping_ b) y =
      some { mem := Function.update n.mem .isSleeping_ b, obj := y, pc := n.pc } := by
  cases pc <;>
    simp only [PopPc.code, Instr.sc_load, Instr.sc_store, Instr.sc_halt, Option.some.injEq,
      reduceCtorEq] at h <;>
    subst h <;>
    simp [PopPc.code, Function.update_comm]

/-- An access of the queue is an access of a caller that is inside it. -/
theorem PopPc.call_access {P : Type} {inside : PopPc T W → P} {ret : Option T → P}
    {pc : PopPc T W} {m : Mem T W} {x : StopState}
    {n : Instr.Next Loc (Cell T W) StopState (PopPc T W)} (h : (pc.code N).sc m x = some n) :
    (pc.call N inside ret).sc m x =
      some { mem := n.mem, obj := n.obj, pc := inside n.pc, woken := n.woken } := by
  have hcall : pc.call N inside ret = (pc.code N : Code T W StopState _).map inside := by
    cases pc with
    | done res => simp [PopPc.code] at h
    | _ => rfl
  rw [hcall, Instr.sc_map, h]
  rfl

/-! ### Forgetting the flag -/

/-- Where a spinning push is while a waitable push is at a program counter. -/
def WaitPushPc.spin : WaitPushPc T W → PushPc T W
  | .queue p => p
  | .loadSleeping item => .done item true
  | .storeSleeping item => .done item true
  | .notify item => .done item true
  | .done item ok => .done item ok

/-- Where a spinning pop is while a waitable pop is at a program counter. -/
def WaitPopPc.spin : WaitPopPc T W → SpinPopPc T W
  | .firstPop p => .queue p
  | .secondPop p => .queue p
  | .storeFalse item => .done (some item)
  | .deregisterCallback res => .done res
  | .done res => .done res
  | _ => .checkStop

theorem WaitPushPc.spin_ret {p : WaitPushPc T W} {ok : Bool} (h : p.ret = some ok) :
    p.spin.ret = some ok := by
  cases p with
  | done item b => exact h
  | _ => simp [WaitPushPc.ret] at h

theorem WaitPopPc.spin_ret {c : WaitPopPc T W} {res : Option T} (h : c.ret = some res) :
    c.spin.ret = some res := by
  cases c with
  | done r => exact h
  | _ => simp [WaitPopPc.ret] at h

namespace MarketDataQueue

/-- The spinning queue's state while the waitable queue is in `s`. -/
def spinState (s : State (WaitableSpscQueue N : QueueCode T W)) :
    State (SpinSpscQueue N : QueueCode T W) where
  mem := Function.update s.mem .isSleeping_ false
  stop := StopState.initial
  prod := s.prod.map WaitPushPc.spin
  cons := s.cons.map WaitPopPc.spin
  stopper := none

/-- Nobody has asked for a stop. -/
def Unstopped (s : State (WaitableSpscQueue N : QueueCode T W)) : Prop :=
  s.stopper = none ∧ s.stop.requested = false

variable {s s' : State (WaitableSpscQueue N : QueueCode T W)} {e : Event T}

/-- The spinning queue answers with no step or with one. -/
def Answers (t : State (SpinSpscQueue N : QueueCode T W)) (o : Option (Obs T))
    (t' : State (SpinSpscQueue N : QueueCode T W)) : Prop :=
  (t' = t ∧ o = none) ∨ ∃ d, step t d = some t' ∧ obs t d = o

/-- A wake-up of a blocked waitable pop is nothing to the spinning pop. -/
theorem spin_woken (b : Bool) (c : Option (WaitPopPc T W)) :
    (woken (Q := WaitableSpscQueue N) b c).map WaitPopPc.spin = c.map WaitPopPc.spin := by
  cases b with
  | false => rfl
  | true =>
      rcases c with _ | c
      · rfl
      · cases c <;> rfl

/-- A step of a waitable push: the accesses of the queue below are steps of the
spinning push, the rest is not seen. -/
theorem answers_push {p : WaitPushPc T W} (hp : s.prod = some p)
    {n : Instr.Next Loc (Cell T W) StopState (WaitPushPc T W)}
    (hn : WaitPushPc.Steps N s.mem s.stop p n) :
    Answers (spinState s) none
      (spinState { s with mem := n.mem, stop := n.obj, prod := some n.pc,
                          cons := woken n.woken s.cons }) := by
  cases hn with
  | access q n' hn' =>
      refine Or.inr ⟨.push, ?_, rfl⟩
      have hsc := PushPc.sc_isSleeping false hn' (y := StopState.initial)
      have hq : (spinState s).prod = some q := by simp [spinState, hp, WaitPushPc.spin]
      have hmove := Moves.push (s := spinState s) q _ hq hsc
      exact hmove.step_eq
  | storeSleeping item =>
      refine Or.inl ⟨?_, rfl⟩
      simp [spinState, hp, WaitPushPc.spin, woken]
  | notify item =>
      refine Or.inl ⟨?_, rfl⟩
      simp only [spinState, hp, spin_woken]
      rfl
  | _ =>
      refine Or.inl ⟨?_, rfl⟩
      simp only [spinState, hp]
      rfl

/-- The spinning pop makes the step its own code makes. -/
theorem answers_of_sc {t : State (SpinSpscQueue N : QueueCode T W)} {c c' : SpinPopPc T W}
    {m : Mem T W} (hc : t.cons = some c)
    (hsc : (c.code N).sc t.mem t.stop = some { mem := m, obj := t.stop, pc := c' }) :
    Answers t none { t with mem := m, cons := some c' } := by
  have hmove := Moves.pop (s := t) c _ hc hsc
  exact Or.inr ⟨.pop, hmove.step_eq, rfl⟩

/-- A step of a waitable pop: its stop tests and its accesses of the queue below are
steps of the spinning pop, and so is the announcement, which leads to another try. -/
theorem answers_pop (hstop : Unstopped s) {c : WaitPopPc T W} (hc : s.cons = some c)
    {n : Instr.Next Loc (Cell T W) StopState (WaitPopPc T W)}
    (hn : WaitPopPc.Steps N s.mem s.stop c n) :
    Answers (spinState s) none
      (spinState { s with mem := n.mem, stop := n.obj, cons := some n.pc }) := by
  have hcons : (spinState s).cons = some c.spin := by simp [spinState, hc]
  cases hn with
  | registerLate hreq => rw [hstop.2] at hreq; simp at hreq
  | quit hreq => rw [hstop.2] at hreq; simp at hreq
  | proceed hreq => exact answers_of_sc hcons rfl
  | firstAccess q n' hn' =>
      exact answers_of_sc hcons (PopPc.call_access (PopPc.sc_isSleeping false hn'))
  | firstTook item => exact answers_of_sc hcons rfl
  | firstEmpty => exact answers_of_sc hcons rfl
  | storeTrue =>
      have hstate : spinState { s with mem := Function.update s.mem .isSleeping_ true,
                                       cons := some (.secondPop .loadRead) } =
          { spinState s with cons := some (.queue .loadRead) } := by
        simp [spinState, WaitPopPc.spin]
      rw [hstate]
      exact answers_of_sc hcons rfl
  | secondAccess q n' hn' =>
      exact answers_of_sc hcons (PopPc.call_access (PopPc.sc_isSleeping false hn'))
  | secondTook item => exact answers_of_sc hcons rfl
  | secondEmpty => exact answers_of_sc hcons rfl
  | _ =>
      refine Or.inl ⟨?_, rfl⟩
      simp [spinState, hc, WaitPopPc.spin]

/-- Every step that is not a stop request is answered. -/
theorem answers_step (hstop : Unstopped s) (he : e ≠ .callRequestStop)
    (hs : step s e = some s') :
    Answers (spinState s) (obs s e) (spinState s') ∧ Unstopped s' := by
  cases moves_of_step hs with
  | callPush item hp =>
      refine ⟨Or.inr ⟨.callPush item, ?_, rfl⟩, hstop⟩
      have hidle : (spinState s).prod = none := by simp [spinState, hp]
      exact (Moves.callPush item hidle).step_eq
  | callPop hc =>
      refine ⟨Or.inr ⟨.callPop, ?_, rfl⟩, hstop⟩
      have hidle : (spinState s).cons = none := by simp [spinState, hc]
      exact (Moves.callPop hidle).step_eq
  | callRequestStop hp => exact absurd rfl he
  | push p n hp hn =>
      have hsteps := WaitPushPc.steps_of_sc hn
      refine ⟨answers_push hp hsteps, hstop.1, ?_⟩
      show n.obj.requested = false
      rw [hsteps.obj]
      exact hstop.2
  | pop c n hc hn =>
      have hsteps := WaitPopPc.steps_of_sc hn
      refine ⟨answers_pop hstop hc hsteps, hstop.1, ?_⟩
      show n.obj.requested = false
      rw [hsteps.requested]
      exact hstop.2
  | requestStop p n hp hn => rw [hstop.1] at hp; simp at hp
  | spurious =>
      refine ⟨Or.inl ⟨?_, rfl⟩, hstop⟩
      simp only [spinState]
      rw [show s.cons.map (WaitableSpscQueue N).wake = woken true s.cons from rfl, spin_woken]
  | retPush p ok hp hr =>
      have hprod : (spinState s).prod = some p.spin := by simp [spinState, hp]
      have hwait : WaitPushPc.ret p = some ok := hr
      have hret : p.spin.ret = some ok := WaitPushPc.spin_ret hwait
      have hmove := Moves.retPush (s := spinState s) p.spin ok hprod hret
      refine ⟨Or.inr ⟨.retPush, hmove.step_eq, ?_⟩, hstop⟩
      simp only [obs, hprod, hp, Option.bind_some, hret, hwait]
  | retPop c res hc hr =>
      have hcons : (spinState s).cons = some c.spin := by simp [spinState, hc]
      have hwait : WaitPopPc.ret c = some res := hr
      have hret : c.spin.ret = some res := WaitPopPc.spin_ret hwait
      have hmove := Moves.retPop (s := spinState s) c.spin res hcons hret
      refine ⟨Or.inr ⟨.retPop, hmove.step_eq, ?_⟩, hstop⟩
      simp only [obs, hcons, hc, Option.bind_some, hret, hwait]

/-- The spinning queue follows the waitable queue as long as nobody requests a stop. -/
theorem spin_simulation :
    Machine.Simulation (machine (WaitableSpscQueue N : QueueCode T W))
      (machine (SpinSpscQueue N : QueueCode T W)) obs obs (fun _ e => e ≠ .callRequestStop)
      (fun s t => Unstopped s ∧ t = spinState s) where
  init := by
    refine ⟨⟨rfl, rfl⟩, ?_⟩
    simp [machine, spinState, Mem.initial]
  step := by
    rintro s t e s' ⟨hstop, rfl⟩ he hs
    obtain ⟨hans, hstop'⟩ := answers_step hstop he hs
    rcases hans with ⟨hsame, hobs⟩ | ⟨d, hd, hobs⟩
    · refine ⟨[], spinState s, rfl, ?_, hstop', hsame.symm⟩
      rw [hobs]
      rfl
    · refine ⟨[d], spinState s', ?_, ?_, hstop', rfl⟩
      · rw [Machine.run_singleton]
        exact hd
      · rw [Machine.collect_singleton _ hd, hobs]

end MarketDataQueue

/-! ### Sleeping -/

/-- The pop has found the queue empty since it raised the flag, and will sleep if the
flag is still up. -/
def WaitPopPc.committed : WaitPopPc T W → Bool
  | .secondPop (.done none) => true
  | .wait => true
  | .blocked => true
  | _ => false

/-- The push has put its item in and has not cleared the flag yet. -/
def WaitPushPc.willLook : WaitPushPc T W → Bool
  | .queue (.done _ true) => true
  | .loadSleeping _ => true
  | .storeSleeping _ => true
  | _ => false

theorem WaitPopPc.committed_wake (c : WaitPopPc T W) : c.wake.committed = c.committed := by
  cases c <;> rfl

/-- An access of a push stores `write_` only as its last one. -/
theorem PushPc.write_step {pc : PushPc T W} {m : Mem T W} {x : StopState}
    {n : Instr.Next Loc (Cell T W) StopState (PushPc T W)} (h : (pc.code N).sc m x = some n) :
    n.mem .write_ = m .write_ ∨ ∃ item, n.pc = .done item true := by
  cases pc with
  | publish item w =>
      simp only [PushPc.code, Instr.sc_store, Option.some.injEq] at h
      subst h
      exact Or.inr ⟨item, rfl⟩
  | done item ok => simp [PushPc.code] at h
  | _ =>
      simp only [PushPc.code, Instr.sc_load, Instr.sc_store, Option.some.injEq] at h
      subst h
      exact Or.inl (by simp)

/-- A push that has put its item in does not access the queue any more. -/
theorem PushPc.not_done {pc : PushPc T W} {m : Mem T W} {x : StopState}
    {n : Instr.Next Loc (Cell T W) StopState (PushPc T W)} (h : (pc.code N).sc m x = some n) :
    (WaitPushPc.queue pc).willLook = false := by
  cases pc with
  | done item ok => simp [PushPc.code] at h
  | _ => rfl

/-- A pop commits itself to sleep only on an empty queue. -/
theorem WaitPopPc.Steps.commits {m : Mem T W} {st : StopState} {c : WaitPopPc T W}
    {n : Instr.Next Loc (Cell T W) StopState (WaitPopPc T W)} {p : Option (PushPc T W)}
    {xs : List T} (h : Steps N m st c n) (hinv : QueueInv N m p c.inPop xs)
    (hpc : n.pc.committed = true) :
    n.mem = m ∧ (c.committed = true ∨ m .write_ = m .read_) := by
  cases h with
  | secondAccess q n' hn' =>
      cases q with
      | loadWrite r =>
          have hr : r = m .read_ := hinv.cons
          simp only [PopPc.code, Instr.sc_load, Option.some.injEq] at hn'
          subst hn'
          refine ⟨rfl, Or.inr ?_⟩
          by_cases hempty : r = m .write_
          · rw [← hempty, hr]
          · rw [if_neg hempty] at hpc
            simp [committed] at hpc
      | move r =>
          simp only [PopPc.code, Instr.sc_load, Option.some.injEq] at hn'
          subst hn'
          cases hcell : m (.data_ (r.toNat % N.val)) <;> simp [hcell, committed] at hpc
      | done res => simp [PopPc.code] at hn'
      | fault => simp [PopPc.code] at hn'
      | _ =>
          simp only [PopPc.code, Instr.sc_load, Instr.sc_store, Option.some.injEq] at hn'
          subst hn'
          simp [committed] at hpc
  | secondEmpty => exact ⟨rfl, Or.inl rfl⟩
  | block hflag => exact ⟨rfl, Or.inl rfl⟩
  | _ => simp [committed] at hpc

namespace MarketDataQueue

/-- What ties the flag, the sleeper and the push that owes it a wake-up. -/
structure WakeInv (s : State (WaitableSpscQueue N : QueueCode T W)) : Prop where
  fifo : (waitableFifo N).Inv s
  unstopped : Unstopped s
  owed : s.cons = some .blocked → s.mem .isSleeping_ = false →
    ∃ item, s.prod = some (.notify item)
  seen : ∀ c, s.cons = some c → WaitPopPc.committed c = true → s.mem .isSleeping_ = true →
    s.mem .write_ ≠ s.mem .read_ → ∃ p, s.prod = some p ∧ WaitPushPc.willLook p = true

theorem WakeInv.initial : WakeInv (machine (WaitableSpscQueue N : QueueCode T W)).init where
  fifo := (waitableFifo N).inv_initial
  unstopped := ⟨rfl, rfl⟩
  owed := by
    intro hc
    simp [machine] at hc
  seen := by
    intro c hc
    simp [machine] at hc

variable {s s' : State (WaitableSpscQueue N : QueueCode T W)} {e : Event T}

theorem WakeInv.looks (h : WakeInv s) {p : WaitPushPc T W} (hp : s.prod = some p)
    {c : WaitPopPc T W} (hc : s.cons = some c) (hcom : c.committed = true)
    (hflag : s.mem .isSleeping_ = true) (hne : s.mem .write_ ≠ s.mem .read_) :
    p.willLook = true := by
  obtain ⟨q, hq, hlook⟩ := h.seen c hc hcom hflag hne
  rw [hp, Option.some.injEq] at hq
  rw [hq]
  exact hlook

/-- A push that has not just cleared the flag owes nothing. -/
theorem WakeInv.not_owed (h : WakeInv s) {p : WaitPushPc T W} (hp : s.prod = some p)
    (hpc : ∀ item, p ≠ .notify item) (hc : s.cons = some .blocked) :
    s.mem .isSleeping_ ≠ false := by
  intro hflag
  obtain ⟨item, hitem⟩ := h.owed hc hflag
  rw [hp, Option.some.injEq] at hitem
  exact hpc item hitem

theorem WakeInv.owed_push (h : WakeInv s) {p : WaitPushPc T W} (hp : s.prod = some p)
    {n : Instr.Next Loc (Cell T W) StopState (WaitPushPc T W)}
    (hn : WaitPushPc.Steps N s.mem s.stop p n)
    (hc : woken (Q := WaitableSpscQueue N) n.woken s.cons = some .blocked)
    (hflag : n.mem .isSleeping_ = false) :
    ∃ item, some n.pc = some (WaitPushPc.notify item) := by
  cases hn with
  | access q n' hn' =>
      rw [(PushPc.frame hn').2.1] at hflag
      exact absurd hflag (h.not_owed hp (by simp) hc)
  | storeSleeping item => exact ⟨item, rfl⟩
  | notify item =>
      obtain ⟨d, -, hd⟩ := Option.map_eq_some_iff.mp hc
      cases d <;> simp [WaitPopPc.wake] at hd
  | _ => exact absurd hflag (h.not_owed hp (by simp) hc)

theorem WakeInv.seen_push (h : WakeInv s) {p : WaitPushPc T W} (hp : s.prod = some p)
    {n : Instr.Next Loc (Cell T W) StopState (WaitPushPc T W)}
    (hn : WaitPushPc.Steps N s.mem s.stop p n) {c : WaitPopPc T W}
    (hc : woken (Q := WaitableSpscQueue N) n.woken s.cons = some c) (hcom : c.committed = true)
    (hflag : n.mem .isSleeping_ = true) (hne : n.mem .write_ ≠ n.mem .read_) :
    n.pc.willLook = true := by
  cases hn with
  | access q n' hn' =>
      -- either the item has just been counted, or nothing has changed for the sleeper
      rcases PushPc.write_step hn' with hwrite | ⟨item, hdone⟩
      · obtain ⟨hread, hsame, -, -⟩ := PushPc.frame hn'
        rw [hsame] at hflag
        rw [hwrite, hread] at hne
        have hlook := h.looks hp hc hcom hflag hne
        rw [PushPc.not_done hn'] at hlook
        simp at hlook
      · show (WaitPushPc.queue n'.pc).willLook = true
        rw [hdone]
        rfl
  | accepted item => rfl
  | refused item =>
      have hlook := h.looks hp hc hcom hflag hne
      simp [WaitPushPc.willLook] at hlook
  | awake item hdown => exact absurd (hdown.symm.trans hflag) (by simp)
  | asleep item hup => rfl
  | storeSleeping item => simp at hflag
  | notify item =>
      obtain ⟨d, hd, rfl⟩ := Option.map_eq_some_iff.mp hc
      rw [WaitPopPc.committed_wake] at hcom
      have hlook := h.looks hp hd hcom hflag hne
      simp [WaitPushPc.willLook] at hlook

/-- A pop blocks only with the flag up. -/
theorem flag_of_blocked {m : Mem T W} {st : StopState} {c : WaitPopPc T W}
    {n : Instr.Next Loc (Cell T W) StopState (WaitPopPc T W)} (hn : WaitPopPc.Steps N m st c n)
    (hpc : n.pc = .blocked) : n.mem .isSleeping_ = true := by
  cases hn with
  | block hflag => exact hflag
  | _ => simp at hpc

/-- A step that is not a stop request keeps the invariant. -/
theorem WakeInv.step (h : WakeInv s) (he : e ≠ .callRequestStop) (hs : step s e = some s') :
    WakeInv s' := by
  have hfifo : (waitableFifo N).Inv s' := ((waitableFifo N).flow_step h.fifo hs).1
  have hunstopped : Unstopped s' := (answers_step h.unstopped he hs).2
  cases moves_of_step hs with
  | callPush item hp =>
      refine ⟨hfifo, hunstopped, ?_, ?_⟩
      · intro hc hflag
        obtain ⟨_, hprod⟩ := h.owed hc hflag
        rw [hp] at hprod
        simp at hprod
      · intro c hc hcom hflag hne
        obtain ⟨_, hprod, -⟩ := h.seen c hc hcom hflag hne
        rw [hp] at hprod
        simp at hprod
  | callPop hc =>
      refine ⟨hfifo, hunstopped, ?_, ?_⟩
      · intro hc'
        simp at hc'
      · intro c hc' hcom
        rw [← Option.some.inj hc'] at hcom
        simp [WaitPopPc.committed] at hcom
  | callRequestStop hp => exact absurd rfl he
  | push p n hp hn =>
      have hsteps := WaitPushPc.steps_of_sc hn
      refine ⟨hfifo, hunstopped, fun hc hflag => h.owed_push hp hsteps hc hflag, ?_⟩
      intro c hc hcom hflag hne
      exact ⟨n.pc, rfl, h.seen_push hp hsteps hc hcom hflag hne⟩
  | pop c n hc hn =>
      have hsteps := WaitPopPc.steps_of_sc hn
      refine ⟨hfifo, hunstopped, ?_, ?_⟩
      · intro hblocked hflag
        have hup : n.mem .isSleeping_ = true := flag_of_blocked hsteps (Option.some.inj hblocked)
        exact absurd (hup.symm.trans hflag) (by simp)
      · intro d hd hcom hflag hne
        rw [← Option.some.inj hd] at hcom
        obtain ⟨xs, hxs⟩ := h.fifo
        unfold Fifo.Holds at hxs
        rw [hc] at hxs
        obtain ⟨hmem, hbefore | hempty⟩ := hsteps.commits hxs hcom
        · rw [hmem] at hflag hne
          exact h.seen c hc hbefore hflag hne
        · rw [hmem] at hne
          exact absurd hempty hne
  | requestStop p n hp hn => rw [h.unstopped.1] at hp; simp at hp
  | spurious =>
      refine ⟨hfifo, hunstopped, ?_, ?_⟩
      · intro hc
        obtain ⟨d, -, hd⟩ := Option.map_eq_some_iff.mp hc
        cases d <;> simp [WaitPopPc.wake] at hd
      · intro c hc hcom hflag hne
        obtain ⟨d, hd, rfl⟩ := Option.map_eq_some_iff.mp hc
        rw [WaitPopPc.committed_wake] at hcom
        exact h.seen d hd hcom hflag hne
  | retPush p ok hp hr =>
      refine ⟨hfifo, hunstopped, ?_, ?_⟩
      · intro hc hflag
        obtain ⟨item, hprod⟩ := h.owed hc hflag
        rw [hp, Option.some.injEq] at hprod
        rw [hprod] at hr
        simp [WaitPushPc.ret] at hr
      · intro c hc hcom hflag hne
        have hlook := h.looks hp hc hcom hflag hne
        cases p with
        | done item b => simp [WaitPushPc.willLook] at hlook
        | _ => simp [WaitPushPc.ret] at hr
  | retPop c res hc hr =>
      refine ⟨hfifo, hunstopped, ?_, ?_⟩
      · intro hc'
        simp at hc'
      · intro d hd
        simp at hd

/-! ### The result -/

/-- The push has put its item in and is going to clear the flag and notify: either it
has not looked at the flag yet, which is up, or it has seen it, or it has just
cleared it. -/
def Owes (s : State (WaitableSpscQueue N : QueueCode T W)) : Prop :=
  ∃ item, (s.mem .isSleeping_ = true ∧ (s.prod = some (.queue (.done item true)) ∨
      s.prod = some (.loadSleeping item) ∨ s.prod = some (.storeSleeping item))) ∨
    (s.mem .isSleeping_ = false ∧ s.prod = some (.notify item))

theorem WakeInv.owes (h : WakeInv s) (hc : s.cons = some .blocked)
    (hne : s.mem .write_ ≠ s.mem .read_) : Owes s := by
  by_cases hflag : s.mem .isSleeping_ = true
  · obtain ⟨p, hp, hlook⟩ := h.seen .blocked hc rfl hflag hne
    cases p with
    | queue q =>
        cases q with
        | done item ok =>
            cases ok with
            | false => simp [WaitPushPc.willLook] at hlook
            | true => exact ⟨item, Or.inl ⟨hflag, Or.inl hp⟩⟩
        | _ => simp [WaitPushPc.willLook] at hlook
    | loadSleeping item => exact ⟨item, Or.inl ⟨hflag, Or.inr (Or.inl hp)⟩⟩
    | storeSleeping item => exact ⟨item, Or.inl ⟨hflag, Or.inr (Or.inr hp)⟩⟩
    | notify item => simp [WaitPushPc.willLook] at hlook
    | done item ok => simp [WaitPushPc.willLook] at hlook
  · have hdown : s.mem .isSleeping_ = false := by simpa using hflag
    obtain ⟨item, hp⟩ := h.owed hc hdown
    exact ⟨item, Or.inr ⟨hdown, hp⟩⟩

/-- The push need only go on: within four steps of its own the sleeper is released,
with the flag down. -/
theorem Owes.releases (h : Owes s) (hc : s.cons = some .blocked) :
    ∃ k ≤ 4, ∃ t, (machine (WaitableSpscQueue N : QueueCode T W)).run s
        (List.replicate k .push) = some t ∧
      t.cons = some .wait ∧ t.mem .isSleeping_ = false := by
  obtain ⟨m, st, p, c, q⟩ := s
  subst hc
  obtain ⟨item, ⟨hflag, hp | hp | hp⟩ | ⟨hflag, hp⟩⟩ := h
  · subst hp
    have hup : m .isSleeping_ = true := hflag
    refine ⟨4, by omega, ?_⟩
    simp [List.replicate, Machine.run_cons, machine, step, stepPush, WaitPushPc.code,
      WaitPopPc.wake, PushPc.call, woken, hup]
  · subst hp
    have hup : m .isSleeping_ = true := hflag
    refine ⟨3, by omega, ?_⟩
    simp [List.replicate, Machine.run_cons, machine, step, stepPush, WaitPushPc.code,
      WaitPopPc.wake, woken, hup]
  · subst hp
    refine ⟨2, by omega, ?_⟩
    simp [List.replicate, Machine.run_cons, machine, step, stepPush, WaitPushPc.code,
      WaitPopPc.wake, woken]
  · subst hp
    have hdown : m .isSleeping_ = false := hflag
    refine ⟨1, by omega, ?_⟩
    simp [List.replicate, Machine.run_cons, machine, step, stepPush, WaitPushPc.code,
      WaitPopPc.wake, woken, hdown]

end MarketDataQueue

/-- A spinning pop that is between two tries, or in a try that has found nothing. -/
def SpinPopPc.Fruitless (m : Mem T W) : SpinPopPc T W → Prop
  | .checkStop => True
  | .queue .loadRead => True
  | .queue (.loadWrite r) => r = m .read_
  | .queue (.done none) => True
  | _ => False

theorem SpinPopPc.Fruitless.step {m : Mem T W} {st : StopState} {c : SpinPopPc T W}
    {n : Instr.Next Loc (Cell T W) StopState (SpinPopPc T W)} (h : Fruitless m c)
    (hreq : st.requested = false) (hempty : m .read_ = m .write_)
    (hn : (c.code N).sc m st = some n) : n.mem = m ∧ n.obj = st ∧ Fruitless m n.pc := by
  cases c with
  | checkStop =>
      simp only [SpinPopPc.code, Instr.sc_lib, hreq, Option.some.injEq] at hn
      subst hn
      exact ⟨rfl, rfl, trivial⟩
  | queue q =>
      cases q with
      | loadRead =>
          simp only [SpinPopPc.code, PopPc.call, PopPc.code, Instr.map, Instr.sc_load,
            Option.some.injEq] at hn
          subst hn
          exact ⟨rfl, rfl, rfl⟩
      | loadWrite r =>
          have hr : r = m .write_ := h.trans hempty
          simp only [SpinPopPc.code, PopPc.call, PopPc.code, Instr.map, Instr.sc_load, if_pos hr,
            Option.some.injEq] at hn
          subst hn
          exact ⟨rfl, rfl, trivial⟩
      | done res =>
          cases res with
          | none =>
              simp only [SpinPopPc.code, PopPc.call, Instr.sc_goto, Option.some.injEq] at hn
              subst hn
              exact ⟨rfl, rfl, trivial⟩
          | some item => exact h.elim
      | _ => exact h.elim
  | done res => exact h.elim

namespace MarketDataQueue

/-- On an empty queue, running alone, a spinning pop does not return. -/
theorem spin_cannot_return (k : Nat) :
    ∀ {t u : State (SpinSpscQueue N : QueueCode T W)} {c : SpinPopPc T W},
      t.cons = some c → SpinPopPc.Fruitless t.mem c → t.stop.requested = false →
      t.mem .read_ = t.mem .write_ →
      (machine (SpinSpscQueue N : QueueCode T W)).run t (List.replicate k .pop) = some u →
      u.cons.bind SpinPopPc.ret = none := by
  induction k with
  | zero =>
      intro t u c hc hfruitless _ _ hrun
      rw [← Option.some.inj hrun, hc]
      cases c with
      | done res => exact hfruitless.elim
      | _ => rfl
  | succ k ih =>
      intro t u c hc hfruitless hreq hempty hrun
      obtain ⟨v, hv, hvu⟩ := Machine.run_cons_some.mp hrun
      have hstep : MarketDataQueue.step t .pop = some v := hv
      cases moves_of_step hstep with
      | pop d n hd hn =>
          rw [hc, Option.some.injEq] at hd
          subst hd
          obtain ⟨hmem, hobj, hnext⟩ := hfruitless.step hreq hempty hn
          refine ih rfl ?_ ?_ ?_ hvu
          · show SpinPopPc.Fruitless n.mem n.pc
            rw [hmem]
            exact hnext
          · show n.obj.requested = false
            rw [hobj]
            exact hreq
          · show n.mem .read_ = n.mem .write_
            rw [hmem]
            exact hempty

/--
**The waitable queue refines the spinning queue.**  Every run without a stop request
is matched by a run of the spinning queue with the same calls, push results and
popped items, in the same order.  Where the waitable consumer is blocked, the
spinning one is between two tries: on an empty queue it cannot return, and on a
queue that holds an item the producer is still inside the push that is going to
clear the flag and notify, and its own next steps do so.
-/
theorem waitable_refines_spin (N : Capacity W) (es : List (Event T))
    (s : State (WaitableSpscQueue N : QueueCode T W))
    (h : (machine (WaitableSpscQueue N : QueueCode T W)).Exec es s)
    (hstop : Event.callRequestStop ∉ es) :
    ∃ ds t, (machine (SpinSpscQueue N : QueueCode T W)).Exec ds t ∧
      (machine (SpinSpscQueue N : QueueCode T W)).log obs ds =
        (machine (WaitableSpscQueue N : QueueCode T W)).log obs es ∧
      held t.mem = held s.mem ∧
      (s.cons = some .blocked → t.cons = some .checkStop ∧
        (held s.mem = 0 → ∀ k u,
          (machine (SpinSpscQueue N : QueueCode T W)).run t (List.replicate k .pop) = some u →
          u.cons.bind SpinPopPc.ret = none) ∧
        (held s.mem ≠ 0 → Owes s ∧
          ∃ k ≤ 4, ∃ u, (machine (WaitableSpscQueue N : QueueCode T W)).run s
              (List.replicate k .push) = some u ∧
            u.cons = some .wait ∧ u.mem .isSleeping_ = false)) := by
  have hevents : ∀ e ∈ es, e ≠ Event.callRequestStop := by
    intro e he heq
    exact hstop (heq ▸ he)
  obtain ⟨ds, t, hds, hlog, hunstopped, rfl⟩ :=
    spin_simulation.exec h (Machine.along_of_forall hevents)
  have hwake : WakeInv s := Machine.Exec.invariant_along WakeInv.initial
    (fun s e s' hi hg hs => hi.step hg hs) h (Machine.along_of_forall hevents)
  refine ⟨ds, spinState s, hds, hlog, by simp [held, spinState], ?_⟩
  intro hblocked
  refine ⟨by simp [spinState, hblocked, WaitPopPc.spin], ?_, ?_⟩
  · intro hempty k u hrun
    refine spin_cannot_return k (c := .checkStop) ?_ trivial rfl ?_ hrun
    · simp [spinState, hblocked, WaitPopPc.spin]
    · simpa [spinState] using (held_eq_zero_iff.mp hempty).symm
  · intro hheld
    have howes : Owes s := hwake.owes hblocked (fun heq => hheld (held_eq_zero_iff.mpr heq))
    exact ⟨howes, howes.releases hblocked⟩

/-- A pop on an empty queue goes to sleep; a push then brings an item. -/
def sleepThenPush : List (Event Nat) :=
  .callPop :: (List.replicate 10 .pop ++ .callPush 7 :: List.replicate 4 .push)

theorem sleepThenPush_goes :
    ((machine (WaitableSpscQueue slots128 : QueueCode Nat 64)).run
      (machine (WaitableSpscQueue slots128 : QueueCode Nat 64)).init sleepThenPush).isSome =
        true := by
  decide +kernel

theorem waitable_refines_spin_sleepThenPush :
    ((machine (WaitableSpscQueue slots128 : QueueCode Nat 64)).final sleepThenPush
      sleepThenPush_goes).cons = some .blocked ∧
    held ((machine (WaitableSpscQueue slots128 : QueueCode Nat 64)).final sleepThenPush
      sleepThenPush_goes).mem = 1 ∧
    Owes ((machine (WaitableSpscQueue slots128 : QueueCode Nat 64)).final sleepThenPush
      sleepThenPush_goes) := by
  have hblocked : ((machine (WaitableSpscQueue slots128 : QueueCode Nat 64)).final sleepThenPush
      sleepThenPush_goes).cons = some .blocked := by rfl
  have hheld : held ((machine (WaitableSpscQueue slots128 : QueueCode Nat 64)).final sleepThenPush
      sleepThenPush_goes).mem = 1 := by decide +kernel
  obtain ⟨_, _, _, _, _, hsleep⟩ := waitable_refines_spin slots128 sleepThenPush _
    (Machine.exec_final sleepThenPush_goes) (by simp [sleepThenPush])
  exact ⟨hblocked, hheld, ((hsleep hblocked).2.2 (by rw [hheld]; simp)).1⟩

end MarketDataQueue

end MarketData
