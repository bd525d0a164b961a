/-
Behind store buffers both queue classes still keep every item, once and in order.

A store buffer can cost `WaitableSpscQueue` a wake-up.  It cannot cost it an item:
whatever is still buffered, the accesses that a push and a pop make to the queue
below are those of a run with stale views (`Follows`), and there the slots are owned
and the counters tell the truth or err on the safe side.

`BufferedFifo` is what a queue class has to show, over what `Fifo` asks of it: a step
behind a buffer is an access to the queue below, or touches nothing but the flag.
`Follows.step` answers such a step with steps of the stale-view machine, and along the
way it counts the items in and out.  What the callers of `push` and `pop` see follows
from that with the items that a call in progress has put in and not yet reported, or
taken out and not yet returned.
-/
import MarketData.Proofs.BufferedStores
import MarketData.Proofs.LostWakeup

namespace MarketData

open Lib
open StaleCounters (StaleInv Count)

variable {T : Type} {W : Nat} {N : Capacity W}

/-! ### What a step behind a buffer does -/

/-- A step that makes no access to the queue below: it stores nothing, or to the flag. -/
inductive Aside (m : Mem T W) (b : Buf T W) : Mem T W → Buf T W → Prop
  | quiet : Aside m b m b
  | buffered (v : Bool) : Aside m b m (b ++ [⟨.isSleeping_, v⟩])
  | atOnce (v : Bool) (hb : b = []) : Aside m b (Function.update m .isSleeping_ v) []

/-- No push is inside the queue below, or it is about to return from there. -/
def PushPc.over : Option (PushPc T W) → Bool
  | none => true
  | some (.done _ _) => true
  | _ => false

def PopPc.over : Option (PopPc T W) → Bool
  | none => true
  | some (.done _) => true
  | _ => false

namespace Fifo

variable {Q : QueueCode T W}

/-- A step of a push is an access to the queue below, or happens outside it. -/
inductive PushTso (F : Fifo N Q) (p : Q.PushPc) (m : Mem T W) (b : Buf T W) (st : StopState)
    (n : Instr.NextTso Loc (Cell T W) StopState Q.PushPc) : Prop
  | access (q : PushPc T W) (n' : Instr.NextTso Loc (Cell T W) StopState (PushPc T W))
      (hq : F.inPush p = some q) (hn : (q.code N).tso m b st = some n') (hmem : n.mem = n'.mem)
      (hbuf : n.buf = n'.buf) (hpc : F.inPush n.pc = some n'.pc)
      (hpending : F.pending p = q.accepts ++ F.pending n.pc) : PushTso F p m b st n
  | aside (h : Aside m b n.mem n.buf) (hp : PushPc.over (F.inPush p) = true)
      (hpc : F.inPush n.pc = none) (hpending : F.pending p = F.pending n.pc) :
      PushTso F p m b st n

/-- A step of a pop is an access to the queue below, or happens outside it. -/
inductive PopTso (F : Fifo N Q) (c : Q.PopPc) (m : Mem T W) (b : Buf T W) (st : StopState)
    (n : Instr.NextTso Loc (Cell T W) StopState Q.PopPc) : Prop
  | access (q : PopPc T W) (n' : Instr.NextTso Loc (Cell T W) StopState (PopPc T W))
      (hq : F.inPop c = some q) (hn : (q.code N).tso m b st = some n') (hmem : n.mem = n'.mem)
      (hbuf : n.buf = n'.buf) (hpc : F.inPop n.pc = some n'.pc)
      (htaken : F.taken c ++ q.retires = F.taken n.pc) : PopTso F c m b st n
  | aside (h : Aside m b n.mem n.buf) (hc : PopPc.over (F.inPop c) = true)
      (hpc : F.inPop n.pc = none ∨ F.inPop n.pc = some .loadRead)
      (htaken : F.taken c = F.taken n.pc) : PopTso F c m b st n

end Fifo

/-- A queue class that keeps items in order behind store buffers. -/
structure BufferedFifo (N : Capacity W) (Q : QueueCode T W) extends Fifo N Q where
  item : Q.PushPc → T
  push_item : ∀ x, item (Q.push x) = x
  pending_item : ∀ p, pending p = [] ∨ pending p = [item p]
  item_step : ∀ {p m b st n}, (Q.pushCode p).tso m b st = some n → item n.pc = item p
  push_tso : ∀ {p m b st n}, (Q.pushCode p).tso m b st = some n → toFifo.PushTso p m b st n
  push_over : ∀ {p ok}, Q.pushRet p = some ok → PushPc.over (inPush p) = true
  pop_tso : ∀ {c m b st n}, (Q.popCode c).tso m b st = some n → toFifo.PopTso c m b st n
  pop_over : ∀ {c res}, Q.popRet c = some res → PopPc.over (inPop c) = true

namespace StoreBuffers

/-! ### The steps of the machine -/

section Moves

variable {Q : QueueCode T W} {s s' : State Q} {e : Event T}

/-- The steps of the machine, one constructor for each event. -/
inductive Moves (s : State Q) : Event T → State Q → Prop
  | callPush (item : T) (h : s.prod = none) :
      Moves s (.callPush item) { s with prod := some (Q.push item) }
  | callPop (h : s.cons = none) : Moves s .callPop { s with cons := some Q.pop }
  | push (p : Q.PushPc) (n) (h : s.prod = some p)
      (hn : (Q.pushCode p).tso s.mem s.prodBuf s.stop = some n) :
      Moves s .push { s with mem := n.mem, prodBuf := n.buf, stop := n.obj, prod := some n.pc,
                             cons := MarketDataQueue.woken n.woken s.cons }
  | pop (c : Q.PopPc) (n) (h : s.cons = some c)
      (hn : (Q.popCode c).tso s.mem s.consBuf s.stop = some n) :
      Moves s .pop { s with mem := n.mem, consBuf := n.buf, stop := n.obj, cons := some n.pc }
  | flushProd (en : (l : Loc) × Cell T W l) (rest : Buf T W) (h : s.prodBuf = en :: rest) :
      Moves s .flushProd { s with mem := Function.update s.mem en.1 en.2, prodBuf := rest }
  | flushCons (en : (l : Loc) × Cell T W l) (rest : Buf T W) (h : s.consBuf = en :: rest) :
      Moves s .flushCons { s with mem := Function.update s.mem en.1 en.2, consBuf := rest }
  | spurious : Moves s .spurious { s with cons := s.cons.map Q.wake }
  | retPush (p : Q.PushPc) (ok : Bool) (h : s.prod = some p) (hr : Q.pushRet p = some ok) :
      Moves s .retPush { s with prod := none }
  | retPop (c : Q.PopPc) (res : Option T) (h : s.cons = some c) (hr : Q.popRet c = some res) :
      Moves s .retPop { s with cons := none }

theorem flush_eq_some {m : Mem T W} {b : Buf T W} {f : Mem T W × Buf T W}
    (h : Instr.flush m b = some f) :
    ∃ en rest, b = en :: rest ∧ f = (Function.update m en.1 en.2, rest) := by
  cases b with
  | nil => simp [Instr.flush] at h
  | cons en rest => exact ⟨en, rest, rfl, (Option.some.inj h).symm⟩

theorem moves_of_step (h : step s e = some s') : Moves s e s' := by
  cases e with
  | callPush item =>
      simp only [step] at h
      split at h <;> simp only [Option.some.injEq, reduceCtorEq] at h
      rename_i hidle
      subst h
      exact Moves.callPush item hidle
  | callPop =>
      simp only [step] at h
      split at h <;> simp only [Option.some.injEq, reduceCtorEq] at h
      rename_i hidle
      subst h
      exact Moves.callPop hidle
  | push =>
      obtain ⟨p, hp, hstep⟩ := Option.bind_eq_some_iff.mp h
      obtain ⟨n, hn, rfl⟩ := Option.map_eq_some_iff.mp hstep
      exact Moves.push p n hp hn
  | pop =>
      obtain ⟨c, hc, hstep⟩ := Option.bind_eq_some_iff.mp h
      obtain ⟨n, hn, rfl⟩ := Option.map_eq_some_iff.mp hstep
      exact Moves.pop c n hc hn
  | flushProd =>
      obtain ⟨f, hf, rfl⟩ := Option.map_eq_some_iff.mp h
      obtain ⟨en, rest, hb, rfl⟩ := flush_eq_some hf
      exact Moves.flushProd en rest hb
  | flushCons =>
      obtain ⟨f, hf, rfl⟩ := Option.map_eq_some_iff.mp h
      obtain ⟨en, rest, hb, rfl⟩ := flush_eq_some hf
      exact Moves.flushCons en rest hb
  | spurious =>
      simp only [step, Option.some.injEq] at h
      subst h
      exact Moves.spurious
  | retPush =>
      simp only [step] at h
      split at h <;> simp only [Option.some.injEq, reduceCtorEq] at h
      rename_i ok hret
      obtain ⟨p, hp, hr⟩ := Option.bind_eq_some_iff.mp hret
      subst h
      exact Moves.retPush p ok hp hr
  | retPop =>
      simp only [step] at h
      split at h <;> simp only [Option.some.injEq, reduceCtorEq] at h
      rename_i res hret
      obtain ⟨c, hc, hr⟩ := Option.bind_eq_some_iff.mp hret
      subst h
      exact Moves.retPop c res hc hr

end Moves

/-! ### A run with stale views that follows -/

variable {Q : QueueCode T W} (F : BufferedFifo N Q) {s s' : State Q} {e : Event T}
  {t t' : StaleCounters.State T W} {fw fw' : Nat} {taken xs : List T}

/-- The threads are at the same accesses of the same operations, and the stale-view machine
has the memory that the flushes are leading to; `fw` stores of `write_` are flushed. -/
structure Follows (s : State Q) (t : StaleCounters.State T W) (fw : Nat) : Prop where
  prod : t.prod = s.prod.bind F.inPush
  cons : t.cons = s.cons.bind F.inPop
  behind : ∃ fr, Behind N s.mem s.prodBuf s.consBuf t fw fr

/-- Observer: the items that enter and leave the queue below. -/
def counted (s : State Q) : Event T → Option (Count T)
  | .push => (s.prod.bind F.inPush).bind StaleCounters.pushCounts
  | .pop => (s.cons.bind F.inPop).bind StaleCounters.popCounts
  | _ => none

/-- The item that enters with a step. -/
def entering (s : State Q) : Event T → List T
  | .push => ((s.prod.bind F.inPush).map PushPc.accepts).getD []
  | _ => []

/-- The item that leaves with a step. -/
def leaving (s : State Q) : Event T → List T
  | .pop => ((s.cons.bind F.inPop).map PopPc.retires).getD []
  | _ => []

theorem Follows.initial : Follows F (machine Q).init (StaleCounters.machine T N).init 0 where
  prod := rfl
  cons := rfl
  behind := ⟨0, Behind.initial⟩

/-- What the stale-view machine answers a step with. -/
def Answered (s : State Q) (e : Event T) (s' : State Q) (t : StaleCounters.State T W) (fw : Nat)
    (taken xs : List T) : Prop :=
  ∃ ds t' fw' xs', (StaleCounters.machine T N).run t ds = some t' ∧
    (StaleCounters.machine T N).collect StaleCounters.counted t ds = (counted F s e).toList ∧
    Follows F s' t' fw' ∧ fw ≤ fw' ∧ StaleInv N t' (taken ++ leaving F s e) xs' ∧
    xs ++ entering F s e = leaving F s e ++ xs'

variable {F}

/-- A step that is answered by calls and returns, or by nothing. -/
theorem Answered.silent {ds : List (StaleCounters.Event T)}
    (hrun : (StaleCounters.machine T N).run t ds = some t')
    (hcollect : (StaleCounters.machine T N).collect StaleCounters.counted t ds = [])
    (hf : Follows F s' t' fw') (hle : fw ≤ fw') (hinv : StaleInv N t' taken xs)
    (hcount : counted F s e = none) (hin : entering F s e = []) (hout : leaving F s e = []) :
    Answered F s e s' t fw taken xs := by
  refine ⟨ds, t', fw', xs, hrun, ?_, hf, hle, ?_, ?_⟩
  · rw [hcount, hcollect]
    rfl
  · rw [hout, List.append_nil]
    exact hinv
  · rw [hin, hout, List.append_nil, List.nil_append]

/-- The push in progress may be another one, if that has not passed its full test. -/
theorem inv_setProd (hinv : StaleInv N t taken xs) {p : Option (PushPc T W)}
    (hbuilt : PushPc.built p = PushPc.built t.prod) (hok : PushPc.Ok N t.mem xs.length p)
    (hslot : StaleCounters.producerSlot N p = none) :
    StaleInv N { t with prod := p } taken xs :=
  hinv.prodStep (hinv.queue.set_prod hbuilt hok) ⟨rfl, rfl⟩ ⟨rfl, rfl⟩ rfl (Nat.le_refl _)
    hinv.prodSeen (by simp [hslot])

/-- The pop in progress may be another one, if that has not passed its empty test. -/
theorem inv_setCons (hinv : StaleInv N t taken xs) {c : Option (PopPc T W)}
    (hdestroyed : PopPc.destroyed c = PopPc.destroyed t.cons) (hok : PopPc.Ok N t.mem xs c)
    (hslot : StaleCounters.consumerSlot N c = none) :
    StaleInv N { t with cons := c } taken xs :=
  hinv.consStep (hinv.queue.set_cons hdestroyed hok) ⟨rfl, rfl⟩ ⟨rfl, rfl⟩ rfl (Nat.le_refl _)
    hinv.consSeen (by simp [hslot])

/-- A push that is over can have returned. -/
theorem exists_returned_push (hinv : StaleInv N t taken xs) (h : PushPc.over t.prod = true) :
    ∃ ds, (StaleCounters.machine T N).run t ds = some { t with prod := none } ∧
      (StaleCounters.machine T N).collect StaleCounters.counted t ds = [] ∧
      StaleInv N { t with prod := none } taken xs := by
  have hnew : PushPc.built t.prod = 0 → StaleInv N { t with prod := none } taken xs := by
    intro hbuilt
    exact inv_setProd hinv hbuilt.symm trivial rfl
  rcases hp : t.prod with _ | q
  · rw [hp] at hnew
    refine ⟨[], ?_, rfl, hnew rfl⟩
    rw [← hp]
    rfl
  · rw [hp] at h hnew
    cases q with
    | done item ok =>
        have hstep : StaleCounters.step N t .retPush = some { t with prod := none } := by
          simp only [StaleCounters.step, hp]
        exact ⟨[.retPush], (Machine.run_singleton _ _).trans hstep,
          Machine.collect_singleton _ hstep, hnew rfl⟩
    | _ => cases h

/-- A pop that is over can have returned, and the next one begun. -/
theorem exists_returned_pop (hinv : StaleInv N t taken xs) (h : PopPc.over t.cons = true) :
    ∃ ds, (StaleCounters.machine T N).run t ds = some { t with cons := none } ∧
      (StaleCounters.machine T N).collect StaleCounters.counted t ds = [] ∧
      StaleInv N { t with cons := none } taken xs := by
  have hnew : PopPc.destroyed t.cons = 0 → StaleInv N { t with cons := none } taken xs := by
    intro hdestroyed
    exact inv_setCons hinv hdestroyed.symm trivial rfl
  rcases hc : t.cons with _ | q
  · rw [hc] at hnew
    refine ⟨[], ?_, rfl, hnew rfl⟩
    rw [← hc]
    rfl
  · rw [hc] at h hnew
    cases q with
    | done res =>
        have hstep : StaleCounters.step N t .retPop = some { t with cons := none } := by
          simp only [StaleCounters.step, hc]
        exact ⟨[.retPop], (Machine.run_singleton _ _).trans hstep,
          Machine.collect_singleton _ hstep, hnew rfl⟩
    | _ => cases h

/-- A pop begins. -/
theorem step_callPop (hinv : StaleInv N t taken xs) (hc : t.cons = none) :
    (StaleCounters.machine T N).step t .callPop = some { t with cons := some .loadRead } ∧
      StaleInv N { t with cons := some .loadRead } taken xs := by
  refine ⟨by simp only [StaleCounters.machine, StaleCounters.step, hc], ?_⟩
  exact inv_setCons hinv (by rw [hc]; rfl) trivial rfl

/-! ### Steps outside the queue below -/

variable {m m' : Mem T W} {b b' bp bc : Buf T W} {fr : Nat}

theorem Behind.prodAside (h : Behind N m b bc t fw fr) (ha : Aside m b m' b') :
    Behind N m' b' bc t fw fr := by
  cases ha with
  | quiet => exact h
  | buffered v => exact h.prodFlag v
  | atOnce v hb =>
      subst hb
      exact h.setFlag v

theorem Behind.consAside (h : Behind N m bp b t fw fr) (ha : Aside m b m' b') :
    Behind N m' bp b' t fw fr := by
  cases ha with
  | quiet => exact h
  | buffered v => exact h.consFlag v
  | atOnce v hb =>
      subst hb
      exact h.setFlag v

theorem pushCounts_of_over {p : Option (PushPc T W)} (h : PushPc.over p = true) :
    p.bind StaleCounters.pushCounts = none ∧ (p.map PushPc.accepts).getD [] = [] := by
  cases p with
  | none => exact ⟨rfl, rfl⟩
  | some q =>
      cases q with
      | done item ok => exact ⟨rfl, rfl⟩
      | _ => cases h

theorem popCounts_of_over {c : Option (PopPc T W)} (h : PopPc.over c = true) :
    c.bind StaleCounters.popCounts = none ∧ (c.map PopPc.retires).getD [] = [] := by
  cases c with
  | none => exact ⟨rfl, rfl⟩
  | some q =>
      cases q with
      | done res => exact ⟨rfl, rfl⟩
      | _ => cases h

/-! ### The step lemma -/

theorem Follows.push (hf : Follows F s t fw) (hinv : StaleInv N t taken xs) {p : Q.PushPc}
    (hp : s.prod = some p) {n : Instr.NextTso Loc (Cell T W) StopState Q.PushPc}
    (hn : (Q.pushCode p).tso s.mem s.prodBuf s.stop = some n) :
    Answered F s .push { s with mem := n.mem, prodBuf := n.buf, stop := n.obj, prod := some n.pc,
                                cons := MarketDataQueue.woken n.woken s.cons } t fw taken xs := by
  obtain ⟨fr, hb⟩ := hf.behind
  have hprod : t.prod = F.inPush p := by rw [hf.prod, hp]; rfl
  have hcons : t.cons = (MarketDataQueue.woken n.woken s.cons).bind F.inPop := by
    rw [F.inPop_woken, hf.cons]
  have hin : entering F s .push = (t.prod.map PushPc.accepts).getD [] := by
    rw [hf.prod]
    rfl
  have hcount : counted F s .push = t.prod.bind StaleCounters.pushCounts := by
    rw [hf.prod]
    rfl
  cases F.push_tso hn with
  | access q n' hq hn' hmem hbuf hpc _ =>
      have ht : t.prod = some q := hprod.trans hq
      obtain ⟨hmem', pick, t', hstep, hprod', hcons', hb'⟩ := hb.push hinv ht hn'
      have hs : StaleCounters.step N t (.push pick) = some t' := by
        show t.prod.bind (StaleCounters.stepPush N t pick) = some t'
        rw [ht]
        exact hstep
      refine ⟨[.push pick], t', fw, xs ++ q.accepts, (Machine.run_singleton _ _).trans hs, ?_,
        ⟨?_, ?_, ?_⟩, Nat.le_refl _, ?_, ?_⟩
      · rw [hcount]
        exact Machine.collect_singleton _ hs
      · rw [hprod']
        exact hpc.symm
      · rw [hcons']
        exact hcons
      · refine ⟨fr, ?_⟩
        show Behind N n.mem n.buf s.consBuf t' fw fr
        rw [hmem, hmem', hbuf]
        exact hb'
      · show StaleInv N t' (taken ++ []) _
        rw [List.append_nil]
        exact hinv.push ht hstep
      · rw [hin, ht]
        rfl
  | aside ha hover hpc _ =>
      rw [← hprod] at hover
      obtain ⟨ds, hrun, hcollect, hinv'⟩ := exists_returned_push hinv hover
      obtain ⟨hnone, hnil⟩ := pushCounts_of_over hover
      refine Answered.silent hrun hcollect ⟨hpc.symm, hcons, fr, ?_⟩ (Nat.le_refl _) hinv'
        (hcount.trans hnone) (hin.trans hnil) rfl
      exact (hb.prodAside ha).calls _ _

theorem Follows.pop (hf : Follows F s t fw) (hinv : StaleInv N t taken xs) {c : Q.PopPc}
    (hc : s.cons = some c) {n : Instr.NextTso Loc (Cell T W) StopState Q.PopPc}
    (hn : (Q.popCode c).tso s.mem s.consBuf s.stop = some n) :
    Answered F s .pop { s with mem := n.mem, consBuf := n.buf, stop := n.obj, cons := some n.pc }
      t fw taken xs := by
  obtain ⟨fr, hb⟩ := hf.behind
  have hcons : t.cons = F.inPop c := by rw [hf.cons, hc]; rfl
  have hout : leaving F s .pop = (t.cons.map PopPc.retires).getD [] := by
    rw [hf.cons]
    rfl
  have hcount : counted F s .pop = t.cons.bind StaleCounters.popCounts := by
    rw [hf.cons]
    rfl
  cases F.pop_tso hn with
  | access q n' hq hn' hmem hbuf hpc _ =>
      have ht : t.cons = some q := hcons.trans hq
      obtain ⟨hmem', pick, t', hstep, hcons', hprod', hb'⟩ := hb.pop hinv ht hn'
      have hs : StaleCounters.step N t (.pop pick) = some t' := by
        show t.cons.bind (StaleCounters.stepPop N t pick) = some t'
        rw [ht]
        exact hstep
      obtain ⟨xs', hxs, hinv'⟩ := hinv.pop ht hstep
      have hretires : leaving F s .pop = q.retires := by
        rw [hout, ht]
        rfl
      refine ⟨[.pop pick], t', fw, xs', (Machine.run_singleton _ _).trans hs, ?_, ⟨?_, ?_, ?_⟩,
        Nat.le_refl _, ?_, ?_⟩
      · rw [hcount]
        exact Machine.collect_singleton _ hs
      · rw [hprod']
        exact hf.prod
      · rw [hcons']
        exact hpc.symm
      · refine ⟨fr, ?_⟩
        show Behind N n.mem s.prodBuf n.buf t' fw fr
        rw [hmem, hmem', hbuf]
        exact hb'
      · rw [hretires]
        exact hinv'
      · rw [hretires]
        show xs ++ [] = _
        rw [List.append_nil, hxs]
  | aside ha hover hpc _ =>
      rw [← hcons] at hover
      obtain ⟨ds, hrun, hcollect, hinv'⟩ := exists_returned_pop hinv hover
      obtain ⟨hnone, hnil⟩ := popCounts_of_over hover
      have hb' : Behind N n.mem s.prodBuf n.buf { t with cons := none } fw fr :=
        (hb.consAside ha).calls _ _
      rcases hpc with hpc | hpc
      · exact Answered.silent hrun hcollect ⟨hf.prod, hpc.symm, fr, hb'⟩ (Nat.le_refl _) hinv'
          (hcount.trans hnone) rfl (hout.trans hnil)
      · obtain ⟨hcall, hinv''⟩ := step_callPop hinv' rfl
        refine Answered.silent (Machine.run_snoc_some.mpr ⟨_, hrun, hcall⟩) ?_
          ⟨hf.prod, hpc.symm, fr, hb'.calls _ _⟩ (Nat.le_refl _) hinv''
          (hcount.trans hnone) rfl (hout.trans hnil)
        rw [Machine.collect_snoc _ hrun hcall, hcollect]
        rfl

/-- **Every step behind the buffers is answered.** -/
theorem Follows.step (hf : Follows F s t fw) (hinv : StaleInv N t taken xs)
    (hs : step s e = some s') : Answered F s e s' t fw taken xs := by
  obtain ⟨fr, hb⟩ := hf.behind
  cases moves_of_step hs with
  | callPush item hp =>
      have ht : t.prod = none := by rw [hf.prod, hp]; rfl
      have hcall : (StaleCounters.machine T N).step t (.callPush item) =
          some { t with prod := some (.loadWrite item) } := by
        simp only [StaleCounters.machine, StaleCounters.step, ht]
      refine Answered.silent ((Machine.run_singleton _ _).trans hcall)
        (Machine.collect_singleton _ hcall)
        ⟨(F.push_view item).symm, hf.cons, fr, hb.calls _ _⟩ (Nat.le_refl _) ?_ rfl rfl rfl
      exact inv_setProd hinv (by rw [ht]; rfl) trivial rfl
  | callPop hc =>
      have ht : t.cons = none := by rw [hf.cons, hc]; rfl
      exact Answered.silent (Machine.run_nil t) rfl
        ⟨hf.prod, ht.trans F.pop_view.symm, fr, hb⟩ (Nat.le_refl _) hinv rfl rfl rfl
  | push p n hp hn => exact hf.push hinv hp hn
  | pop c n hc hn => exact hf.pop hinv hc hn
  | flushProd en rest hbuf =>
      rw [hbuf] at hb
      obtain ⟨fw', hle, hb'⟩ := hb.flushProd hinv
      exact Answered.silent (Machine.run_nil t) rfl ⟨hf.prod, hf.cons, fr, hb'⟩ hle hinv
        rfl rfl rfl
  | flushCons en rest hbuf =>
      rw [hbuf] at hb
      obtain ⟨fr', hb'⟩ := hb.flushCons
      exact Answered.silent (Machine.run_nil t) rfl ⟨hf.prod, hf.cons, fr', hb'⟩ (Nat.le_refl _)
        hinv rfl rfl rfl
  | spurious =>
      have hcons : t.cons = (s.cons.map Q.wake).bind F.inPop := by
        rw [hf.cons]
        exact (F.inPop_woken true s.cons).symm
      exact Answered.silent (Machine.run_nil t) rfl ⟨hf.prod, hcons, fr, hb⟩ (Nat.le_refl _) hinv
        rfl rfl rfl
  | retPush p ok hp hr =>
      have hover : PushPc.over t.prod = true := by
        rw [hf.prod, hp]
        exact F.push_over hr
      obtain ⟨ds, hrun, hcollect, hinv'⟩ := exists_returned_push hinv hover
      exact Answered.silent hrun hcollect
        ⟨rfl, hf.cons, fr, hb.calls _ _⟩ (Nat.le_refl _) hinv' rfl rfl rfl
  | retPop c res hc hr =>
      have hover : PopPc.over t.cons = true := by
        rw [hf.cons, hc]
        exact F.pop_over hr
      obtain ⟨ds, hrun, hcollect, hinv'⟩ := exists_returned_pop hinv hover
      exact Answered.silent hrun hcollect
        ⟨hf.prod, rfl, fr, hb.calls _ _⟩ (Nat.le_refl _) hinv' rfl rfl rfl

/-! ### What the callers see -/

/-- The item of a push that is in the queue and that the push has not yet reported. -/
def landed (F : BufferedFifo N Q) : Option Q.PushPc → List T
  | some p => if (F.pending p).isEmpty then [F.item p] else []
  | none => []

/-- Observer: the item of a push that returns true. -/
def put (F : BufferedFifo N Q) (s : State Q) : Event T → Option T
  | .retPush => if s.prod.bind Q.pushRet = some true then s.prod.map F.item else none
  | _ => none

/-- Observer: the item that a pop returns. -/
def got (s : State Q) : Event T → Option T
  | .retPop => (s.cons.bind Q.popRet).bind id
  | _ => none

/-- An item that enters the queue is the one of the push in progress. -/
theorem landed_step (hs : step s e = some s') :
    landed F s.prod ++ entering F s e = (put F s e).toList ++ landed F s'.prod := by
  cases moves_of_step hs with
  | callPush item hp =>
      have hpending := F.push_pending item
      rw [hp]
      simp [landed, entering, put, hpending]
  | push p n hp hn =>
      have hitem := F.item_step hn
      cases F.push_tso hn with
      | access q n' hq hn' hmem hbuf hpc hpending =>
          have hin : entering F s .push = q.accepts := by
            unfold entering
            rw [hp]
            show ((F.inPush p).map PushPc.accepts).getD [] = _
            rw [hq]
            rfl
          rw [hin, hp]
          have hone := F.pending_item p
          rw [hpending] at hone
          simp only [landed, put, hpending, hitem, Option.toList_none, List.nil_append]
          rcases hone with hnil | hsingle
          · rw [List.append_eq_nil_iff] at hnil
            simp [hnil.1, hnil.2]
          · rw [List.append_eq_singleton_iff] at hsingle
            obtain ⟨haccepts, hrest⟩ | ⟨haccepts, hrest⟩ := hsingle
            · simp [haccepts, hrest]
            · simp [haccepts, hrest]
      | aside ha hover hpc hpending =>
          have hin : entering F s .push = [] := by
            unfold entering
            rw [hp]
            exact (pushCounts_of_over hover).2
          rw [hin, hp]
          simp [landed, put, hpending, hitem]
  | retPush p ok hp hr =>
      have hok := (F.push_ret hr).2
      rw [hp]
      have hbind : (some p).bind Q.pushRet = some ok := hr
      cases ok with
      | true => simp [landed, entering, put, hp, hr, hok.mp rfl]
      | false =>
          have hne : F.pending p ≠ [] := fun hnil => absurd (hok.mpr hnil) (by simp)
          simp [landed, entering, put, hp, hr, hne]
  | _ => simp [entering, put]

/-- An item that leaves the queue is in the hands of the pop in progress. -/
theorem taken_step (hs : step s e = some s') :
    F.takenOf s.cons ++ leaving F s e = (got s e).toList ++ F.takenOf s'.cons := by
  cases moves_of_step hs with
  | callPop hc =>
      rw [hc]
      simp [leaving, got, Fifo.takenOf, F.pop_taken]
  | push p n hp hn => simp [leaving, got, F.takenOf_woken]
  | pop c n hc hn =>
      cases F.pop_tso hn with
      | access q n' hq hn' hmem hbuf hpc htaken =>
          have hout : leaving F s .pop = q.retires := by
            unfold leaving
            rw [hc]
            show ((F.inPop c).map PopPc.retires).getD [] = _
            rw [hq]
            rfl
          rw [hout, hc]
          exact htaken
      | aside ha hover hpc htaken =>
          have hout : leaving F s .pop = [] := by
            unfold leaving
            rw [hc]
            exact (popCounts_of_over hover).2
          rw [hout, hc, List.append_nil]
          exact htaken
  | spurious =>
      have hwoken := F.takenOf_woken true s.cons
      simp only [leaving, got, List.append_nil, Option.toList_none, List.nil_append]
      exact hwoken.symm
  | retPop c res hc hr =>
      have htaken := (F.pop_ret hr).2
      rw [hc]
      simp [leaving, got, hc, hr, Fifo.takenOf, htaken]
  | _ => simp [leaving, got]

/-! ### Runs -/

/-- A run behind the buffers, the run with stale views that follows it, and the items. -/
theorem follows_of_exec {es : List (Event T)} (h : (machine Q).Exec es s) :
    ∃ ds t fw taken xs, (StaleCounters.machine T N).Exec ds t ∧ StaleInv N t taken xs ∧
      (StaleCounters.machine T N).log StaleCounters.counted ds = (machine Q).log (counted F) es ∧
      Follows F s t fw ∧ (machine Q).log (put F) es ++ landed F s.prod = taken ++ xs ∧
      (machine Q).log got es ++ F.takenOf s.cons = taken := by
  refine Machine.Exec.induction (P := fun es s => ∃ ds t fw taken xs,
    (StaleCounters.machine T N).Exec ds t ∧ StaleInv N t taken xs ∧
      (StaleCounters.machine T N).log StaleCounters.counted ds = (machine Q).log (counted F) es ∧
      Follows F s t fw ∧ (machine Q).log (put F) es ++ landed F s.prod = taken ++ xs ∧
      (machine Q).log got es ++ F.takenOf s.cons = taken)
    ⟨[], _, 0, [], [], Machine.Exec.nil, StaleInv.initial, rfl, Follows.initial F, rfl, rfl⟩ ?_ h
  rintro es s e s' hex ⟨ds, t, fw, taken, xs, hds, hinv, hcounted, hf, hput, hgot⟩ hs
  obtain ⟨ds', t', fw', xs', hrun, hcollect, hf', -, hinv', hitems⟩ := hf.step hinv hs
  refine ⟨ds ++ ds', t', fw', taken ++ leaving F s e, xs', hds.append hrun, hinv', ?_, hf', ?_, ?_⟩
  · rw [Machine.log_append _ hds, hcollect, Machine.log_snoc _ hex hs, hcounted]
  · rw [Machine.log_snoc _ hex hs, List.append_assoc, ← landed_step hs, ← List.append_assoc, hput,
      List.append_assoc, hitems, List.append_assoc]
  · rw [Machine.log_snoc _ hex hs, List.append_assoc, ← taken_step hs, ← List.append_assoc, hgot]

/-- The counters and the slots, without the flag, say what the queue holds. -/
theorem contents_congr {m m' : Mem T W} (h : ∀ l, l ≠ .isSleeping_ → m l = m' l) :
    contents N m = contents N m' := by
  unfold contents held
  rw [h .read_ (by simp), h .write_ (by simp)]
  simp only [h (.data_ _) (by simp)]

/-- Every item that entered has left or is in the queue, in order. -/
structure InOrder (F : BufferedFifo N Q) (es : List (Event T)) (s : State Q) : Prop where
  order : ∃ xs, xs.length ≤ N.val ∧ (machine Q).log (put F) es ++ landed F s.prod =
    (machine Q).log got es ++ F.takenOf s.cons ++ xs
  settled : s.prod = none → s.cons = none → s.prodBuf = [] → s.consBuf = [] →
    (machine Q).log (put F) es = (machine Q).log got es ++ contents N s.mem
  noFault : s.cons.bind F.inPop ≠ some .fault

theorem InOrder.of_exec {es : List (Event T)} (h : (machine Q).Exec es s) : InOrder F es s := by
  obtain ⟨ds, t, fw, taken, xs, -, hinv, -, hf, hput, hgot⟩ := follows_of_exec (F := F) h
  refine ⟨⟨xs, hinv.queue.le, ?_⟩, ?_, ?_⟩
  · rw [hput, hgot]
  · intro hprod hcons hbp hbc
    obtain ⟨fr, hb⟩ := hf.behind
    have ht : t.cons = none := by rw [hf.cons, hcons]; rfl
    have hmem : ∀ l, l ≠ .isSleeping_ → s.mem l = t.mem l := by
      intro l hl
      rw [hb.mem l hl, hbp, hbc]
      rfl
    have hcontents := hinv.queue.contents_eq
    rw [ht] at hcontents
    rw [contents_congr hmem, hcontents]
    rw [hprod] at hput
    rw [hcons] at hgot
    simp only [landed, Fifo.takenOf, List.append_nil] at hput hgot
    rw [hput, hgot]
    rfl
  · intro hfault
    have hcons := hinv.queue.cons
    rw [hf.cons, hfault] at hcons
    exact hcons

/-- A run with stale views in which the same items enter and leave in the same order, and
which ends at the same accesses, with the memory that the flushes lead to. -/
def SeenStale (F : BufferedFifo N Q) (es : List (Event T)) (s : State Q) : Prop :=
  ∃ ds t, (StaleCounters.machine T N).Exec ds t ∧
    (StaleCounters.machine T N).log StaleCounters.counted ds = (machine Q).log (counted F) es ∧
    t.prod = s.prod.bind F.inPush ∧ t.cons = s.cons.bind F.inPop ∧
    ∀ l, l ≠ .isSleeping_ → t.mem l = Instr.view (Instr.view s.mem s.consBuf) s.prodBuf l

theorem SeenStale.of_exec {es : List (Event T)} (h : (machine Q).Exec es s) :
    SeenStale F es s := by
  obtain ⟨ds, t, fw, taken, xs, hds, -, hcounted, hf, -, -⟩ := follows_of_exec (F := F) h
  obtain ⟨fr, hb⟩ := hf.behind
  exact ⟨ds, t, hds, hcounted, hf.prod, hf.cons, hb.mem⟩

end StoreBuffers

/-! ### The two queue classes -/

/-- The item a push was called with. -/
def PushPc.item : PushPc T W → T
  | .loadWrite item => item
  | .loadRead item _ => item
  | .construct item _ => item
  | .publish item _ => item
  | .done item _ => item

def WaitPushPc.item : WaitPushPc T W → T
  | .queue p => p.item
  | .loadSleeping item => item
  | .storeSleeping item => item
  | .notify item => item
  | .done item _ => item

variable {m : Mem T W} {b : Buf T W} {st : StopState}

theorem PushPc.pending_item (p : PushPc T W) : p.pending = [] ∨ p.pending = [p.item] := by
  cases p with
  | done item ok => cases ok <;> simp [PushPc.pending, PushPc.item]
  | _ => exact Or.inr rfl

/-- An access leaves the item pending, or puts it in. -/
theorem PushPc.tso_pending {p : PushPc T W}
    {n : Instr.NextTso Loc (Cell T W) StopState (PushPc T W)} (h : (p.code N).tso m b st = some n) :
    n.pc.item = p.item ∧ p.pending = p.accepts ++ n.pc.pending := by
  cases p with
  | loadWrite item =>
      simp only [PushPc.code, Instr.tso_load, Option.some.injEq] at h
      subst h
      exact ⟨rfl, rfl⟩
  | loadRead item w =>
      simp only [PushPc.code, Instr.tso_load, Option.some.injEq] at h
      subst h
      by_cases hfull : w - Instr.view m b .read_ = BitVec.ofNat W N.val
      · rw [if_pos hfull]
        exact ⟨rfl, rfl⟩
      · rw [if_neg hfull]
        exact ⟨rfl, rfl⟩
  | construct item w =>
      rw [PushPc.code, Instr.tso_store (by simp), Option.some.injEq] at h
      subst h
      exact ⟨rfl, rfl⟩
  | publish item w =>
      rw [PushPc.code, Instr.tso_store (by simp), Option.some.injEq] at h
      subst h
      exact ⟨rfl, rfl⟩
  | done item ok => simp [PushPc.code] at h

/-- An access takes nothing out, or the item it gives up the slot of. -/
theorem PopPc.tso_taken {c : PopPc T W}
    {n : Instr.NextTso Loc (Cell T W) StopState (PopPc T W)} (h : (c.code N).tso m b st = some n) :
    c.taken ++ c.retires = n.pc.taken := by
  cases c with
  | loadRead =>
      simp only [PopPc.code, Instr.tso_load, Option.some.injEq] at h
      subst h
      rfl
  | loadWrite r =>
      simp only [PopPc.code, Instr.tso_load, Option.some.injEq] at h
      subst h
      by_cases hempty : r = Instr.view m b .write_
      · rw [if_pos hempty]
        rfl
      · rw [if_neg hempty]
        rfl
  | move r =>
      simp only [PopPc.code, Instr.tso_load, Option.some.injEq] at h
      subst h
      cases Instr.view m b (.data_ (r.toNat % N.val)) with
      | none => rfl
      | some item => rfl
  | destroy r item =>
      rw [PopPc.code, Instr.tso_store (by simp), Option.some.injEq] at h
      subst h
      rfl
  | publish r item =>
      rw [PopPc.code, Instr.tso_store (by simp), Option.some.injEq] at h
      subst h
      rfl
  | done res => simp [PopPc.code] at h
  | fault => simp [PopPc.code] at h

theorem SpinPopPc.popTso {c : SpinPopPc T W}
    {n : Instr.NextTso Loc (Cell T W) StopState (SpinPopPc T W)}
    (h : (c.code N).tso m b st = some n) : (spinFifo N).PopTso c m b st n := by
  cases c with
  | checkStop =>
      simp only [SpinPopPc.code, Instr.tso_lib, Option.some.injEq] at h
      subst h
      by_cases hreq : st.requested = true
      · refine .aside Aside.quiet rfl (Or.inl ?_) ?_ <;> simp [hreq, spinFifo, inPop, taken]
      · refine .aside Aside.quiet rfl (Or.inr ?_) ?_ <;>
          simp [hreq, spinFifo, inPop, taken, PopPc.taken]
  | queue q =>
      rcases PopPc.call_tso h with ⟨res, rfl, rfl⟩ | ⟨n', hn', rfl⟩
      · cases res with
        | none => exact .aside Aside.quiet rfl (Or.inl rfl) rfl
        | some item => exact .aside Aside.quiet rfl (Or.inl rfl) rfl
      · exact .access q n' rfl hn' rfl rfl rfl (PopPc.tso_taken hn')
  | done res => simp [SpinPopPc.code] at h

def spinBuffered (N : Capacity W) : BufferedFifo N (SpinSpscQueue N : QueueCode T W) where
  toFifo := spinFifo N
  item := PushPc.item
  push_item _ := rfl
  pending_item := PushPc.pending_item
  item_step h := (PushPc.tso_pending h).1
  push_tso {p m b st n} h := .access p n rfl h rfl rfl rfl (PushPc.tso_pending h).2
  push_over := by
    intro p ok h
    cases p with
    | done item b => rfl
    | _ => simp [PushPc.ret] at h
  pop_tso := SpinPopPc.popTso
  pop_over := by
    intro c res h
    cases c with
    | done r => rfl
    | _ => simp [SpinPopPc.ret] at h

theorem WaitPushPc.pending_item (p : WaitPushPc T W) : p.pending = [] ∨ p.pending = [p.item] := by
  cases p with
  | queue p => exact p.pending_item
  | done item ok => cases ok <;> simp [WaitPushPc.pending, WaitPushPc.item]
  | _ => exact Or.inl rfl

theorem WaitPushPc.pushTso {p : WaitPushPc T W}
    {n : Instr.NextTso Loc (Cell T W) StopState (WaitPushPc T W)}
    (h : (p.code N).tso m b st = some n) : (waitableFifo N).PushTso p m b st n := by
  cases WaitPushPc.steps_of_tso h with
  | access q n' hn' => exact .access q n' rfl hn' rfl rfl rfl (PushPc.tso_pending hn').2
  | storeSleeping item => exact .aside (Aside.buffered false) rfl rfl rfl
  | _ => exact .aside Aside.quiet rfl rfl rfl

theorem WaitPushPc.tso_item {p : WaitPushPc T W}
    {n : Instr.NextTso Loc (Cell T W) StopState (WaitPushPc T W)}
    (h : (p.code N).tso m b st = some n) : n.pc.item = p.item := by
  cases WaitPushPc.steps_of_tso h with
  | access q n' hn' => exact (PushPc.tso_pending hn').1
  | _ => rfl

theorem WaitPopPc.popTso {c : WaitPopPc T W}
    {n : Instr.NextTso Loc (Cell T W) StopState (WaitPopPc T W)}
    (h : (c.code N).tso m b st = some n) : (waitableFifo N).PopTso c m b st n := by
  cases c with
  | registerCallback =>
      simp only [WaitPopPc.code, Instr.tso_lib, Option.some.injEq] at h
      subst h
      refine .aside Aside.quiet rfl (Or.inl ?_) ?_ <;> by_cases hreq : st.requested = true <;>
        simp [hreq, waitableFifo, inPop, taken]
  | callbackStore =>
      rw [WaitPopPc.code, Instr.tso_store (by simp), Option.some.injEq] at h
      subst h
      exact .aside (Aside.buffered false) rfl (Or.inl rfl) rfl
  | callbackNotify =>
      simp only [WaitPopPc.code, Instr.tso_notify, Option.some.injEq] at h
      subst h
      exact .aside Aside.quiet rfl (Or.inl rfl) rfl
  | checkStop =>
      simp only [WaitPopPc.code, Instr.tso_lib, Option.some.injEq] at h
      subst h
      by_cases hreq : st.requested = true
      · refine .aside Aside.quiet rfl (Or.inl ?_) ?_ <;> simp [hreq, waitableFifo, inPop, taken]
      · refine .aside Aside.quiet rfl (Or.inr ?_) ?_ <;>
          simp [hreq, waitableFifo, inPop, taken, PopPc.taken]
  | firstPop q =>
      rcases PopPc.call_tso h with ⟨res, rfl, rfl⟩ | ⟨n', hn', rfl⟩
      · cases res with
        | none => exact .aside Aside.quiet rfl (Or.inl rfl) rfl
        | some item => exact .aside Aside.quiet rfl (Or.inl rfl) rfl
      · exact .access q n' rfl hn' rfl rfl rfl (PopPc.tso_taken hn')
  | storeTrue =>
      obtain ⟨hb, rfl⟩ := Instr.tso_store_seqCst h
      exact .aside (Aside.atOnce true hb) rfl (Or.inr rfl) rfl
  | secondPop q =>
      rcases PopPc.call_tso h with ⟨res, rfl, rfl⟩ | ⟨n', hn', rfl⟩
      · cases res with
        | none => exact .aside Aside.quiet rfl (Or.inl rfl) rfl
        | some item => exact .aside Aside.quiet rfl (Or.inl rfl) rfl
      · exact .access q n' rfl hn' rfl rfl rfl (PopPc.tso_taken hn')
  | storeFalse item =>
      rw [WaitPopPc.code, Instr.tso_store (by simp), Option.some.injEq] at h
      subst h
      exact .aside (Aside.buffered false) rfl (Or.inl rfl) rfl
  | wait =>
      simp only [WaitPopPc.code, Instr.tso_load, Option.some.injEq] at h
      subst h
      refine .aside Aside.quiet rfl (Or.inl ?_) ?_ <;>
        by_cases hflag : Instr.view m b .isSleeping_ = true <;>
          simp [hflag, waitableFifo, inPop, taken]
  | blocked => simp [WaitPopPc.code] at h
  | deregisterCallback res =>
      simp only [WaitPopPc.code, Instr.tso_lib, Option.some.injEq] at h
      subst h
      refine .aside Aside.quiet rfl (Or.inl ?_) ?_ <;> by_cases hrun : st.callback = .running <;>
        simp [hrun, waitableFifo, inPop, taken]
  | done res => simp [WaitPopPc.code] at h

def waitableBuffered (N : Capacity W) : BufferedFifo N (WaitableSpscQueue N : QueueCode T W) where
  toFifo := waitableFifo N
  item := WaitPushPc.item
  push_item _ := rfl
  pending_item := WaitPushPc.pending_item
  item_step := WaitPushPc.tso_item
  push_tso := WaitPushPc.pushTso
  push_over := by
    intro p ok h
    cases p with
    | done item b => rfl
    | _ => simp [WaitPushPc.ret] at h
  pop_tso := WaitPopPc.popTso
  pop_over := by
    intro c res h
    cases c with
    | done r => rfl
    | _ => simp [WaitPopPc.ret] at h

namespace StoreBuffers

/--
**No store buffer loses, repeats or reorders an item.**  For both queue classes and every
interleaving of the threads and the flushes: the items that pushes have reported as put in,
with the one that has landed and is not reported yet, are those that pops have returned,
the one a pop has taken, and at most a capacity that wait in the queue, in this order.
With no call in progress and nothing buffered these are the objects in the slots.  No pop
moves out of a slot without an object.
-/
theorem items_in_order (N : Capacity W) :
    (∀ es s, (machine (SpinSpscQueue N : QueueCode T W)).Exec es s →
      InOrder (spinBuffered N) es s) ∧
    (∀ es s, (machine (WaitableSpscQueue N : QueueCode T W)).Exec es s →
      InOrder (waitableBuffered N) es s) :=
  ⟨fun _ _ h => InOrder.of_exec h, fun _ _ h => InOrder.of_exec h⟩

/-- A push on two slots returns before its stores are visible, so the pop first finds
nothing.  Later the pop has returned the item before its own stores are visible, so the
third push finds the queue full. -/
def lateRun : List (Event Nat) :=
  .callPush 7 :: List.replicate 4 .push ++ [.retPush, .callPop] ++ List.replicate 4 .pop ++
    [.flushProd, .flushProd] ++ List.replicate 7 .pop ++ [.retPop] ++
    .callPush 8 :: List.replicate 4 .push ++ [.retPush, .callPush 9, .push, .push, .retPush]

theorem lateRun_goes :
    ((machine (SpinSpscQueue StaleCounters.slots2 : QueueCode Nat 64)).run
      (machine (SpinSpscQueue StaleCounters.slots2 : QueueCode Nat 64)).init
      lateRun).isSome = true := by
  decide +kernel

theorem lostRun_goes : ((machine (WaitableSpscQueue slots128 : QueueCode Nat 64)).run
    (machine (WaitableSpscQueue slots128 : QueueCode Nat 64)).init lostRun).isSome = true := by
  decide +kernel

/-- The item whose wake-up is lost is still in the queue. -/
theorem items_in_order_lateRun :
    (machine (SpinSpscQueue StaleCounters.slots2 : QueueCode Nat 64)).log
      (put (spinBuffered StaleCounters.slots2)) lateRun = [7, 8] ∧
    (machine (WaitableSpscQueue slots128 : QueueCode Nat 64)).log
      (put (waitableBuffered slots128)) lostRun = [7] ∧
    InOrder (spinBuffered StaleCounters.slots2) lateRun
      ((machine (SpinSpscQueue StaleCounters.slots2 : QueueCode Nat 64)).final lateRun
        lateRun_goes) ∧
    InOrder (waitableBuffered slots128) lostRun
      ((machine (WaitableSpscQueue slots128 : QueueCode Nat 64)).final lostRun lostRun_goes) :=
  ⟨by decide +kernel, by decide +kernel,
    (items_in_order StaleCounters.slots2).1 _ _ (Machine.exec_final lateRun_goes),
    (items_in_order slots128).2 _ _ (Machine.exec_final lostRun_goes)⟩

/--
**Behind store buffers the queue only ever sees counters that are out of date.**  To every
run of either class belongs a run of `CustomSpscQueue` with stale views, in which the same
items enter and leave the queue in the same order and which stands at the same accesses,
with the memory that the outstanding flushes lead to.
-/
theorem buffers_refine_stale (N : Capacity W) :
    (∀ es s, (machine (SpinSpscQueue N : QueueCode T W)).Exec es s →
      SeenStale (spinBuffered N) es s) ∧
    (∀ es s, (machine (WaitableSpscQueue N : QueueCode T W)).Exec es s →
      SeenStale (waitableBuffered N) es s) :=
  ⟨fun _ _ h => SeenStale.of_exec h, fun _ _ h => SeenStale.of_exec h⟩

theorem buffers_refine_stale_lateRun :
    SeenStale (spinBuffered StaleCounters.slots2) lateRun
      ((machine (SpinSpscQueue StaleCounters.slots2 : QueueCode Nat 64)).final lateRun
        lateRun_goes) ∧
    SeenStale (waitableBuffered slots128) lostRun
      ((machine (WaitableSpscQueue slots128 : QueueCode Nat 64)).final lostRun lostRun_goes) :=
  ⟨(buffers_refine_stale StaleCounters.slots2).1 _ _ (Machine.exec_final lateRun_goes),
    (buffers_refine_stale slots128).2 _ _ (Machine.exec_final lostRun_goes)⟩

end StoreBuffers

end MarketData
