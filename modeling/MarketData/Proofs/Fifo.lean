/-
A queue class as its users rely on it: nothing is lost, repeated or reordered.

`Fifo` is what a `QueueCode` has to show for that.  It says where in an operation
the underlying `CustomSpscQueue` is being accessed, which item a push has still to
put in and which item a pop has taken out and not yet returned, and asks for one
law per operation: a step moves items between these places and the ring, in order.

From the laws follows one equation for every step of `MarketDataQueue.machine`,
`Fifo.flow_step`: what flowed in before, plus what enters with a call, is what
leaves with a return, what flows on, and what a failed push hands back.
`spinFifo` and `waitableFifo` show the two queue classes to be such queues.
-/
import MarketData.Proofs.QueueSteps

namespace MarketData

open Lib

variable {T : Type} {W : Nat} {N : Capacity W}

/-! ### The interface -/

/-- A queue class over `CustomSpscQueue` that keeps items in order. -/
structure Fifo (N : Capacity W) (Q : QueueCode T W) where
  inPush : Q.PushPc → Option (PushPc T W)
  inPop : Q.PopPc → Option (PopPc T W)
  pending : Q.PushPc → List T
  taken : Q.PopPc → List T
  push_view : ∀ item, inPush (Q.push item) = some (.loadWrite item)
  push_pending : ∀ item, pending (Q.push item) = [item]
  pending_le : ∀ p, (pending p).length ≤ 1
  push_step : ∀ {p m st n c xs}, (Q.pushCode p).sc m st = some n → QueueInv N m (inPush p) c xs →
    ∃ ys, QueueInv N n.mem (inPush n.pc) c (xs ++ ys) ∧ pending p = ys ++ pending n.pc
  push_ret : ∀ {p ok}, Q.pushRet p = some ok →
    PushPc.built (inPush p) = 0 ∧ (ok = true ↔ pending p = [])
  pop_view : inPop Q.pop = none
  pop_taken : taken Q.pop = []
  inHand_le : ∀ c, (taken c ++ PopPc.moved (inPop c)).length ≤ 1
  pop_step : ∀ {c m st n p xs}, (Q.popCode c).sc m st = some n → QueueInv N m p (inPop c) xs →
    ∃ xs', QueueInv N n.mem p (inPop n.pc) xs' ∧ taken c ++ xs = taken n.pc ++ xs'
  pop_ret : ∀ {c res}, Q.popRet c = some res →
    PopPc.destroyed (inPop c) = 0 ∧ taken c = res.toList
  wake_view : ∀ c, inPop (Q.wake c) = inPop c
  wake_taken : ∀ c, taken (Q.wake c) = taken c

namespace Fifo

variable {Q : QueueCode T W} (F : Fifo N Q)

open MarketDataQueue

/-- What a pop has in hand: moved out of the ring, not yet returned. -/
def inHand : Option Q.PopPc → List T
  | some c => F.taken c ++ PopPc.moved (F.inPop c)
  | none => []

/-- What a push is still trying to put in. -/
def trying : Option Q.PushPc → List T
  | some p => F.pending p
  | none => []

/-- Everything between the caller of `push` and the caller of `pop`, oldest first. -/
def flow (s : State Q) : List T := F.inHand s.cons ++ contents N s.mem ++ F.trying s.prod

/-- What a call brings in. -/
def entering : Event T → List T
  | .callPush item => [item]
  | _ => []

/-- What a return takes away. -/
def leaving (s : State Q) : Event T → List T
  | .retPop => ((s.cons.bind Q.popRet).bind id).toList
  | _ => []

/-- What a failed push hands back. -/
def refused (s : State Q) : Event T → List T
  | .retPush => F.trying s.prod
  | _ => []

/-- The ring holds `xs` while the two calls are where they are. -/
def Holds (s : State Q) (xs : List T) : Prop :=
  QueueInv N s.mem (s.prod.bind F.inPush) (s.cons.bind F.inPop) xs

/-- The ring invariant holds for some list of items. -/
def Inv (s : State Q) : Prop := ∃ xs, F.Holds s xs

theorem inv_initial : F.Inv (machine Q).init := ⟨[], QueueInv.initial⟩

/-- The items a pop has taken, counter included. -/
def takenOf : Option Q.PopPc → List T
  | some c => F.taken c
  | none => []

/-- The flow, read off the invariant's list. -/
theorem flow_eq {s : State Q} {xs : List T} (h : F.Holds s xs) :
    F.flow s = F.takenOf s.cons ++ xs ++ F.trying s.prod := by
  have hmoved := QueueInv.moved_append_contents h
  unfold flow
  rcases hc : s.cons with _ | c
  · rw [hc] at hmoved
    have hcontents : contents N s.mem = xs := hmoved
    simp [inHand, takenOf, hcontents]
  · rw [hc] at hmoved
    have hcontents : PopPc.moved (F.inPop c) ++ contents N s.mem = xs := hmoved
    simp [inHand, takenOf, ← hcontents]

theorem takenOf_woken (b : Bool) (c : Option Q.PopPc) :
    F.takenOf (woken b c) = F.takenOf c := by
  cases b with
  | false => rfl
  | true =>
      cases c with
      | none => rfl
      | some c => exact F.wake_taken c

theorem inPop_woken (b : Bool) (c : Option Q.PopPc) :
    (woken b c).bind F.inPop = c.bind F.inPop := by
  cases b with
  | false => rfl
  | true =>
      cases c with
      | none => rfl
      | some c => exact F.wake_view c

/-- A stop request writes the sleeping flag and nothing else of the queue. -/
theorem holds_requestStop {s : State Q} {xs : List T} {p : StopPc}
    {n : Instr.Next Loc (Cell T W) StopState StopPc} (h : F.Holds s xs)
    (hn : p.code.sc s.mem s.stop = some n) :
    QueueInv N n.mem (s.prod.bind F.inPush) (s.cons.bind F.inPop) xs := by
  cases StopPc.steps_of_sc hn with
  | callbackStore => exact h.set_isSleeping false
  | _ => exact h

/-- **Conservation, step by step.**  Each step keeps the ring invariant, and what
flowed before plus what enters is what leaves, what flows on and what is refused. -/
theorem flow_step {s s' : State Q} {e : Event T} (hinv : F.Inv s) (hs : step s e = some s') :
    F.Inv s' ∧ F.flow s ++ entering e = leaving s e ++ F.flow s' ++ F.refused s e := by
  obtain ⟨xs, hxs⟩ := hinv
  have hflow := F.flow_eq hxs
  unfold Holds at hxs
  cases moves_of_step hs with
  | callPush item hp =>
      rw [hp] at hxs
      have hnew : F.Holds { s with prod := some (Q.push item) } xs := by
        show QueueInv N s.mem (F.inPush (Q.push item)) _ xs
        rw [F.push_view]
        exact hxs.set_prod rfl trivial
      refine ⟨⟨xs, hnew⟩, ?_⟩
      rw [hflow, F.flow_eq hnew, hp]
      simp [trying, F.push_pending, entering, leaving, refused]
  | callPop hc =>
      rw [hc] at hxs
      have hnew : F.Holds { s with cons := some Q.pop } xs := by
        show QueueInv N s.mem _ (F.inPop Q.pop) xs
        rw [F.pop_view]
        exact hxs
      refine ⟨⟨xs, hnew⟩, ?_⟩
      rw [hflow, F.flow_eq hnew, hc]
      simp [takenOf, F.pop_taken, entering, leaving, refused]
  | callRequestStop hp =>
      refine ⟨⟨xs, hxs⟩, ?_⟩
      simp [flow, entering, leaving, refused]
  | push p n hp hn =>
      rw [hp] at hxs
      obtain ⟨ys, hys, hpend⟩ := F.push_step hn hxs
      have hnew : F.Holds { s with mem := n.mem, stop := n.obj, prod := some n.pc,
                                   cons := woken n.woken s.cons } (xs ++ ys) := by
        show QueueInv N n.mem (F.inPush n.pc) ((woken n.woken s.cons).bind F.inPop) (xs ++ ys)
        rw [F.inPop_woken]
        exact hys
      refine ⟨⟨xs ++ ys, hnew⟩, ?_⟩
      rw [hflow, F.flow_eq hnew, hp, F.takenOf_woken]
      simp [trying, hpend, entering, leaving, refused]
  | pop c n hc hn =>
      rw [hc] at hxs
      obtain ⟨xs', hxs', htaken⟩ := F.pop_step hn hxs
      have hnew : F.Holds { s with mem := n.mem, stop := n.obj, cons := some n.pc } xs' := hxs'
      refine ⟨⟨xs', hnew⟩, ?_⟩
      rw [hflow, F.flow_eq hnew, hc]
      simp only [takenOf, htaken, entering, leaving, refused, List.nil_append, List.append_nil]
  | requestStop p n hp hn =>
      have hnew : F.Holds { s with mem := n.mem, stop := n.obj, stopper := some n.pc,
                                   cons := woken n.woken s.cons } xs := by
        show QueueInv N n.mem _ ((woken n.woken s.cons).bind F.inPop) xs
        rw [F.inPop_woken]
        exact F.holds_requestStop hxs hn
      refine ⟨⟨xs, hnew⟩, ?_⟩
      rw [hflow, F.flow_eq hnew, F.takenOf_woken]
      simp [entering, leaving, refused]
  | spurious =>
      have hnew : F.Holds { s with cons := s.cons.map Q.wake } xs := by
        show QueueInv N s.mem _ ((woken true s.cons).bind F.inPop) xs
        rw [F.inPop_woken]
        exact hxs
      refine ⟨⟨xs, hnew⟩, ?_⟩
      have htaken : F.takenOf (s.cons.map Q.wake) = F.takenOf s.cons := F.takenOf_woken true _
      rw [hflow, F.flow_eq hnew, htaken]
      simp [entering, leaving, refused]
  | retPush p ok hp hr =>
      rw [hp] at hxs
      have hnew : F.Holds { s with prod := none } xs :=
        hxs.set_prod (F.push_ret hr).1.symm trivial
      refine ⟨⟨xs, hnew⟩, ?_⟩
      rw [hflow, F.flow_eq hnew]
      simp [trying, entering, leaving, refused]
  | retPop c res hc hr =>
      rw [hc] at hxs
      obtain ⟨hdestroyed, htaken⟩ := F.pop_ret hr
      have hnew : F.Holds { s with cons := none } xs := hxs.set_cons hdestroyed.symm trivial
      refine ⟨⟨xs, hnew⟩, ?_⟩
      rw [hflow, F.flow_eq hnew, hc]
      simp [takenOf, htaken, hr, hc, entering, leaving, refused]

/-! ### What a caller of the queue relies on -/

/-- The events inside calls, and the call of `request_stop`. -/
def isAccess : Event T → Bool
  | .push => true
  | .pop => true
  | .callRequestStop => true
  | .requestStop => true
  | .spurious => true
  | _ => false

theorem flow_access {s s' : State Q} {e : Event T} (hinv : F.Inv s) (hs : step s e = some s')
    (he : isAccess e = true) : F.Inv s' ∧ F.flow s = F.flow s' := by
  obtain ⟨hinv', hflow⟩ := F.flow_step hinv hs
  refine ⟨hinv', ?_⟩
  cases e with
  | push => simpa [entering, leaving, refused] using hflow
  | pop => simpa [entering, leaving, refused] using hflow
  | callRequestStop => simpa [entering, leaving, refused] using hflow
  | requestStop => simpa [entering, leaving, refused] using hflow
  | spurious => simpa [entering, leaving, refused] using hflow
  | _ => exact absurd he (by simp [isAccess])

/-- Inside calls no call begins or ends, and a push does not take up another item. -/
theorem calls_access {s s' : State Q} {e : Event T} (hinv : F.Inv s) (hs : step s e = some s')
    (he : isAccess e = true) :
    (s.prod = none → s'.prod = none) ∧ F.trying s'.prod <:+ F.trying s.prod ∧
      (s.cons = none → s'.cons = none) := by
  obtain ⟨xs, hxs⟩ := hinv
  have hwoken : ∀ b, s.cons = none → woken b s.cons = none := by
    intro b hnone
    rw [hnone]
    cases b <;> rfl
  cases moves_of_step hs with
  | push p n hp hn =>
      unfold Holds at hxs
      rw [hp] at hxs
      obtain ⟨ys, -, hpend⟩ := F.push_step hn hxs
      refine ⟨fun hnone => absurd (hnone.symm.trans hp) (by simp), ?_, hwoken _⟩
      rw [hp]
      exact ⟨ys, hpend.symm⟩
  | pop c n hc hn =>
      exact ⟨id, List.suffix_rfl, fun hnone => absurd (hnone.symm.trans hc) (by simp)⟩
  | callRequestStop h => exact ⟨id, List.suffix_rfl, id⟩
  | requestStop p n hp hn => exact ⟨id, List.suffix_rfl, hwoken _⟩
  | spurious => exact ⟨id, List.suffix_rfl, hwoken true⟩
  | _ => exact absurd he (by simp [isAccess])

theorem flow_callPush {s s' : State Q} {item : T} (hinv : F.Inv s)
    (hs : step s (.callPush item) = some s') :
    F.Inv s' ∧ F.flow s ++ [item] = F.flow s' ∧ F.trying s'.prod = [item] ∧ s'.cons = s.cons := by
  obtain ⟨hinv', hflow⟩ := F.flow_step hinv hs
  refine ⟨hinv', by simpa [entering, leaving, refused] using hflow, ?_⟩
  cases moves_of_step hs with
  | callPush _ h => exact ⟨F.push_pending item, rfl⟩

/-- A push that returns false hands its item back. -/
theorem flow_retPush {s s' : State Q} {ok : Bool} (hinv : F.Inv s)
    (hs : step s .retPush = some s') (hret : s.prod.bind Q.pushRet = some ok) :
    F.Inv s' ∧ F.flow s = F.flow s' ++ F.trying s.prod ∧ (ok = true ↔ F.trying s.prod = []) ∧
      s'.prod = none ∧ s'.cons = s.cons := by
  obtain ⟨hinv', hflow⟩ := F.flow_step hinv hs
  refine ⟨hinv', by simpa [entering, leaving, refused] using hflow, ?_⟩
  obtain ⟨p, hp, hpret⟩ := Option.bind_eq_some_iff.mp hret
  have hok := (F.push_ret hpret).2
  rw [hp]
  cases moves_of_step hs with
  | retPush _ _ _ _ => exact ⟨hok, rfl, rfl⟩

theorem flow_callPop {s s' : State Q} (hinv : F.Inv s) (hs : step s .callPop = some s') :
    F.Inv s' ∧ F.flow s = F.flow s' ∧ s'.prod = s.prod := by
  obtain ⟨hinv', hflow⟩ := F.flow_step hinv hs
  refine ⟨hinv', by simpa [entering, leaving, refused] using hflow, ?_⟩
  cases moves_of_step hs with
  | callPop h => rfl

/-- A pop returns the item at the front. -/
theorem flow_retPop {s s' : State Q} {res : Option T} (hinv : F.Inv s)
    (hs : step s .retPop = some s') (hret : s.cons.bind Q.popRet = some res) :
    F.Inv s' ∧ F.flow s = res.toList ++ F.flow s' ∧ s'.prod = s.prod ∧ s'.cons = none := by
  obtain ⟨hinv', hflow⟩ := F.flow_step hinv hs
  have hleaving : leaving s .retPop = res.toList := by
    unfold leaving
    rw [hret]
    rfl
  refine ⟨hinv', ?_, ?_⟩
  · rw [hleaving] at hflow
    simpa [entering, refused] using hflow
  · cases moves_of_step hs with
    | retPop _ _ _ _ => exact ⟨rfl, rfl⟩

end Fifo

/-! ### `SpinSpscQueue` -/

def SpinPopPc.inPop : SpinPopPc T W → Option (PopPc T W)
  | .queue p => some p
  | _ => none

def SpinPopPc.taken : SpinPopPc T W → List T
  | .checkStop => []
  | .queue p => p.taken
  | .done res => res.toList

/-- A push that returns has nothing half built, and succeeded if nothing is pending. -/
theorem PushPc.of_ret {p : PushPc T W} {ok : Bool} (h : p.ret = some ok) :
    PushPc.built (some p) = 0 ∧ (ok = true ↔ p.pending = []) := by
  cases p with
  | done item b =>
      simp only [PushPc.ret, Option.some.injEq] at h
      subst h
      refine ⟨rfl, ?_⟩
      cases b <;> simp [PushPc.pending]
  | _ => simp [PushPc.ret] at h

theorem SpinPopPc.step_taken {c : SpinPopPc T W} {m : Mem T W} {st : StopState}
    {n : Instr.Next Loc (Cell T W) StopState (SpinPopPc T W)} {p : Option (PushPc T W)}
    {xs : List T} (hn : (c.code N).sc m st = some n) (h : QueueInv N m p c.inPop xs) :
    ∃ xs', QueueInv N n.mem p n.pc.inPop xs' ∧ c.taken ++ xs = n.pc.taken ++ xs' := by
  cases c with
  | checkStop =>
      simp only [SpinPopPc.code, Instr.sc_lib, Option.some.injEq] at hn
      subst hn
      by_cases hreq : st.requested = true
      · rw [if_pos hreq]
        exact ⟨xs, h, rfl⟩
      · rw [if_neg hreq]
        exact ⟨xs, h.set_cons rfl trivial, rfl⟩
  | queue q =>
      rcases PopPc.call_cases hn with ⟨res, rfl, rfl⟩ | ⟨n', hn', rfl⟩
      · refine ⟨xs, ?_, ?_⟩
        · cases res <;> exact h.set_cons rfl trivial
        · cases res <;> rfl
      · obtain ⟨xs', hxs, hinv⟩ := QueueInv.pop_step h hn'
        refine ⟨xs', hinv, ?_⟩
        show q.taken ++ xs = n'.pc.taken ++ xs'
        rw [PopPc.taken_step hn', hxs, List.append_assoc]
  | done res => simp [SpinPopPc.code] at hn

def spinFifo (N : Capacity W) : Fifo N (SpinSpscQueue N : QueueCode T W) where
  inPush := some
  inPop := SpinPopPc.inPop
  pending := PushPc.pending
  taken := SpinPopPc.taken
  push_view _ := rfl
  push_pending _ := rfl
  pending_le := PushPc.pending_le
  push_step hn h := ⟨_, h.push_step hn, PushPc.pending_step hn⟩
  push_ret h := PushPc.of_ret h
  pop_view := rfl
  pop_taken := rfl
  inHand_le c := by
    cases c with
    | queue p => exact PopPc.inHand_le p
    | checkStop => simp [SpinPopPc.taken, SpinPopPc.inPop, PopPc.moved]
    | done res => cases res <;> simp [SpinPopPc.taken, SpinPopPc.inPop, PopPc.moved]
  pop_step hn h := SpinPopPc.step_taken hn h
  pop_ret := by
    intro c res h
    cases c with
    | done r =>
        simp only [SpinPopPc.ret, Option.some.injEq] at h
        subst h
        exact ⟨rfl, rfl⟩
    | _ => simp [SpinPopPc.ret] at h
  wake_view _ := rfl
  wake_taken _ := rfl

/-! ### `WaitableSpscQueue` -/

def WaitPushPc.inPush : WaitPushPc T W → Option (PushPc T W)
  | .queue p => some p
  | _ => none

def WaitPushPc.pending : WaitPushPc T W → List T
  | .queue p => p.pending
  | .done item ok => if ok then [] else [item]
  | _ => []

def WaitPopPc.inPop : WaitPopPc T W → Option (PopPc T W)
  | .firstPop p => some p
  | .secondPop p => some p
  | _ => none

def WaitPopPc.taken : WaitPopPc T W → List T
  | .firstPop p => p.taken
  | .secondPop p => p.taken
  | .storeFalse item => [item]
  | .deregisterCallback res => res.toList
  | .done res => res.toList
  | _ => []

theorem WaitPushPc.step_pending {pc : WaitPushPc T W} {m : Mem T W} {st : StopState}
    {n : Instr.Next Loc (Cell T W) StopState (WaitPushPc T W)} {c : Option (PopPc T W)}
    {xs : List T} (hn : (pc.code N).sc m st = some n) (h : QueueInv N m pc.inPush c xs) :
    ∃ ys, QueueInv N n.mem n.pc.inPush c (xs ++ ys) ∧ pc.pending = ys ++ n.pc.pending := by
  cases WaitPushPc.steps_of_sc hn with
  | access q n' hn' => exact ⟨q.accepts, h.push_step hn', PushPc.pending_step hn'⟩
  | accepted item =>
      refine ⟨[], ?_, rfl⟩
      rw [List.append_nil]
      exact h.set_prod rfl trivial
  | refused item =>
      refine ⟨[], ?_, rfl⟩
      rw [List.append_nil]
      exact h.set_prod rfl trivial
  | storeSleeping item =>
      refine ⟨[], ?_, rfl⟩
      rw [List.append_nil]
      exact h.set_isSleeping false
  | _ =>
      refine ⟨[], ?_, rfl⟩
      rw [List.append_nil]
      exact h

theorem WaitPopPc.step_taken {c : WaitPopPc T W} {m : Mem T W} {st : StopState}
    {n : Instr.Next Loc (Cell T W) StopState (WaitPopPc T W)} {p : Option (PushPc T W)}
    {xs : List T} (hn : (c.code N).sc m st = some n) (h : QueueInv N m p c.inPop xs) :
    ∃ xs', QueueInv N n.mem p n.pc.inPop xs' ∧ c.taken ++ xs = n.pc.taken ++ xs' := by
  cases WaitPopPc.steps_of_sc hn with
  | firstAccess q n' hn' =>
      obtain ⟨xs', hxs, hinv⟩ := QueueInv.pop_step h hn'
      refine ⟨xs', hinv, ?_⟩
      show q.taken ++ xs = n'.pc.taken ++ xs'
      rw [PopPc.taken_step hn', hxs, List.append_assoc]
  | secondAccess q n' hn' =>
      obtain ⟨xs', hxs, hinv⟩ := QueueInv.pop_step h hn'
      refine ⟨xs', hinv, ?_⟩
      show q.taken ++ xs = n'.pc.taken ++ xs'
      rw [PopPc.taken_step hn', hxs, List.append_assoc]
  | callbackStore => exact ⟨xs, h.set_isSleeping false, rfl⟩
  | storeTrue => exact ⟨xs, (h.set_isSleeping true).set_cons rfl trivial, rfl⟩
  | storeFalse item => exact ⟨xs, h.set_isSleeping false, rfl⟩
  | _ => exact ⟨xs, h.set_cons rfl trivial, rfl⟩

def waitableFifo (N : Capacity W) : Fifo N (WaitableSpscQueue N : QueueCode T W) where
  inPush := WaitPushPc.inPush
  inPop := WaitPopPc.inPop
  pending := WaitPushPc.pending
  taken := WaitPopPc.taken
  push_view _ := rfl
  push_pending _ := rfl
  pending_le p := by
    cases p with
    | queue p => exact PushPc.pending_le p
    | done item ok => cases ok <;> simp [WaitPushPc.pending]
    | _ => simp [WaitPushPc.pending]
  push_step hn h := WaitPushPc.step_pending hn h
  push_ret := by
    intro p ok h
    cases p with
    | done item b =>
        simp only [WaitPushPc.ret, Option.some.injEq] at h
        subst h
        refine ⟨rfl, ?_⟩
        cases b <;> simp [WaitPushPc.pending]
    | _ => simp [WaitPushPc.ret] at h
  pop_view := rfl
  pop_taken := rfl
  inHand_le c := by
    cases c with
    | firstPop p => exact PopPc.inHand_le p
    | secondPop p => exact PopPc.inHand_le p
    | deregisterCallback res => cases res <;> simp [WaitPopPc.taken, WaitPopPc.inPop, PopPc.moved]
    | done res => cases res <;> simp [WaitPopPc.taken, WaitPopPc.inPop, PopPc.moved]
    | _ => simp [WaitPopPc.taken, WaitPopPc.inPop, PopPc.moved]
  pop_step hn h := WaitPopPc.step_taken hn h
  pop_ret := by
    intro c res h
    cases c with
    | done r =>
        simp only [WaitPopPc.ret, Option.some.injEq] at h
        subst h
        exact ⟨rfl, rfl⟩
    | _ => simp [WaitPopPc.ret] at h
  wake_view c := by cases c <;> rfl
  wake_taken c := by cases c <;> rfl

end MarketData
