/-
Wake-ups for data on a machine with store buffers.

`push` stores `write_` with release order and then loads `is_sleeping_` relaxed; `pop`
stores `is_sleeping_` sequentially consistently and then loads `write_`.  On a
machine with store buffers the load of the push may come before its store is
visible.  Then the push sees nobody asleep, the pop sees nothing queued, and the
item stays in the queue while the pop sleeps: `lost_wakeup` is such a run.

The pop's side is sound, because its store drains the buffer.  `SignalsDrained`
says of one step that the push, too, looks at the flag only once its own stores are
visible, and notifies only once its clear is; `TsoInv` holds along every run of such
steps and excludes the lost wake-up.  (Where a notify is a system call that drains
the buffer, the second half of the condition is met by itself.)
-/
import MarketData.Proofs.WaitableRefinesSpin
import MarketData.Utils.StoreBuffers

namespace MarketData

open Lib

variable {T : Type} {W : Nat} {N : Capacity W}

/-! ### Accesses behind a store buffer -/

/-- A push stores nothing to memory at once.  What it buffers is a slot, or the
counter as its last access. -/
theorem PushPc.tso_cases {pc : PushPc T W} {m : Mem T W} {b : Buf T W} {x : StopState}
    {n : Instr.NextTso Loc (Cell T W) StopState (PushPc T W)}
    (h : (pc.code N).tso m b x = some n) :
    n.mem = m ∧ n.woken = false ∧
      (n.buf = b ∨ (∃ i v, n.buf = b ++ [⟨.data_ i, v⟩]) ∨
        ∃ w item, n.buf = b ++ [⟨.write_, w⟩] ∧ n.pc = .done item true) := by
  cases pc with
  | loadWrite item =>
      simp only [PushPc.code, Instr.tso_load, Option.some.injEq] at h
      subst h
      exact ⟨rfl, rfl, Or.inl rfl⟩
  | loadRead item w =>
      simp only [PushPc.code, Instr.tso_load, Option.some.injEq] at h
      subst h
      exact ⟨rfl, rfl, Or.inl rfl⟩
  | construct item w =>
      rw [PushPc.code, Instr.tso_store (by simp), Option.some.injEq] at h
      subst h
      exact ⟨rfl, rfl, Or.inr (Or.inl ⟨_, _, rfl⟩)⟩
  | publish item w =>
      rw [PushPc.code, Instr.tso_store (by simp), Option.some.injEq] at h
      subst h
      exact ⟨rfl, rfl, Or.inr (Or.inr ⟨_, item, rfl, rfl⟩)⟩
  | done item ok => simp [PushPc.code] at h

/-- The places of a pop at which it has stored nothing and taken nothing. -/
def PopPc.untouched : PopPc T W → Bool
  | .loadRead => true
  | .loadWrite _ => true
  | .done none => true
  | _ => false

/-- How a pop gets to such a place: by loading a counter. -/
theorem PopPc.tso_untouched {pc : PopPc T W} {m : Mem T W} {b : Buf T W} {x : StopState}
    {n : Instr.NextTso Loc (Cell T W) StopState (PopPc T W)}
    (h : (pc.code N).tso m b x = some n) (hpc : n.pc.untouched = true) :
    n.mem = m ∧ n.buf = b ∧
      ((pc = .loadRead ∧ n.pc = .loadWrite (Instr.view m b .read_)) ∨
        ∃ r, pc = .loadWrite r ∧ r = Instr.view m b .write_ ∧ n.pc = .done none) := by
  cases pc with
  | loadRead =>
      simp only [PopPc.code, Instr.tso_load, Option.some.injEq] at h
      subst h
      exact ⟨rfl, rfl, Or.inl ⟨rfl, rfl⟩⟩
  | loadWrite r =>
      simp only [PopPc.code, Instr.tso_load, Option.some.injEq] at h
      subst h
      by_cases hempty : r = Instr.view m b .write_
      · exact ⟨rfl, rfl, Or.inr ⟨r, rfl, hempty, if_pos hempty⟩⟩
      · simp [if_neg hempty, untouched] at hpc
  | move r =>
      simp only [PopPc.code, Instr.tso_load, Option.some.injEq] at h
      subst h
      cases hcell : Instr.view m b (.data_ (r.toNat % N.val)) <;>
        simp [hcell, untouched] at hpc
  | destroy r item =>
      rw [PopPc.code, Instr.tso_store (by simp), Option.some.injEq] at h
      subst h
      simp [untouched] at hpc
  | publish r item =>
      rw [PopPc.code, Instr.tso_store (by simp), Option.some.injEq] at h
      subst h
      simp [untouched] at hpc
  | done res => simp [PopPc.code] at h
  | fault => simp [PopPc.code] at h

/-- The steps of a waitable push behind the buffer `b`. -/
inductive WaitPushPc.StepsTso (N : Capacity W) (m : Mem T W) (b : Buf T W) (st : StopState) :
    WaitPushPc T W → Instr.NextTso Loc (Cell T W) StopState (WaitPushPc T W) → Prop
  | access (q : PushPc T W) (n : Instr.NextTso Loc (Cell T W) StopState (PushPc T W))
      (h : (q.code N).tso m b st = some n) :
      StepsTso N m b st (.queue q)
        { mem := n.mem, buf := n.buf, obj := n.obj, pc := .queue n.pc, woken := n.woken }
  | accepted (item : T) :
      StepsTso N m b st (.queue (.done item true))
        { mem := m, buf := b, obj := st, pc := .loadSleeping item }
  | refused (item : T) :
      StepsTso N m b st (.queue (.done item false))
        { mem := m, buf := b, obj := st, pc := .done item false }
  | awake (item : T) (h : Instr.view m b .isSleeping_ = false) :
      StepsTso N m b st (.loadSleeping item)
        { mem := m, buf := b, obj := st, pc := .done item true }
  | asleep (item : T) (h : Instr.view m b .isSleeping_ = true) :
      StepsTso N m b st (.loadSleeping item)
        { mem := m, buf := b, obj := st, pc := .storeSleeping item }
  | storeSleeping (item : T) :
      StepsTso N m b st (.storeSleeping item)
        { mem := m, buf := b ++ [⟨.isSleeping_, false⟩], obj := st, pc := .notify item }
  | notify (item : T) :
      StepsTso N m b st (.notify item)
        { mem := m, buf := b, obj := st, pc := .done item true, woken := true }

theorem WaitPushPc.steps_of_tso {m : Mem T W} {b : Buf T W} {st : StopState}
    {p : WaitPushPc T W} {n : Instr.NextTso Loc (Cell T W) StopState (WaitPushPc T W)}
    (h : (p.code N).tso m b st = some n) : StepsTso N m b st p n := by
  cases p with
  | queue q =>
      by_cases hdone : ∃ item ok, q = .done item ok
      · obtain ⟨item, ok, rfl⟩ := hdone
        simp only [WaitPushPc.code, PushPc.call, Instr.tso_goto, Option.some.injEq] at h
        subst h
        cases ok
        · exact StepsTso.refused item
        · exact StepsTso.accepted item
      · have hcode : (WaitPushPc.queue q).code N =
            (q.code N : Code T W StopState _).map WaitPushPc.queue := by
          cases q with
          | done item ok => exact absurd ⟨item, ok, rfl⟩ hdone
          | _ => rfl
        rw [hcode, Instr.tso_map] at h
        obtain ⟨n', hn', rfl⟩ := Option.map_eq_some_iff.mp h
        exact StepsTso.access q n' hn'
  | loadSleeping item =>
      simp only [WaitPushPc.code, Instr.tso_load, Option.some.injEq] at h
      subst h
      by_cases hflag : Instr.view m b .isSleeping_ = true
      · rw [if_pos hflag]
        exact StepsTso.asleep item hflag
      · rw [if_neg hflag]
        exact StepsTso.awake item (by simpa using hflag)
  | storeSleeping item =>
      rw [WaitPushPc.code, Instr.tso_store (by simp), Option.some.injEq] at h
      subst h
      exact StepsTso.storeSleeping item
  | notify item =>
      simp only [WaitPushPc.code, Instr.tso_notify, Option.some.injEq] at h
      subst h
      exact StepsTso.notify item
  | done item ok => simp [WaitPushPc.code] at h

/-- The places of a pop from its announcement to its sleep: its stores are all
visible, and it has taken nothing. -/
def WaitPopPc.settled : WaitPopPc T W → Bool
  | .secondPop p => p.untouched
  | .wait => true
  | .blocked => true
  | _ => false

/-- Inside a pop a caller makes an access of it, or returns from it. -/
theorem PopPc.call_tso {P : Type} {inside : PopPc T W → P} {ret : Option T → P}
    {pc : PopPc T W} {m : Mem T W} {b : Buf T W} {x : StopState}
    {n : Instr.NextTso Loc (Cell T W) StopState P}
    (h : (pc.call N inside ret).tso m b x = some n) :
    (∃ res, pc = .done res ∧ n = { mem := m, buf := b, obj := x, pc := ret res }) ∨
      ∃ n', (pc.code N).tso m b x = some n' ∧
        n = { mem := n'.mem, buf := n'.buf, obj := n'.obj, pc := inside n'.pc,
              woken := n'.woken } := by
  by_cases hdone : ∃ res, pc = .done res
  · obtain ⟨res, rfl⟩ := hdone
    simp only [PopPc.call, Instr.tso_goto, Option.some.injEq] at h
    exact Or.inl ⟨res, rfl, h.symm⟩
  · have hcall : pc.call N inside ret = (pc.code N : Code T W StopState _).map inside := by
      cases pc with
      | done res => exact absurd ⟨res, rfl⟩ hdone
      | _ => rfl
    rw [hcall, Instr.tso_map] at h
    obtain ⟨n', hn', rfl⟩ := Option.map_eq_some_iff.mp h
    exact Or.inr ⟨n', hn', rfl⟩

theorem WaitPopPc.settled_of_committed {c : WaitPopPc T W} (h : c.committed = true) :
    c.settled = true := by
  cases c with
  | secondPop q =>
      cases q with
      | done res => cases res <;> simp_all [committed, settled, PopPc.untouched]
      | _ => simp [committed] at h
  | wait => rfl
  | blocked => rfl
  | _ => simp [committed] at h

/-- How a waitable pop gets to such a place: by its announcement, by a load of the
second try, or on from a place where it is committed to sleep. -/
theorem WaitPopPc.tso_settled {c : WaitPopPc T W} {m : Mem T W} {b : Buf T W} {st : StopState}
    {n : Instr.NextTso Loc (Cell T W) StopState (WaitPopPc T W)}
    (h : (c.code N).tso m b st = some n) (hpc : n.pc.settled = true) :
    (n.mem = Function.update m .isSleeping_ true ∧ n.buf = [] ∧ n.pc = .secondPop .loadRead) ∨
    (c.settled = true ∧ n.mem = m ∧ n.buf = b ∧
      (n.pc = .secondPop (.loadWrite (Instr.view m b .read_)) ∨
       (∃ r, c = .secondPop (.loadWrite r) ∧ r = Instr.view m b .write_ ∧
          n.pc = .secondPop (.done none)) ∨
       (c.committed = true ∧ (n.pc = .wait ∨
          (n.pc = .blocked ∧ Instr.view m b .isSleeping_ = true))))) := by
  cases c with
  | registerCallback =>
      simp only [WaitPopPc.code, Instr.tso_lib, Option.some.injEq] at h
      subst h
      by_cases hreq : st.requested = true <;> simp [hreq, settled] at hpc
  | callbackStore =>
      rw [WaitPopPc.code, Instr.tso_store (by simp), Option.some.injEq] at h
      subst h
      simp [settled] at hpc
  | callbackNotify =>
      simp only [WaitPopPc.code, Instr.tso_notify, Option.some.injEq] at h
      subst h
      simp [settled] at hpc
  | checkStop =>
      simp only [WaitPopPc.code, Instr.tso_lib, Option.some.injEq] at h
      subst h
      by_cases hreq : st.requested = true <;> simp [hreq, settled] at hpc
  | firstPop q =>
      rcases PopPc.call_tso h with ⟨res, rfl, rfl⟩ | ⟨n', -, rfl⟩
      · cases res <;> simp [settled] at hpc
      · simp [settled] at hpc
  | storeTrue =>
      obtain ⟨-, rfl⟩ := Instr.tso_store_seqCst h
      exact Or.inl ⟨rfl, rfl, rfl⟩
  | secondPop q =>
      refine Or.inr ?_
      rcases PopPc.call_tso h with ⟨res, rfl, rfl⟩ | ⟨n', hn', rfl⟩
      · cases res with
        | none => exact ⟨rfl, rfl, rfl, Or.inr (Or.inr ⟨rfl, Or.inl rfl⟩)⟩
        | some item => simp [settled] at hpc
      · obtain ⟨hmem, hbuf, ⟨rfl, hread⟩ | ⟨r, rfl, hempty, hnone⟩⟩ :=
          PopPc.tso_untouched hn' hpc
        · exact ⟨rfl, hmem, hbuf, Or.inl (congrArg WaitPopPc.secondPop hread)⟩
        · exact ⟨rfl, hmem, hbuf, Or.inr (Or.inl ⟨r, rfl, hempty,
            congrArg WaitPopPc.secondPop hnone⟩)⟩
  | storeFalse item =>
      rw [WaitPopPc.code, Instr.tso_store (by simp), Option.some.injEq] at h
      subst h
      simp [settled] at hpc
  | wait =>
      refine Or.inr ?_
      simp only [WaitPopPc.code, Instr.tso_load, Option.some.injEq] at h
      subst h
      by_cases hflag : Instr.view m b .isSleeping_ = true
      · exact ⟨rfl, rfl, rfl, Or.inr (Or.inr ⟨rfl, Or.inr ⟨if_pos hflag, hflag⟩⟩)⟩
      · simp [if_neg hflag, settled] at hpc
  | blocked => simp [WaitPopPc.code] at h
  | deregisterCallback res =>
      simp only [WaitPopPc.code, Instr.tso_lib, Option.some.injEq] at h
      subst h
      by_cases hrun : st.callback = .running <;> simp [hrun, settled] at hpc
  | done res => simp [WaitPopPc.code] at h

/-! ### The condition and the invariant -/

/-- The push is about to look at the flag, or to notify. -/
def WaitPushPc.signals : WaitPushPc T W → Bool
  | .loadSleeping _ => true
  | .notify _ => true
  | _ => false

/-- The push has counted its item and not looked at the flag. -/
def WaitPushPc.published : WaitPushPc T W → Bool
  | .queue (.done _ true) => true
  | .loadSleeping _ => true
  | _ => false

theorem WaitPushPc.willLook_of_published {p : WaitPushPc T W} (h : p.published = true) :
    p.willLook = true := by
  cases p with
  | queue q =>
      cases q with
      | done item ok => cases ok <;> simp_all [published, willLook]
      | _ => simp [published] at h
  | loadSleeping item => rfl
  | _ => simp [published] at h

namespace StoreBuffers

/-- The push looks at the flag, and notifies, only with an empty store buffer. -/
def SignalsDrained (s : State (WaitableSpscQueue N : QueueCode T W)) (e : Event T) : Prop :=
  e = .push → s.prod.any WaitPushPc.signals = true → s.prodBuf.isEmpty = true

instance [DecidableEq T] (s : State (WaitableSpscQueue N : QueueCode T W)) (e : Event T) :
    Decidable (SignalsDrained s e) :=
  inferInstanceAs (Decidable (e = .push → s.prod.any WaitPushPc.signals = true →
    s.prodBuf.isEmpty = true))

/-- What ties memory, the two buffers and the two calls. -/
structure TsoInv (s : State (WaitableSpscQueue N : QueueCode T W)) : Prop where
  prodRead : ∀ en ∈ s.prodBuf, en.1 ≠ .read_
  prodWrite : ∀ en ∈ s.prodBuf, en.1 = .write_ → s.prod.any WaitPushPc.published = true
  prodFlag : ∀ en ∈ s.prodBuf, en.1 = .isSleeping_ →
    en = ⟨.isSleeping_, false⟩ ∧ ∃ item, s.prod = some (.notify item)
  drained : ∀ c, s.cons = some c → WaitPopPc.settled c = true → s.consBuf = []
  snapshot : ∀ r, s.cons = some (.secondPop (.loadWrite r)) → r = s.mem .read_
  owed : s.cons = some .blocked → s.mem .isSleeping_ = false → ∃ item, s.prod = some (.notify item)
  seen : ∀ c, s.cons = some c → WaitPopPc.committed c = true → s.mem .isSleeping_ = true →
    Instr.view s.mem s.prodBuf .write_ ≠ s.mem .read_ →
    s.prod.any WaitPushPc.willLook = true ∨ ∃ en ∈ s.prodBuf, en.1 = .isSleeping_

theorem TsoInv.initial : TsoInv (machine (WaitableSpscQueue N : QueueCode T W)).init := by
  refine ⟨?_, ?_, ?_, ?_, ?_, ?_, ?_⟩ <;> simp [machine]

variable {s s' : State (WaitableSpscQueue N : QueueCode T W)} {e : Event T}

/-! ### What survives a step -/

/-- A push that is not about to look at the flag, or to notify, keeps nobody waiting. -/
theorem TsoInv.not_waiting (h : TsoInv s) (hlook : s.prod.any WaitPushPc.willLook = false)
    (hnotify : ∀ item, s.prod ≠ some (.notify item)) {c : WaitPopPc T W} (hc : s.cons = some c)
    (hcom : c.committed = true) (hflag : s.mem .isSleeping_ = true) :
    Instr.view s.mem s.prodBuf .write_ = s.mem .read_ := by
  by_contra hne
  rcases h.seen c hc hcom hflag hne with hlooks | ⟨en, hen, hloc⟩
  · rw [hlook] at hlooks
    simp at hlooks
  · obtain ⟨-, item, hitem⟩ := h.prodFlag en hen hloc
    exact hnotify item hitem

theorem TsoInv.no_flag (h : TsoInv s) (hprod : ∀ item, s.prod ≠ some (.notify item)) :
    ∀ en ∈ s.prodBuf, en.1 ≠ .isSleeping_ := by
  intro en hen hloc
  obtain ⟨-, item, hitem⟩ := h.prodFlag en hen hloc
  exact hprod item hitem

theorem TsoInv.no_write (h : TsoInv s) (hpub : s.prod.any WaitPushPc.published = false) :
    ∀ en ∈ s.prodBuf, en.1 ≠ .write_ := by
  intro en hen hloc
  have hany := h.prodWrite en hen hloc
  rw [hpub] at hany
  simp at hany

theorem TsoInv.not_owed (h : TsoInv s) (hprod : ∀ item, s.prod ≠ some (.notify item))
    (hc : s.cons = some .blocked) : s.mem .isSleeping_ ≠ false := by
  intro hflag
  obtain ⟨item, hitem⟩ := h.owed hc hflag
  exact hprod item hitem

/-- What the pop's own state says survives as long as the pop, its buffer and the
`read_` counter stay. -/
theorem TsoInv.of_prod (h : TsoInv s) {m : Mem T W} {b : Buf T W} {p : Option (WaitPushPc T W)}
    (hread : m .read_ = s.mem .read_) (hb : ∀ en ∈ b, en.1 ≠ .read_)
    (hw : ∀ en ∈ b, en.1 = .write_ → p.any WaitPushPc.published = true)
    (hf : ∀ en ∈ b, en.1 = .isSleeping_ →
      en = ⟨.isSleeping_, false⟩ ∧ ∃ item, p = some (.notify item))
    (howed : s.cons = some .blocked → m .isSleeping_ = false → ∃ item, p = some (.notify item))
    (hseen : ∀ c, s.cons = some c → WaitPopPc.committed c = true → m .isSleeping_ = true →
      Instr.view m b .write_ ≠ s.mem .read_ →
      p.any WaitPushPc.willLook = true ∨ ∃ en ∈ b, en.1 = .isSleeping_) :
    TsoInv { s with mem := m, prodBuf := b, prod := p } where
  prodRead := hb
  prodWrite := hw
  prodFlag := hf
  drained := h.drained
  snapshot r hr := by
    show r = m .read_
    rw [hread]
    exact h.snapshot r hr
  owed := howed
  seen c hc hcom hflag hne := hseen c hc hcom hflag (by rw [← hread]; exact hne)

/-- A wake-up of the pop changes nothing that matters. -/
theorem TsoInv.wake (h : TsoInv s) : TsoInv { s with cons := s.cons.map WaitPopPc.wake } where
  prodRead := h.prodRead
  prodWrite := h.prodWrite
  prodFlag := h.prodFlag
  drained c hc hset := by
    obtain ⟨d, hd, rfl⟩ := Option.map_eq_some_iff.mp hc
    refine h.drained d hd ?_
    cases d <;> exact hset
  snapshot r hr := by
    obtain ⟨d, hd, hwake⟩ := Option.map_eq_some_iff.mp hr
    cases d <;> simp only [WaitPopPc.wake, reduceCtorEq] at hwake
    rw [hwake] at hd
    exact h.snapshot r hd
  owed hc := by
    obtain ⟨d, -, hd⟩ := Option.map_eq_some_iff.mp hc
    cases d <;> simp [WaitPopPc.wake] at hd
  seen c hc hcom := by
    obtain ⟨d, hd, rfl⟩ := Option.map_eq_some_iff.mp hc
    rw [WaitPopPc.committed_wake] at hcom
    exact h.seen d hd hcom

/-- An access of the push to the queue below.  It starts with no counter and no flag
in the buffer, and ends with a counter there only if it has just published. -/
theorem TsoInv.access (h : TsoInv s) {q : PushPc T W} (hp : s.prod = some (.queue q))
    {n : Instr.NextTso Loc (Cell T W) StopState (PushPc T W)}
    (hn : (q.code N).tso s.mem s.prodBuf s.stop = some n) :
    TsoInv { s with mem := n.mem, prodBuf := n.buf, prod := some (.queue n.pc) } := by
  obtain ⟨hmem, -, hbuf⟩ := PushPc.tso_cases hn
  have hnotdone : ∀ item ok, q ≠ .done item ok := by
    intro item ok heq
    rw [heq] at hn
    simp [PushPc.code] at hn
  have hpub : (WaitPushPc.queue q).published = false := by
    cases q with
    | done item ok => exact absurd rfl (hnotdone item ok)
    | _ => rfl
  have hlook : (WaitPushPc.queue q).willLook = false := by
    cases q with
    | done item ok => exact absurd rfl (hnotdone item ok)
    | _ => rfl
  have hnotify : ∀ item, s.prod ≠ some (.notify item) := by rw [hp]; simp
  have hnowrite := h.no_write (by rw [hp]; exact hpub)
  have hnoflag := h.no_flag hnotify
  rw [hmem]
  have howed : s.cons = some .blocked → s.mem .isSleeping_ = false →
      ∃ item, some (WaitPushPc.queue n.pc) = some (WaitPushPc.notify item) := by
    intro hc hflag
    exact absurd hflag (h.not_owed hnotify hc)
  have hempty : ∀ c, s.cons = some c → WaitPopPc.committed c = true →
      s.mem .isSleeping_ = true → Instr.view s.mem s.prodBuf .write_ = s.mem .read_ := by
    intro c hc hcom hflag
    exact h.not_waiting (by rw [hp]; exact hlook) hnotify hc hcom hflag
  rcases hbuf with hsame | ⟨i, v, hdata⟩ | ⟨w, item, hwrite, hdone⟩
  · rw [hsame]
    refine h.of_prod rfl h.prodRead ?_ ?_ howed ?_
    · intro en hen hloc
      exact absurd hloc (hnowrite en hen)
    · intro en hen hloc
      exact absurd hloc (hnoflag en hen)
    · intro c hc hcom hflag hne
      exact absurd (hempty c hc hcom hflag) hne
  · rw [hdata]
    refine h.of_prod rfl ?_ ?_ ?_ howed ?_
    · exact Instr.not_mem_snoc h.prodRead (by simp)
    · intro en hen hloc
      exact absurd hloc (Instr.not_mem_snoc hnowrite (by simp) en hen)
    · intro en hen hloc
      exact absurd hloc (Instr.not_mem_snoc hnoflag (by simp) en hen)
    · intro c hc hcom hflag hne
      rw [Instr.view_snoc, Function.update_of_ne (by simp)] at hne
      exact absurd (hempty c hc hcom hflag) hne
  · rw [hwrite, hdone]
    refine h.of_prod rfl ?_ ?_ ?_ ?_ ?_
    · exact Instr.not_mem_snoc h.prodRead (by simp)
    · intro en hen hloc
      rfl
    · intro en hen hloc
      exact absurd hloc (Instr.not_mem_snoc hnoflag (by simp) en hen)
    · rw [← hdone]
      exact howed
    · intro c hc hcom hflag hne
      exact Or.inl rfl

/-- A step of the push.  Its load of the flag and its notify meet the condition. -/
theorem TsoInv.push (h : TsoInv s) {p : WaitPushPc T W} (hp : s.prod = some p)
    (hdrained : p.signals = true → s.prodBuf = [])
    {n : Instr.NextTso Loc (Cell T W) StopState (WaitPushPc T W)}
    (hn : WaitPushPc.StepsTso N s.mem s.prodBuf s.stop p n) :
    TsoInv { s with mem := n.mem, prodBuf := n.buf, stop := n.obj, prod := some n.pc,
                    cons := MarketDataQueue.woken n.woken s.cons } := by
  have hnotify : (∀ item, p ≠ .notify item) → ∀ item, s.prod ≠ some (.notify item) := by
    intro hpc item hitem
    rw [hp, Option.some.injEq] at hitem
    exact hpc item hitem
  cases hn with
  | access q n' hn' =>
      obtain ⟨-, hwoken, -⟩ := PushPc.tso_cases hn'
      rw [hwoken]
      obtain ⟨h1, h2, h3, h4, h5, h6, h7⟩ := h.access hp hn'
      exact ⟨h1, h2, h3, h4, h5, h6, h7⟩
  | accepted item =>
      refine h.of_prod rfl h.prodRead ?_ ?_ ?_ ?_
      · intro en _ _
        rfl
      · intro en hen hloc
        exact absurd hloc (h.no_flag (hnotify (by simp)) en hen)
      · intro hc hflag
        exact absurd hflag (h.not_owed (hnotify (by simp)) hc)
      · intro c _ _ _ _
        exact Or.inl rfl
  | refused item =>
      refine h.of_prod rfl h.prodRead ?_ ?_ ?_ ?_
      · intro en hen hloc
        exact absurd hloc (h.no_write (by rw [hp]; rfl) en hen)
      · intro en hen hloc
        exact absurd hloc (h.no_flag (hnotify (by simp)) en hen)
      · intro hc hflag
        exact absurd hflag (h.not_owed (hnotify (by simp)) hc)
      · intro c hc hcom hflag hne
        exact absurd (h.not_waiting (by rw [hp]; rfl) (hnotify (by simp)) hc hcom hflag) hne
  | awake item hdown =>
      have hbuf : s.prodBuf = [] := hdrained rfl
      have hnone : ∀ en, en ∉ s.prodBuf := List.eq_nil_iff_forall_not_mem.mp hbuf
      rw [hbuf, Instr.view_nil] at hdown
      refine h.of_prod rfl h.prodRead ?_ ?_ ?_ ?_
      · intro en hen
        exact absurd hen (hnone en)
      · intro en hen
        exact absurd hen (hnone en)
      · intro hc hflag
        exact absurd hflag (h.not_owed (hnotify (by simp)) hc)
      · intro c _ _ hflag _
        exact absurd (hdown.symm.trans hflag) (by simp)
  | asleep item hup =>
      have hnone : ∀ en, en ∉ s.prodBuf := List.eq_nil_iff_forall_not_mem.mp (hdrained rfl)
      refine h.of_prod rfl h.prodRead ?_ ?_ ?_ ?_
      · intro en hen
        exact absurd hen (hnone en)
      · intro en hen
        exact absurd hen (hnone en)
      · intro hc hflag
        exact absurd hflag (h.not_owed (hnotify (by simp)) hc)
      · intro c _ _ _ _
        exact Or.inl rfl
  | storeSleeping item =>
      refine h.of_prod rfl ?_ ?_ ?_ ?_ ?_
      · exact Instr.not_mem_snoc h.prodRead (by simp)
      · intro en hen hloc
        exact absurd hloc (Instr.not_mem_snoc (h.no_write (by rw [hp]; rfl)) (by simp) en hen)
      · intro en hen hloc
        rcases List.mem_append.mp hen with hold | hnew
        · exact absurd hloc (h.no_flag (hnotify (by simp)) en hold)
        · exact ⟨List.mem_singleton.mp hnew, item, rfl⟩
      · intro _ _
        exact ⟨item, rfl⟩
      · intro c _ _ _ _
        exact Or.inr ⟨⟨.isSleeping_, false⟩, by simp, rfl⟩
  | notify item =>
      -- the clear is visible, so no committed pop with the flag up is left behind
      have hbuf : s.prodBuf = [] := hdrained rfl
      obtain ⟨h1, h2, h3, h4, h5, h6, h7⟩ := h.wake
      refine ⟨h1, ?_, ?_, h4, h5, ?_, ?_⟩
      · intro en hen
        rw [show s.prodBuf = [] from hbuf] at hen
        simp at hen
      · intro en hen
        rw [show s.prodBuf = [] from hbuf] at hen
        simp at hen
      · intro hc
        obtain ⟨d, -, hd⟩ := Option.map_eq_some_iff.mp hc
        cases d <;> simp [WaitPopPc.wake] at hd
      · intro c hc hcom hflag hne
        rcases h7 c hc hcom hflag hne with hlook | ⟨en, hen, -⟩
        · rw [hp] at hlook
          simp [WaitPushPc.willLook] at hlook
        · rw [show s.prodBuf = [] from hbuf] at hen
          simp at hen

/-- A step of the pop.  It becomes committed only by seeing the counters equal in
memory; an item it cannot see is then still in the push's buffer. -/
theorem TsoInv.pop (h : TsoInv s) {c : WaitPopPc T W} (hc : s.cons = some c)
    {n : Instr.NextTso Loc (Cell T W) StopState (WaitPopPc T W)}
    (hn : (c.code N).tso s.mem s.consBuf s.stop = some n) :
    TsoInv { s with mem := n.mem, consBuf := n.buf, stop := n.obj, cons := some n.pc } := by
  refine ⟨h.prodRead, h.prodWrite, h.prodFlag, ?_, ?_, ?_, ?_⟩
  · intro d hd hset
    rw [← Option.some.inj hd] at hset
    rcases WaitPopPc.tso_settled hn hset with ⟨-, hbuf, -⟩ | ⟨hcset, -, hbuf, -⟩
    · exact hbuf
    · exact hbuf.trans (h.drained c hc hcset)
  · intro r hr
    have hpc : n.pc = .secondPop (.loadWrite r) := Option.some.inj hr
    have hset : n.pc.settled = true := by rw [hpc]; rfl
    rcases WaitPopPc.tso_settled hn hset with ⟨-, -, hload⟩ |
      ⟨hcset, hmem, -, hload | ⟨_, -, -, hnone⟩ | ⟨-, hwait | ⟨hblocked, -⟩⟩⟩
    · rw [hpc] at hload
      simp at hload
    · rw [hpc, h.drained c hc hcset] at hload
      show r = n.mem .read_
      rw [hmem]
      simpa using hload
    · rw [hpc] at hnone
      simp at hnone
    · rw [hpc] at hwait
      simp at hwait
    · rw [hpc] at hblocked
      simp at hblocked
  · intro hb hflag
    have hpc : n.pc = .blocked := Option.some.inj hb
    have hset : n.pc.settled = true := by rw [hpc]; rfl
    rcases WaitPopPc.tso_settled hn hset with ⟨-, -, hload⟩ |
      ⟨hcset, hmem, -, hload | ⟨_, -, -, hnone⟩ | ⟨-, hwait | ⟨-, hup⟩⟩⟩
    · rw [hpc] at hload
      simp at hload
    · rw [hpc] at hload
      simp at hload
    · rw [hpc] at hnone
      simp at hnone
    · rw [hpc] at hwait
      simp at hwait
    · rw [h.drained c hc hcset, Instr.view_nil] at hup
      rw [show n.mem = s.mem from hmem] at hflag
      exact absurd (hup.symm.trans hflag) (by simp)
  · intro d hd hcom hflag hne
    have hcom' : n.pc.committed = true := by rw [Option.some.inj hd]; exact hcom
    have hset : n.pc.settled = true := WaitPopPc.settled_of_committed hcom'
    rcases WaitPopPc.tso_settled hn hset with ⟨-, -, hload⟩ |
      ⟨hcset, hmem, -, hload | ⟨r, hcr, hempty, -⟩ | ⟨hbefore, -⟩⟩
    · rw [hload] at hcom'
      simp [WaitPopPc.committed] at hcom'
    · rw [hload] at hcom'
      simp [WaitPopPc.committed] at hcom'
    · rw [h.drained c hc hcset, Instr.view_nil] at hempty
      have hread : r = s.mem .read_ := h.snapshot r (by rw [hc, hcr])
      rw [show n.mem = s.mem from hmem] at hne
      by_cases hentry : ∃ en ∈ s.prodBuf, en.1 = .write_
      · obtain ⟨en, hen, hloc⟩ := hentry
        have hpub := h.prodWrite en hen hloc
        refine Or.inl ?_
        rcases hprod : s.prod with _ | p
        · rw [hprod] at hpub
          simp at hpub
        · rw [hprod] at hpub
          exact WaitPushPc.willLook_of_published hpub
      · have hview : Instr.view s.mem s.prodBuf .write_ = s.mem .write_ :=
          Instr.view_of_not_mem s.prodBuf (fun en hen hloc => hentry ⟨en, hen, hloc⟩)
        exact absurd (hview.trans (hempty.symm.trans hread)) hne
    · rw [show n.mem = s.mem from hmem] at hflag hne
      exact h.seen c hc hbefore hflag hne

/-- The oldest store of the push becomes visible. -/
theorem TsoInv.flushProd (h : TsoInv s) {en : (l : Loc) × Cell T W l} {rest : Buf T W}
    (hbuf : s.prodBuf = en :: rest) :
    TsoInv { s with mem := Function.update s.mem en.1 en.2, prodBuf := rest } := by
  have hmem : en ∈ s.prodBuf := by rw [hbuf]; exact List.mem_cons_self
  have htail : ∀ en' ∈ rest, en' ∈ s.prodBuf := by
    intro en' hen'
    rw [hbuf]
    exact List.mem_cons_of_mem _ hen'
  have hread : Function.update s.mem en.1 en.2 .read_ = s.mem .read_ :=
    Function.update_of_ne (h.prodRead en hmem).symm _ _
  refine h.of_prod hread ?_ ?_ ?_ ?_ ?_
  · intro en' hen'
    exact h.prodRead en' (htail en' hen')
  · intro en' hen'
    exact h.prodWrite en' (htail en' hen')
  · intro en' hen'
    exact h.prodFlag en' (htail en' hen')
  · intro hc hflag
    by_cases hloc : en.1 = .isSleeping_
    · exact (h.prodFlag en hmem hloc).2
    · rw [Function.update_of_ne (fun heq => hloc heq.symm)] at hflag
      exact h.owed hc hflag
  · intro c hc hcom hflag hne
    by_cases hloc : en.1 = .isSleeping_
    · obtain ⟨rfl, -⟩ := h.prodFlag en hmem hloc
      simp at hflag
    · rw [Function.update_of_ne (fun heq => hloc heq.symm)] at hflag
      rw [← Instr.view_cons, ← hbuf] at hne
      rcases h.seen c hc hcom hflag hne with hlook | ⟨en', hen', hloc'⟩
      · exact Or.inl hlook
      · rw [hbuf] at hen'
        rcases List.mem_cons.mp hen' with rfl | hin
        · exact absurd hloc' hloc
        · exact Or.inr ⟨en', hin, hloc'⟩

/-- A pop with anything in its buffer is not settled, so nothing is claimed of it. -/
theorem TsoInv.of_unsettled (h : TsoInv s) {m : Mem T W} {b : Buf T W}
    {c : Option (WaitPopPc T W)} (hc : ∀ d, c = some d → d.settled = false) :
    TsoInv { s with mem := m, consBuf := b, cons := c } := by
  refine ⟨h.prodRead, h.prodWrite, h.prodFlag, ?_, ?_, ?_, ?_⟩
  · intro d hd hset
    rw [hc d hd] at hset
    simp at hset
  · intro r hr
    have hset := hc _ hr
    simp [WaitPopPc.settled, PopPc.untouched] at hset
  · intro hb
    have hset := hc _ hb
    simp [WaitPopPc.settled] at hset
  · intro d hd hcom
    have hset := hc d hd
    rw [WaitPopPc.settled_of_committed hcom] at hset
    simp at hset

/-- A push begins, or returns, with nothing buffered that matters and nobody waiting. -/
theorem TsoInv.idle (h : TsoInv s)
    (hprod : s.prod = none ∨ ∃ item ok, s.prod = some (.done item ok))
    {p : Option (WaitPushPc T W)} : TsoInv { s with prod := p } := by
  have hnotify : ∀ item, s.prod ≠ some (.notify item) := by
    rcases hprod with hp | ⟨_, _, hp⟩ <;> rw [hp] <;> simp
  have hpub : s.prod.any WaitPushPc.published = false := by
    rcases hprod with hp | ⟨_, _, hp⟩ <;> rw [hp] <;> rfl
  have hlook : s.prod.any WaitPushPc.willLook = false := by
    rcases hprod with hp | ⟨_, _, hp⟩ <;> rw [hp] <;> rfl
  refine h.of_prod rfl h.prodRead ?_ ?_ ?_ ?_
  · intro en hen hloc
    exact absurd hloc (h.no_write hpub en hen)
  · intro en hen hloc
    exact absurd hloc (h.no_flag hnotify en hen)
  · intro hc hflag
    exact absurd hflag (h.not_owed hnotify hc)
  · intro c hc hcom hflag hne
    exact absurd (h.not_waiting hlook hnotify hc hcom hflag) hne

/-- A step that meets the condition keeps the invariant. -/
theorem TsoInv.step (h : TsoInv s) (hdrained : SignalsDrained s e) (hs : step s e = some s') :
    TsoInv s' := by
  cases e with
  | callPush item =>
      simp only [StoreBuffers.step] at hs
      split at hs <;> simp only [Option.some.injEq, reduceCtorEq] at hs
      rename_i hidle
      subst hs
      exact h.idle (Or.inl hidle)
  | callPop =>
      simp only [StoreBuffers.step] at hs
      split at hs <;> simp only [Option.some.injEq, reduceCtorEq] at hs
      subst hs
      refine h.of_unsettled ?_
      intro d hd
      rw [← Option.some.inj hd]
      rfl
  | push =>
      obtain ⟨p, hp, hstep⟩ := Option.bind_eq_some_iff.mp hs
      obtain ⟨n, hn, rfl⟩ := Option.map_eq_some_iff.mp hstep
      refine h.push hp ?_ (WaitPushPc.steps_of_tso hn)
      intro hsig
      have hempty := hdrained rfl (by rw [hp]; exact hsig)
      simpa using hempty
  | pop =>
      obtain ⟨c, hc, hstep⟩ := Option.bind_eq_some_iff.mp hs
      obtain ⟨n, hn, rfl⟩ := Option.map_eq_some_iff.mp hstep
      exact h.pop hc hn
  | flushProd =>
      obtain ⟨f, hf, rfl⟩ := Option.map_eq_some_iff.mp hs
      cases hbuf : s.prodBuf with
      | nil => simp [hbuf, Instr.flush] at hf
      | cons en rest =>
          simp only [hbuf, Instr.flush, Option.some.injEq] at hf
          subst hf
          exact h.flushProd hbuf
  | flushCons =>
      obtain ⟨f, hf, rfl⟩ := Option.map_eq_some_iff.mp hs
      refine h.of_unsettled ?_
      intro d hd
      by_contra hset
      rw [h.drained d hd (by simpa using hset)] at hf
      simp [Instr.flush] at hf
  | spurious =>
      simp only [StoreBuffers.step, Option.some.injEq] at hs
      subst hs
      exact h.wake
  | retPush =>
      simp only [StoreBuffers.step] at hs
      split at hs <;> simp only [Option.some.injEq, reduceCtorEq] at hs
      rename_i ok hret
      obtain ⟨p, hp, hr⟩ := Option.bind_eq_some_iff.mp hret
      subst hs
      refine h.idle (Or.inr ?_)
      cases p with
      | done item b => exact ⟨item, b, hp⟩
      | _ => simp [WaitPushPc.ret] at hr
  | retPop =>
      simp only [StoreBuffers.step] at hs
      split at hs <;> simp only [Option.some.injEq, reduceCtorEq] at hs
      subst hs
      refine h.of_unsettled ?_
      intro d hd
      simp at hd

/-! ### The wake-up that is lost and the one that is not -/

/-- The state a lost wake-up leaves behind: everything is visible, nobody is pushing,
an item is queued, and the pop is blocked. -/
def LostWakeup (s : State (WaitableSpscQueue N : QueueCode T W)) : Prop :=
  s.prodBuf = [] ∧ s.consBuf = [] ∧ s.prod = none ∧ held s.mem ≠ 0 ∧ s.cons = some .blocked

/--
**No wake-up is lost by a push whose stores are visible when it signals.**  In every
run of pushes and pops in which the push looks at the flag, and notifies, only with an
empty store buffer, the pop is not left blocked beside a queued item.
-/
theorem no_lost_wakeup (N : Capacity W) (es : List (Event T))
    (s : State (WaitableSpscQueue N : QueueCode T W))
    (h : (machine (WaitableSpscQueue N : QueueCode T W)).Exec es s)
    (hdrained : (machine (WaitableSpscQueue N : QueueCode T W)).Along SignalsDrained es) :
    ¬ LostWakeup s := by
  rintro ⟨hbuf, -, hprod, hheld, hblocked⟩
  have hinv : TsoInv s := Machine.Exec.invariant_along TsoInv.initial
    (fun s e s' hi hg hs => hi.step hg hs) h hdrained
  by_cases hflag : s.mem .isSleeping_ = true
  · have hview := hinv.not_waiting (by rw [hprod]; rfl) (by rw [hprod]; simp) hblocked rfl hflag
    rw [hbuf, Instr.view_nil] at hview
    exact hheld (held_eq_zero_iff.mpr hview)
  · obtain ⟨item, hitem⟩ := hinv.owed hblocked (by simpa using hflag)
    rw [hprod] at hitem
    simp at hitem

/-- A pop on an empty queue passes its stop test and tries once. -/
def tryOnce : List (Event Nat) := .callPop :: List.replicate 5 .pop

/-- The pop announces, tries again and waits. -/
def fallAsleep : List (Event Nat) := List.replicate 5 .pop

/-- A push up to the point where it is about to look at the flag. -/
def pushItem : List (Event Nat) := .callPush 7 :: List.replicate 5 .push

/-- The push looks at the flag and returns while its stores are still buffered; they
become visible when the pop is already asleep. -/
def lostRun : List (Event Nat) :=
  tryOnce ++ pushItem ++ [.push, .retPush] ++ fallAsleep ++ [.flushProd, .flushProd]

/-- **The window is real.** -/
theorem lost_wakeup : ∃ s : State (WaitableSpscQueue slots128 : QueueCode Nat 64),
    (machine (WaitableSpscQueue slots128 : QueueCode Nat 64)).Exec lostRun s ∧
      LostWakeup s := by
  refine ⟨_, rfl, rfl, rfl, rfl, ?_, rfl⟩
  decide +kernel

/-- The same calls, with the stores of the push visible when it looks and when it
notifies. -/
def seenRun : List (Event Nat) :=
  tryOnce ++ fallAsleep ++ pushItem ++
    [.flushProd, .flushProd, .push, .push, .flushProd, .push, .retPush]

theorem seenRun_goes : ((machine (WaitableSpscQueue slots128 : QueueCode Nat 64)).run
    (machine (WaitableSpscQueue slots128 : QueueCode Nat 64)).init seenRun).isSome = true := by
  decide +kernel

theorem no_lost_wakeup_seenRun :
    held ((machine (WaitableSpscQueue slots128 : QueueCode Nat 64)).final seenRun
      seenRun_goes).mem = 1 ∧
    ¬ LostWakeup ((machine (WaitableSpscQueue slots128 : QueueCode Nat 64)).final seenRun
      seenRun_goes) :=
  ⟨by decide +kernel, no_lost_wakeup slots128 seenRun _ (Machine.exec_final seenRun_goes)
    (Machine.along_of_alongFrom (by decide +kernel))⟩

end StoreBuffers

end MarketData
