/-
`CustomSpscQueue` is a linearizable bounded FIFO queue.

The atomic queue of `Lib/BoundedQueue.lean` follows the concrete one.  A push
takes effect at its store of `write_`, or at the load of `read_` that shows the
queue full; a pop at its store of `read_`, or at the load of `write_` that shows
it empty; `empty` at the load of the counter the calling thread does not own,
whichever operand the compiler evaluates first, because its own counter stands
still meanwhile.  `absProducer` and `absConsumer` read the atomic object's
program counters off the concrete ones, and every access is then either no step
or exactly one `act` of the atomic object.

The moments at which the queue was full or empty come out of the same argument:
an answer is entered only at an `act`, and at an `act` the list of the atomic
object is the queue.
-/
import MarketData.Proofs.CustomSpscQueue

namespace MarketData.CustomSpscQueue

open Lib
open Lib.BoundedQueue (Side)

variable {T : Type} {W : Nat} {N : Capacity W}

/-- The push in progress. -/
def Producer.pushPc : Producer T W → Option (PushPc T W)
  | .push p => some p
  | _ => none

/-- The pop in progress. -/
def Consumer.popPc : Consumer T W → Option (PopPc T W)
  | .pop p => some p
  | _ => none

/-! ### The atomic object behind a state -/

/-- Where the atomic object's producer stands. -/
def absProducer (m : Mem T W) : Producer T W → BoundedQueue.Producer T
  | .idle => .idle
  | .push (.loadWrite item) => .push item
  | .push (.loadRead item _) => .push item
  | .push (.construct item _) => .push item
  | .push (.publish item _) => .push item
  | .push (.done item ok) => .pushed item ok
  | .empty .readFirst => .empty
  | .empty (.thenWrite r) => .emptied (decide (r = m .write_))
  | .empty .writeFirst => .empty
  | .empty (.thenRead _) => .empty
  | .empty (.done b) => .emptied b

/-- Where the atomic object's consumer stands. -/
def absConsumer (m : Mem T W) : Consumer T W → BoundedQueue.Consumer T
  | .idle => .idle
  | .pop (.done res) => .popped res
  | .pop _ => .pop
  | .empty .readFirst => .empty
  | .empty (.thenWrite _) => .empty
  | .empty .writeFirst => .empty
  | .empty (.thenRead w) => .emptied (decide (m .read_ = w))
  | .empty (.done b) => .emptied b

/-- The producer's own counter, once loaded by `empty`, stays what it was. -/
def Producer.EmptyOk (m : Mem T W) : Producer T W → Prop
  | .empty (.thenRead w) => w = m .write_
  | _ => True

def Consumer.EmptyOk (m : Mem T W) : Consumer T W → Prop
  | .empty (.thenWrite r) => r = m .read_
  | _ => True

/-- The atomic object `t` is what the concrete state `s` stands for. -/
structure Sim (N : Capacity W) (s : State T W) (t : BoundedQueue.State T) : Prop where
  inv : QueueInv N s.mem s.prod.pushPc s.cons.popPc t.items
  prod : t.prod = absProducer s.mem s.prod
  cons : t.cons = absConsumer s.mem s.cons
  emptyP : s.prod.EmptyOk s.mem
  emptyC : s.cons.EmptyOk s.mem

theorem sim_init : Sim N (machine T N).init (BoundedQueue.machine T N.val).init :=
  ⟨QueueInv.initial, rfl, rfl, trivial, trivial⟩

/-- Comparing the two counters tells whether the queue is empty. -/
theorem counters_eq {m : Mem T W} {p : Option (PushPc T W)} {c : Option (PopPc T W)}
    {xs : List T} (h : QueueInv N m p c xs) : decide (m .read_ = m .write_) = xs.isEmpty := by
  rw [h.count]
  have hiff := N.eq_add_iff (r := m .read_) h.le
  cases xs with
  | nil => simp
  | cons x rest =>
      have hne : ¬ (m .read_ = m .read_ + BitVec.ofNat W (x :: rest).length) := by
        rw [hiff]
        simp
      simp only [hne, decide_false, List.isEmpty_cons]

/-! ### Accesses leave the other side's counter alone -/

theorem absConsumer_congr {m m' : Mem T W} (h : m' .read_ = m .read_) (c : Consumer T W) :
    absConsumer m' c = absConsumer m c := by
  unfold absConsumer
  rw [h]

theorem absProducer_congr {m m' : Mem T W} (h : m' .write_ = m .write_) (p : Producer T W) :
    absProducer m' p = absProducer m p := by
  unfold absProducer
  rw [h]

theorem Consumer.EmptyOk.congr {m m' : Mem T W} {c : Consumer T W} (h : m' .read_ = m .read_)
    (hc : c.EmptyOk m) : c.EmptyOk m' := by
  unfold Consumer.EmptyOk at hc ⊢
  rw [h]
  exact hc

theorem Producer.EmptyOk.congr {m m' : Mem T W} {p : Producer T W} (h : m' .write_ = m .write_)
    (hp : p.EmptyOk m) : p.EmptyOk m' := by
  unfold Producer.EmptyOk at hp ⊢
  rw [h]
  exact hp

/-! ### Every access is no step or one `act` of the atomic object -/

/-- A push moves the atomic object at its store of `write_` and where it fails. -/
theorem sim_push {s : State T W} {t : BoundedQueue.State T} (h : Sim N s t) {pc : PushPc T W}
    (hpc : s.prod = .push pc) {n : Instr.Next Loc (Cell T W) Unit (PushPc T W)}
    (hs : (pc.code N).sc s.mem () = some n) :
    Sim N { s with mem := n.mem, prod := .push n.pc } t ∨
      ∃ t', BoundedQueue.actProducer N.val t = some t' ∧
        Sim N { s with mem := n.mem, prod := .push n.pc } t' := by
  have hinv := h.inv
  have hprod := h.prod
  rw [hpc] at hinv hprod
  have hread := (PushPc.frame hs).1
  have hinv' := hinv.push_step hs
  have hcons : t.cons = absConsumer n.mem s.cons := by
    rw [absConsumer_congr hread]; exact h.cons
  have hempC := h.emptyC.congr hread
  cases pc with
  | loadWrite item =>
      simp only [PushPc.code, Instr.sc_load, Option.some.injEq] at hs
      subst hs
      simp only [PushPc.accepts, List.append_nil] at hinv'
      exact Or.inl ⟨hinv', hprod, hcons, trivial, hempC⟩
  | loadRead item w =>
      by_cases hfull : n.pc = .done item false
      · -- The load that shows the queue full is where the failing push takes effect.
        obtain ⟨hmem, hlen⟩ := hinv.push_fails hs hfull
        refine Or.inr ⟨{ t with prod := .pushed item false }, ?_, ?_⟩
        · simp only [absProducer] at hprod
          simp only [BoundedQueue.actProducer, hprod, hlen, if_pos]
        · simp only [PushPc.accepts, List.append_nil] at hinv'
          exact ⟨hinv', by rw [hfull]; rfl, hcons, trivial, hempC⟩
      · simp only [PushPc.code, Instr.sc_load, Option.some.injEq] at hs
        subst hs
        simp only [PushPc.accepts, List.append_nil] at hinv'
        have hgo : ¬ (w - s.mem .read_ = BitVec.ofNat W N.val) := by
          intro hc
          exact hfull (by simp only [if_pos hc])
        refine Or.inl ⟨hinv', ?_, hcons, trivial, hempC⟩
        simp only [if_neg hgo]
        exact hprod
  | construct item w =>
      simp only [PushPc.code, Instr.sc_store, Option.some.injEq] at hs
      subst hs
      simp only [PushPc.accepts, List.append_nil] at hinv'
      exact Or.inl ⟨hinv', hprod, hcons, trivial, hempC⟩
  | publish item w =>
      have hlt : t.items.length < N.val := hinv.prod.2.1
      simp only [PushPc.code, Instr.sc_store, Option.some.injEq] at hs
      subst hs
      refine Or.inr ⟨{ t with items := t.items ++ [item], prod := .pushed item true }, ?_, ?_⟩
      · simp only [absProducer] at hprod
        simp only [BoundedQueue.actProducer, hprod, if_neg (Nat.ne_of_lt hlt)]
      · exact ⟨hinv', rfl, hcons, trivial, hempC⟩
  | done item ok => simp [PushPc.code] at hs

/-- A pop moves the atomic object at its store of `read_` and where it fails. -/
theorem sim_pop {s : State T W} {t : BoundedQueue.State T} (h : Sim N s t) {pc : PopPc T W}
    (hpc : s.cons = .pop pc) {n : Instr.Next Loc (Cell T W) Unit (PopPc T W)}
    (hs : (pc.code N).sc s.mem () = some n) :
    Sim N { s with mem := n.mem, cons := .pop n.pc } t ∨
      ∃ t', BoundedQueue.actConsumer t = some t' ∧
        Sim N { s with mem := n.mem, cons := .pop n.pc } t' := by
  have hinv := h.inv
  have hcons := h.cons
  rw [hpc] at hinv hcons
  have hwrite := (PopPc.frame hs).1
  obtain ⟨xs', hxs, hinv'⟩ := hinv.pop_step hs
  have hprod : t.prod = absProducer n.mem s.prod := by
    rw [absProducer_congr hwrite]; exact h.prod
  have hempP := h.emptyP.congr hwrite
  cases pc with
  | loadWrite r =>
      simp only [PopPc.retires, List.nil_append] at hxs
      rw [← hxs] at hinv'
      by_cases hempty : n.pc = .done none
      · obtain ⟨hmem, hnil⟩ := hinv.pop_fails hs hempty
        refine Or.inr ⟨{ t with cons := .popped none }, ?_, ?_⟩
        · simp only [absConsumer] at hcons
          simp only [BoundedQueue.actConsumer, hcons, hnil]
        · exact ⟨hinv', hprod, by rw [hempty]; rfl, hempP, trivial⟩
      · simp only [PopPc.code, Instr.sc_load, Option.some.injEq] at hs
        subst hs
        have hgo : ¬ (r = s.mem .write_) := by
          intro hc
          exact hempty (by simp only [if_pos hc])
        refine Or.inl ⟨hinv', hprod, ?_, hempP, trivial⟩
        simp only [if_neg hgo]
        exact hcons
  | move r =>
      simp only [PopPc.retires, List.nil_append] at hxs
      rw [← hxs] at hinv'
      refine Or.inl ⟨hinv', hprod, ?_, hempP, trivial⟩
      simp only [PopPc.code, Instr.sc_load, Option.some.injEq] at hs
      subst hs
      cases hcell : s.mem (.data_ (r.toNat % N.val)) <;> exact hcons
  | publish r item =>
      simp only [PopPc.retires, List.singleton_append] at hxs
      simp only [PopPc.code, Instr.sc_store, Option.some.injEq] at hs
      subst hs
      refine Or.inr ⟨{ t with items := xs', cons := .popped (some item) }, ?_, ?_⟩
      · simp only [absConsumer] at hcons
        simp only [BoundedQueue.actConsumer, hcons, hxs]
      · exact ⟨hinv', hprod, rfl, hempP, trivial⟩
  | fault => exact hinv.cons.elim
  | done res => simp [PopPc.code] at hs
  | loadRead =>
      simp only [PopPc.code, Instr.sc_load, Option.some.injEq] at hs
      subst hs
      simp only [PopPc.retires, List.nil_append] at hxs
      rw [← hxs] at hinv'
      exact Or.inl ⟨hinv', hprod, hcons, hempP, trivial⟩
  | destroy r item =>
      simp only [PopPc.code, Instr.sc_store, Option.some.injEq] at hs
      subst hs
      simp only [PopPc.retires, List.nil_append] at hxs
      rw [← hxs] at hinv'
      exact Or.inl ⟨hinv', hprod, hcons, hempP, trivial⟩

/-- `empty` called by the producer takes effect at its load of `read_`. -/
theorem sim_emptyP {s : State T W} {t : BoundedQueue.State T} (h : Sim N s t) {pc : EmptyPc W}
    (hpc : s.prod = .empty pc) {n : Instr.Next Loc (Cell T W) Unit (EmptyPc W)}
    (hs : pc.code.sc s.mem () = some n) :
    Sim N { s with mem := n.mem, prod := .empty n.pc } t ∨
      ∃ t', BoundedQueue.actProducer N.val t = some t' ∧
        Sim N { s with mem := n.mem, prod := .empty n.pc } t' := by
  have hinv := h.inv
  have hprod := h.prod
  have hok := h.emptyP
  rw [hpc] at hinv hprod hok
  have hcount := counters_eq hinv
  cases pc with
  | readFirst =>
      simp only [EmptyPc.code, Instr.sc_load, Option.some.injEq] at hs
      subst hs
      refine Or.inr ⟨{ t with prod := .emptied t.items.isEmpty }, ?_, ?_⟩
      · simp only [absProducer] at hprod
        simp only [BoundedQueue.actProducer, hprod]
      · exact ⟨hinv, by rw [← hcount]; rfl, h.cons, trivial, h.emptyC⟩
  | thenWrite r =>
      simp only [EmptyPc.code, Instr.sc_load, Option.some.injEq] at hs
      subst hs
      exact Or.inl ⟨hinv, hprod, h.cons, trivial, h.emptyC⟩
  | writeFirst =>
      simp only [EmptyPc.code, Instr.sc_load, Option.some.injEq] at hs
      subst hs
      exact Or.inl ⟨hinv, hprod, h.cons, rfl, h.emptyC⟩
  | thenRead w =>
      simp only [EmptyPc.code, Instr.sc_load, Option.some.injEq] at hs
      subst hs
      have hw : w = s.mem .write_ := hok
      refine Or.inr ⟨{ t with prod := .emptied t.items.isEmpty }, ?_, ?_⟩
      · simp only [absProducer] at hprod
        simp only [BoundedQueue.actProducer, hprod]
      · exact ⟨hinv, by rw [← hcount, ← hw]; rfl, h.cons, trivial, h.emptyC⟩
  | done b => simp [EmptyPc.code] at hs

/-- `empty` called by the consumer takes effect at its load of `write_`. -/
theorem sim_emptyC {s : State T W} {t : BoundedQueue.State T} (h : Sim N s t) {pc : EmptyPc W}
    (hpc : s.cons = .empty pc) {n : Instr.Next Loc (Cell T W) Unit (EmptyPc W)}
    (hs : pc.code.sc s.mem () = some n) :
    Sim N { s with mem := n.mem, cons := .empty n.pc } t ∨
      ∃ t', BoundedQueue.actConsumer t = some t' ∧
        Sim N { s with mem := n.mem, cons := .empty n.pc } t' := by
  have hinv := h.inv
  have hcons := h.cons
  have hok := h.emptyC
  rw [hpc] at hinv hcons hok
  have hcount := counters_eq hinv
  cases pc with
  | readFirst =>
      simp only [EmptyPc.code, Instr.sc_load, Option.some.injEq] at hs
      subst hs
      exact Or.inl ⟨hinv, h.prod, hcons, h.emptyP, rfl⟩
  | thenWrite r =>
      simp only [EmptyPc.code, Instr.sc_load, Option.some.injEq] at hs
      subst hs
      have hr : r = s.mem .read_ := hok
      refine Or.inr ⟨{ t with cons := .emptied t.items.isEmpty }, ?_, ?_⟩
      · simp only [absConsumer] at hcons
        simp only [BoundedQueue.actConsumer, hcons]
      · exact ⟨hinv, h.prod, by rw [← hcount, ← hr]; rfl, h.emptyP, trivial⟩
  | writeFirst =>
      simp only [EmptyPc.code, Instr.sc_load, Option.some.injEq] at hs
      subst hs
      refine Or.inr ⟨{ t with cons := .emptied t.items.isEmpty }, ?_, ?_⟩
      · simp only [absConsumer] at hcons
        simp only [BoundedQueue.actConsumer, hcons]
      · exact ⟨hinv, h.prod, by rw [← hcount]; rfl, h.emptyP, trivial⟩
  | thenRead w =>
      simp only [EmptyPc.code, Instr.sc_load, Option.some.injEq] at hs
      subst hs
      exact Or.inl ⟨hinv, h.prod, hcons, h.emptyP, trivial⟩
  | done b => simp [EmptyPc.code] at hs

/-- **Every access is no step or one `act` of its side.** -/
theorem sim_access {s s' : State T W} {t : BoundedQueue.State T} (h : Sim N s t) {side : Side}
    (hs : step N s (.access side) = some s') :
    Sim N s' t ∨ ∃ t', BoundedQueue.step N.val t (.act side) = some t' ∧ Sim N s' t' := by
  cases side with
  | producer =>
      simp only [step, accessProducer] at hs
      split at hs
      · simp at hs
      · rename_i pc hpc
        obtain ⟨n, hn, rfl⟩ := Option.map_eq_some_iff.mp hs
        exact sim_push h hpc hn
      · rename_i pc hpc
        obtain ⟨n, hn, rfl⟩ := Option.map_eq_some_iff.mp hs
        exact sim_emptyP h hpc hn
  | consumer =>
      simp only [step, accessConsumer] at hs
      split at hs
      · simp at hs
      · rename_i pc hpc
        obtain ⟨n, hn, rfl⟩ := Option.map_eq_some_iff.mp hs
        exact sim_pop h hpc hn
      · rename_i pc hpc
        obtain ⟨n, hn, rfl⟩ := Option.map_eq_some_iff.mp hs
        exact sim_emptyC h hpc hn

/-! ### Calls and returns -/

theorem sim_callEmptyP {s : State T W} {t : BoundedQueue.State T} (h : Sim N s t)
    (hidle : s.prod = .idle) (readFirst : Bool) :
    Sim N { s with prod := .empty (callEmpty readFirst) } { t with prod := .empty } := by
  have hinv := h.inv
  rw [hidle] at hinv
  cases readFirst <;> exact ⟨hinv, rfl, h.cons, trivial, h.emptyC⟩

theorem sim_callEmptyC {s : State T W} {t : BoundedQueue.State T} (h : Sim N s t)
    (hidle : s.cons = .idle) (readFirst : Bool) :
    Sim N { s with cons := .empty (callEmpty readFirst) } { t with cons := .empty } := by
  have hinv := h.inv
  rw [hidle] at hinv
  cases readFirst <;> exact ⟨hinv, h.prod, rfl, h.emptyP, trivial⟩

theorem sim_retP {s : State T W} {t : BoundedQueue.State T} (h : Sim N s t)
    (hfree : PushPc.built s.prod.pushPc = 0) :
    Sim N { s with prod := .idle } { t with prod := .idle } :=
  ⟨h.inv.set_prod hfree.symm trivial, rfl, h.cons, trivial, h.emptyC⟩

theorem sim_retC {s : State T W} {t : BoundedQueue.State T} (h : Sim N s t)
    (hfree : PopPc.destroyed s.cons.popPc = 0) :
    Sim N { s with cons := .idle } { t with cons := .idle } :=
  ⟨h.inv.set_cons hfree.symm trivial, h.prod, rfl, h.emptyP, trivial⟩

/-- A call or a return is the same call or return of the atomic object. -/
theorem sim_visible {s s' : State T W} {t : BoundedQueue.State T} (h : Sim N s t) {e : Event T}
    (hs : step N s e = some s') (he : ∀ side, e ≠ .access side) :
    ∃ d t', BoundedQueue.step N.val t d = some t' ∧ BoundedQueue.obs t d = obs s e ∧
      Sim N s' t' := by
  have hinv := h.inv
  have hprod := h.prod
  have hcons := h.cons
  cases e with
  | callPush item =>
      simp only [step] at hs
      split at hs
      · rename_i hidle
        simp only [Option.some.injEq] at hs
        subst hs
        rw [hidle] at hinv hprod
        refine ⟨.callPush item, { t with prod := .push item }, ?_, rfl, ?_⟩
        · simp only [BoundedQueue.step, hprod, absProducer]
        · exact ⟨hinv.set_prod rfl trivial, rfl, hcons, trivial, h.emptyC⟩
      · simp at hs
  | callPop =>
      simp only [step] at hs
      split at hs
      · rename_i hidle
        simp only [Option.some.injEq] at hs
        subst hs
        rw [hidle] at hinv hcons
        refine ⟨.callPop, { t with cons := .pop }, ?_, rfl, ?_⟩
        · simp only [BoundedQueue.step, hcons, absConsumer]
        · exact ⟨hinv.set_cons rfl trivial, hprod, rfl, h.emptyP, trivial⟩
      · simp at hs
  | callEmpty side readFirst =>
      cases side with
      | producer =>
          simp only [step] at hs
          split at hs
          · rename_i hidle
            simp only [Option.some.injEq] at hs
            subst hs
            rw [hidle] at hprod
            refine ⟨.callEmpty .producer, _, ?_, rfl, sim_callEmptyP h hidle readFirst⟩
            simp only [BoundedQueue.step, hprod, absProducer]
          · simp at hs
      | consumer =>
          simp only [step] at hs
          split at hs
          · rename_i hidle
            simp only [Option.some.injEq] at hs
            subst hs
            rw [hidle] at hcons
            refine ⟨.callEmpty .consumer, _, ?_, rfl, sim_callEmptyC h hidle readFirst⟩
            simp only [BoundedQueue.step, hcons, absConsumer]
          · simp at hs
  | access side => exact absurd rfl (he side)
  | ret side =>
      cases side with
      | producer =>
          simp only [step] at hs
          split at hs
          · rename_i item ok hdone
            simp only [Option.some.injEq] at hs
            subst hs
            refine ⟨.ret .producer, _, ?_, ?_, sim_retP h (by rw [hdone]; rfl)⟩ <;>
              simp only [BoundedQueue.step, BoundedQueue.obs, obs, hprod, hdone, absProducer]
          · rename_i b hdone
            simp only [Option.some.injEq] at hs
            subst hs
            refine ⟨.ret .producer, _, ?_, ?_, sim_retP h (by rw [hdone]; rfl)⟩ <;>
              simp only [BoundedQueue.step, BoundedQueue.obs, obs, hprod, hdone, absProducer]
          · simp at hs
      | consumer =>
          simp only [step] at hs
          split at hs
          · rename_i res hdone
            simp only [Option.some.injEq] at hs
            subst hs
            refine ⟨.ret .consumer, _, ?_, ?_, sim_retC h (by rw [hdone]; rfl)⟩ <;>
              simp only [BoundedQueue.step, BoundedQueue.obs, obs, hcons, hdone, absConsumer]
          · rename_i b hdone
            simp only [Option.some.injEq] at hs
            subst hs
            refine ⟨.ret .consumer, _, ?_, ?_, sim_retC h (by rw [hdone]; rfl)⟩ <;>
              simp only [BoundedQueue.step, BoundedQueue.obs, obs, hcons, hdone, absConsumer]
          · simp at hs

/-- The atomic bounded queue follows the concrete one. -/
theorem simulation : Machine.Simulation (machine T N) (BoundedQueue.machine T N.val) obs
    BoundedQueue.obs (fun _ _ => True) (Sim N) where
  init := sim_init
  step := by
    intro s t e s' h _ hs
    by_cases he : ∃ side, e = .access side
    · obtain ⟨side, rfl⟩ := he
      rcases sim_access h hs with h' | ⟨t', ht', h'⟩
      · exact ⟨[], t, rfl, rfl, h'⟩
      · refine ⟨[.act side], t', ?_, ?_, h'⟩
        · rw [Machine.run_singleton]; exact ht'
        · rw [Machine.collect_singleton _ ht']; rfl
    · obtain ⟨d, t', ht', hobs, h'⟩ := sim_visible h hs (fun side hc => he ⟨side, hc⟩)
      refine ⟨[d], t', ?_, ?_, h'⟩
      · rw [Machine.run_singleton]; exact ht'
      · rw [Machine.collect_singleton _ ht', hobs]

/-- Every reachable state stands for some state of the atomic object. -/
theorem exec_sim {es : List (Event T)} {s : State T W} (h : (machine T N).Exec es s) :
    ∃ t, Sim N s t := by
  obtain ⟨-, t, -, -, ht⟩ := simulation.exec h (Machine.along_true es)
  exact ⟨t, ht⟩

/-! ### Where an answer is entered -/

private theorem isEmpty_eq_decide (xs : List T) : xs.isEmpty = decide (xs.length = 0) := by
  cases xs <;> simp

/-- A call or return of one side leaves the other side as it was, and leaves its
own side without an answer. -/
theorem visible_frame {s s' : State T W} {e : Event T} (hs : step N s e = some s')
    (he : ∀ side, e ≠ .access side) :
    s'.mem = s.mem ∧
      (s'.prod = s.prod ∨ ¬ (absProducer s'.mem s'.prod).Answered) ∧
      (s'.cons = s.cons ∨ ¬ (absConsumer s'.mem s'.cons).Answered) := by
  cases e with
  | access side => exact absurd rfl (he side)
  | callPush item =>
      simp only [step] at hs
      split at hs <;> simp only [Option.some.injEq, reduceCtorEq] at hs
      subst hs
      exact ⟨rfl, Or.inr id, Or.inl rfl⟩
  | callPop =>
      simp only [step] at hs
      split at hs <;> simp only [Option.some.injEq, reduceCtorEq] at hs
      subst hs
      exact ⟨rfl, Or.inl rfl, Or.inr id⟩
  | callEmpty side readFirst =>
      cases side <;> simp only [step] at hs <;> split at hs <;>
        simp only [Option.some.injEq, reduceCtorEq] at hs <;> subst hs
      · exact ⟨rfl, Or.inr (by cases readFirst <;> exact id), Or.inl rfl⟩
      · exact ⟨rfl, Or.inl rfl, Or.inr (by cases readFirst <;> exact id)⟩
  | ret side =>
      cases side <;> simp only [step] at hs <;> split at hs <;>
        simp only [Option.some.injEq, reduceCtorEq] at hs <;> subst hs
      · exact ⟨rfl, Or.inr id, Or.inl rfl⟩
      · exact ⟨rfl, Or.inr id, Or.inl rfl⟩
      · exact ⟨rfl, Or.inl rfl, Or.inr id⟩
      · exact ⟨rfl, Or.inl rfl, Or.inr id⟩

/-- An answer of the producer is the truth where it is entered. -/
theorem producer_enters {s s' : State T W} {t : BoundedQueue.State T} {e : Event T}
    (h : Sim N s t) (hs : step N s e = some s')
    (hans : (absProducer s'.mem s'.prod).Answered) :
    absProducer s'.mem s'.prod = absProducer s.mem s.prod ∨
      ((∀ item, absProducer s'.mem s'.prod = .pushed item false → held s'.mem = N.val) ∧
        ∀ b, absProducer s'.mem s'.prod = .emptied b → b = decide (held s'.mem = 0)) := by
  by_cases he : ∃ side, e = .access side
  · obtain ⟨side, rfl⟩ := he
    rcases sim_access h hs with h' | ⟨t', ht', h'⟩
    · exact Or.inl (h'.prod.symm.trans h.prod)
    · rw [← h'.prod, ← h.prod, h'.inv.held_eq]
      cases side with
      | producer =>
          obtain ⟨-, hfull, hempty⟩ := BoundedQueue.act_producer_answer ht'
          refine Or.inr ⟨hfull, fun b hb => ?_⟩
          rw [hempty b hb]
          exact isEmpty_eq_decide _
      | consumer => exact Or.inl (BoundedQueue.act_consumer_answer ht').1
  · obtain ⟨hmem, hprod | hno, -⟩ := visible_frame hs (fun side hc => he ⟨side, hc⟩)
    · exact Or.inl (by rw [hmem, hprod])
    · exact absurd hans hno

/-- An answer of the consumer is the truth where it is entered. -/
theorem consumer_enters {s s' : State T W} {t : BoundedQueue.State T} {e : Event T}
    (h : Sim N s t) (hs : step N s e = some s')
    (hans : (absConsumer s'.mem s'.cons).Answered) :
    absConsumer s'.mem s'.cons = absConsumer s.mem s.cons ∨
      ((absConsumer s'.mem s'.cons = .popped none → held s'.mem = 0) ∧
        ∀ b, absConsumer s'.mem s'.cons = .emptied b → b = decide (held s'.mem = 0)) := by
  by_cases he : ∃ side, e = .access side
  · obtain ⟨side, rfl⟩ := he
    rcases sim_access h hs with h' | ⟨t', ht', h'⟩
    · exact Or.inl (h'.cons.symm.trans h.cons)
    · rw [← h'.cons, ← h.cons, h'.inv.held_eq]
      cases side with
      | producer => exact Or.inl (BoundedQueue.act_producer_answer ht').1
      | consumer =>
          obtain ⟨-, hnone, hempty⟩ := BoundedQueue.act_consumer_answer ht'
          refine Or.inr ⟨fun hc => by rw [hnone hc]; rfl, fun b hb => ?_⟩
          rw [hempty b hb]
          exact isEmpty_eq_decide _
  · obtain ⟨hmem, -, hcons | hno⟩ := visible_frame hs (fun side hc => he ⟨side, hc⟩)
    · exact Or.inl (by rw [hmem, hcons])
    · exact absurd hans hno

/-! ### Moments inside a call -/

/-- `P` held at some moment between the event `call` and the end of the run. -/
def SomeMoment (N : Capacity W) (pre : List (Event T)) (call : Event T) (mid : List (Event T))
    (P : State T W → Prop) : Prop :=
  ∃ fs gs u, mid = fs ++ gs ∧ (machine T N).Exec (pre ++ call :: fs) u ∧ P u

/-- If what `view` sees at the end was not yet there at the call, then it was entered at a
moment in between. -/
theorem someMoment_of_entered {A : Type} (view : State T W → A) {P : State T W → Prop}
    {pre mid : List (Event T)} {call : Event T} {s : State T W}
    (h : (machine T N).Exec (pre ++ call :: mid) s)
    (hcall : ∀ u u', step N u call = some u' → view u' ≠ view s)
    (henter : ∀ u t e u', Sim N u t → step N u e = some u' → view u' = view s →
      view u' = view u ∨ P u') : SomeMoment N pre call mid P := by
  rw [List.append_cons] at h
  obtain ⟨s₁, h₁, hrun⟩ := h.split
  obtain ⟨s₀, -, hstep⟩ := Machine.run_snoc_some.mp h₁
  have hmoment := Machine.Exec.exists_moment (Q := fun u => view u = view s) (P := P) h₁
    (hcall s₀ s₁ hstep)
  obtain ⟨fs, gs, u, hsplit, hu, hp⟩ := hmoment (by
    intro es u e u' hex hstep' hq
    obtain ⟨t, ht⟩ := exec_sim hex
    exact (henter u t e u' ht hstep' hq).imp_left fun heq => heq.symm.trans hq) hrun rfl
  exact ⟨fs, gs, u, hsplit, by rw [List.append_cons]; exact hu, hp⟩

theorem producer_moment {pre mid : List (Event T)} {call : Event T} {s : State T W}
    (h : (machine T N).Exec (pre ++ call :: mid) s)
    (hcall : ∀ u u', step N u call = some u' → ¬ (absProducer u'.mem u'.prod).Answered)
    (hans : (absProducer s.mem s.prod).Answered) :
    SomeMoment N pre call mid fun u =>
      (∀ item, absProducer s.mem s.prod = .pushed item false → held u.mem = N.val) ∧
        ∀ b, absProducer s.mem s.prod = .emptied b → b = decide (held u.mem = 0) := by
  refine someMoment_of_entered (fun u => absProducer u.mem u.prod) h ?_ ?_
  · intro u u' hstep heq
    exact hcall u u' hstep (by rw [heq]; exact hans)
  · intro u t e u' ht hstep hq
    have henters := producer_enters ht hstep (by rw [hq]; exact hans)
    rw [hq] at henters ⊢
    exact henters

theorem consumer_moment {pre mid : List (Event T)} {call : Event T} {s : State T W}
    (h : (machine T N).Exec (pre ++ call :: mid) s)
    (hcall : ∀ u u', step N u call = some u' → ¬ (absConsumer u'.mem u'.cons).Answered)
    (hans : (absConsumer s.mem s.cons).Answered) :
    SomeMoment N pre call mid fun u =>
      (absConsumer s.mem s.cons = .popped none → held u.mem = 0) ∧
        ∀ b, absConsumer s.mem s.cons = .emptied b → b = decide (held u.mem = 0) := by
  refine someMoment_of_entered (fun u => absConsumer u.mem u.cons) h ?_ ?_
  · intro u u' hstep heq
    exact hcall u u' hstep (by rw [heq]; exact hans)
  · intro u t e u' ht hstep hq
    have henters := consumer_enters ht hstep (by rw [hq]; exact hans)
    rw [hq] at henters ⊢
    exact henters

/-- A thread that has just called has no answer yet. -/
theorem unanswered_callPush {u u' : State T W} {item : T}
    (h : step N u (.callPush item) = some u') : ¬ (absProducer u'.mem u'.prod).Answered := by
  simp only [step] at h
  split at h <;> simp only [Option.some.injEq, reduceCtorEq] at h
  subst h
  exact id

theorem unanswered_callPop {u u' : State T W} (h : step N u .callPop = some u') :
    ¬ (absConsumer u'.mem u'.cons).Answered := by
  simp only [step] at h
  split at h <;> simp only [Option.some.injEq, reduceCtorEq] at h
  subst h
  exact id

theorem unanswered_callEmpty {u u' : State T W} {side : BoundedQueue.Side} {readFirst : Bool}
    (h : step N u (.callEmpty side readFirst) = some u') :
    (side = .producer → ¬ (absProducer u'.mem u'.prod).Answered) ∧
      (side = .consumer → ¬ (absConsumer u'.mem u'.cons).Answered) := by
  cases side with
  | producer =>
      simp only [step] at h
      split at h <;> simp only [Option.some.injEq, reduceCtorEq] at h
      subst h
      refine ⟨fun _ => ?_, fun hside => ?_⟩
      · cases readFirst <;> exact id
      · cases hside
  | consumer =>
      simp only [step] at h
      split at h <;> simp only [Option.some.injEq, reduceCtorEq] at h
      subst h
      refine ⟨fun hside => ?_, fun _ => ?_⟩
      · cases hside
      · cases readFirst <;> exact id

/-! ### The queue is linearizable -/

/-- The item of a push that has stored `write_` and not returned: it is a
successful push already. -/
def Producer.published : Producer T W → List T
  | .push (.done item true) => [item]
  | _ => []

/-- The item a pop has taken out of its slot and not returned. -/
def Consumer.taken : Consumer T W → List T
  | .pop (.publish _ item) => [item]
  | .pop (.done res) => res.toList
  | _ => []

theorem published_eq (m : Mem T W) (p : Producer T W) :
    (absProducer m p).published = p.published := by
  rcases p with _ | pc | pc
  · rfl
  · cases pc with
    | done item ok => cases ok <;> rfl
    | _ => rfl
  · cases pc <;> rfl

theorem taken_append_contents {s : State T W} {t : BoundedQueue.State T} (h : Sim N s t) :
    t.cons.taken ++ t.items = s.cons.taken ++ contents N s.mem := by
  have hinv := h.inv
  rw [h.cons, hinv.contents_eq]
  rcases hc : s.cons with _ | pc | pc
  · rfl
  · rw [hc] at hinv
    cases pc with
    | publish r item =>
        obtain ⟨-, hhead, -⟩ := hinv.cons
        obtain ⟨rest, hrest⟩ : ∃ rest, t.items = item :: rest := List.head?_eq_some_iff.mp hhead
        rw [hrest]
        rfl
    | _ => rfl
  · cases pc <;> rfl

/--
**`CustomSpscQueue` is a linearizable bounded FIFO queue.**  For every ring size,
every interleaving of the two threads' accesses and every moment of the run: the
history is one of the atomic bounded queue; what pops returned is a prefix of what
successful pushes were given, and the rest is on its way out or in the slots; a
push about to return false saw the queue full during its call; a pop about to
return false saw it empty; `empty` is about to return what was true during its
call, whichever side calls it and whichever counter it loads first.
-/
theorem linearizable (N : Capacity W) (es : List (Event T)) (s : State T W)
    (h : (machine T N).Exec es s) :
    (∃ ds t, (BoundedQueue.machine T N.val).Exec ds t ∧
      (BoundedQueue.machine T N.val).log BoundedQueue.obs ds = (machine T N).log obs es) ∧
    BoundedQueue.delivered ((machine T N).log obs es) <+:
      BoundedQueue.accepted ((machine T N).log obs es) ++ s.prod.published ∧
    BoundedQueue.accepted ((machine T N).log obs es) ++ s.prod.published =
      BoundedQueue.delivered ((machine T N).log obs es) ++ (s.cons.taken ++ contents N s.mem) ∧
    (∀ pre item mid, es = pre ++ .callPush item :: mid → .ret .producer ∉ mid →
      s.prod = .push (.done item false) →
      SomeMoment N pre (.callPush item) mid fun u => held u.mem = N.val) ∧
    (∀ pre mid, es = pre ++ .callPop :: mid → .ret .consumer ∉ mid →
      s.cons = .pop (.done none) →
      SomeMoment N pre .callPop mid fun u => held u.mem = 0) ∧
    (∀ pre readFirst mid b, es = pre ++ .callEmpty .producer readFirst :: mid →
      .ret .producer ∉ mid → s.prod = .empty (.done b) →
      SomeMoment N pre (.callEmpty .producer readFirst) mid fun u =>
        b = decide (held u.mem = 0)) ∧
    (∀ pre readFirst mid b, es = pre ++ .callEmpty .consumer readFirst :: mid →
      .ret .consumer ∉ mid → s.cons = .empty (.done b) →
      SomeMoment N pre (.callEmpty .consumer readFirst) mid fun u =>
        b = decide (held u.mem = 0)) := by
  obtain ⟨ds, t, hds, hlog, hsim⟩ := simulation.exec h (Machine.along_true es)
  have hbal : BoundedQueue.accepted ((machine T N).log obs es) ++ s.prod.published =
      BoundedQueue.delivered ((machine T N).log obs es) ++ (s.cons.taken ++ contents N s.mem) := by
    have hfifo := BoundedQueue.fifo hds
    unfold BoundedQueue.Balanced at hfifo
    rw [hlog, hsim.prod, published_eq, List.append_assoc, taken_append_contents hsim] at hfifo
    exact hfifo
  refine ⟨⟨ds, t, hds, hlog⟩, ⟨_, hbal.symm⟩, hbal, ?_, ?_, ?_, ?_⟩
  · intro pre item mid hes _ hdone
    have hans : absProducer s.mem s.prod = .pushed item false := by rw [hdone]; rfl
    obtain ⟨fs, gs, u, hsplit, hu, hfull, -⟩ := producer_moment (hes ▸ h)
      (fun _ _ => unanswered_callPush) (by rw [hans]; trivial)
    exact ⟨fs, gs, u, hsplit, hu, hfull item hans⟩
  · intro pre mid hes _ hdone
    have hans : absConsumer s.mem s.cons = .popped none := by rw [hdone]; rfl
    obtain ⟨fs, gs, u, hsplit, hu, hnone, -⟩ := consumer_moment (hes ▸ h)
      (fun _ _ => unanswered_callPop) (by rw [hans]; trivial)
    exact ⟨fs, gs, u, hsplit, hu, hnone hans⟩
  · intro pre readFirst mid b hes _ hdone
    have hans : absProducer s.mem s.prod = .emptied b := by rw [hdone]; rfl
    obtain ⟨fs, gs, u, hsplit, hu, -, htruth⟩ := producer_moment (hes ▸ h)
      (fun _ _ hstep => (unanswered_callEmpty hstep).1 rfl) (by rw [hans]; trivial)
    exact ⟨fs, gs, u, hsplit, hu, htruth b hans⟩
  · intro pre readFirst mid b hes _ hdone
    have hans : absConsumer s.mem s.cons = .emptied b := by rw [hdone]; rfl
    obtain ⟨fs, gs, u, hsplit, hu, -, htruth⟩ := consumer_moment (hes ▸ h)
      (fun _ _ hstep => (unanswered_callEmpty hstep).2 rfl) (by rw [hans]; trivial)
    exact ⟨fs, gs, u, hsplit, hu, htruth b hans⟩

/-- One slot and counters of one bit, so that they wrap on the second item. -/
def oneSlot : Capacity 1 := ⟨1, 0, by decide, rfl⟩

/-- The events of an undisturbed push that succeeds. -/
def pushEvents (item : Nat) : List (Event Nat) :=
  .callPush item :: (List.replicate 4 (.access .producer)).concat (.ret .producer)

/-- The events of an undisturbed pop that succeeds. -/
def popEvents : List (Event Nat) :=
  .callPop :: (List.replicate 5 (.access .consumer)).concat (.ret .consumer)

/-- Two items through one slot, and a third push that finds it full. -/
def wrappingRun : List (Event Nat) :=
  pushEvents 7 ++ popEvents ++ pushEvents 8 ++
    [.callPush 9, .access .producer, .access .producer]

theorem wrappingRun_goes : ((machine Nat oneSlot).run (machine Nat oneSlot).init
    wrappingRun).isSome = true := by decide +kernel

theorem linearizable_wrappingRun :
    ((machine Nat oneSlot).final wrappingRun wrappingRun_goes).mem .write_ = (0 : BitVec 1) ∧
    BoundedQueue.delivered ((machine Nat oneSlot).log obs wrappingRun) = [7] ∧
    BoundedQueue.delivered ((machine Nat oneSlot).log obs wrappingRun) <+:
      BoundedQueue.accepted ((machine Nat oneSlot).log obs wrappingRun) ++
        ((machine Nat oneSlot).final wrappingRun wrappingRun_goes).prod.published :=
  ⟨by decide +kernel, by decide +kernel,
    (linearizable oneSlot wrappingRun _ (Machine.exec_final wrappingRun_goes)).2.1⟩

end MarketData.CustomSpscQueue
