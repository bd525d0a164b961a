/-
Every object in a queue is destroyed once, unless the counters end out of order.

While the queue is used, each slot holds an object exactly where the invariant of the
queue says so: a push builds in a slot that is free, and a pop destroys the object it has
moved from.  `Accounted` says that the storage of `Lib/Lifetime.lean`, which numbers the
objects and refuses what is undefined, agrees with the queue's own memory all along.

The destructor then walks from `read_` up to `write_`.  It compares the counters as
numbers, so it meets every object if `read_ ≤ write_`, and none at all if `write_` has
wrapped once more than `read_`.  In that case there is an object in between, since the
counters differ, and it is never destroyed.
-/
import MarketData.Proofs.Linearizable

namespace MarketData.CustomSpscQueue

open Lib
open Lib.BoundedQueue (Side)

variable {T : Type} {W : Nat} {N : Capacity W}

/-- The object was destroyed by the pop that returned it, or by the destructor. -/
def Rightful (e : Object T × DestroyedBy T) : Prop := e.2 = .pop e.1.value ∨ e.2 = .destructor

/-- Each object was destroyed once and rightfully, and there is none left. -/
structure Settled (st : Storage T (DestroyedBy T)) : Prop where
  once : ∀ k < st.constructed, st.timesDestroyed k = 1
  rightful : ∀ e ∈ st.destroyed, Rightful e
  empty : ∀ slot, st.live slot = none

/-- The actions are all defined, and leave everything settled. -/
def DestroyedOnce (actions : List (SlotAction T (DestroyedBy T))) : Prop :=
  ∃ st, (Storage.machine T (DestroyedBy T)).Exec actions st ∧ Settled st

/-! ### While the queue is used -/

/-- The storage has its objects where the queue's memory has them. -/
structure Accounted (N : Capacity W) (m : Mem T W) (st : Storage T (DestroyedBy T)) : Prop where
  agree : slots m = Option.map Object.value ∘ st.live
  outside : ∀ i, N.val ≤ i → st.live i = none
  rightful : ∀ e ∈ st.destroyed, Rightful e

variable {m m' : Mem T W} {st : Storage T (DestroyedBy T)} {xs : List T}

theorem Accounted.initial :
    Accounted N Mem.initial (Storage.initial : Storage T (DestroyedBy T)) where
  agree := rfl
  outside := fun _ _ => rfl
  rightful := by
    intro e he
    cases he

/-- Accounts stay right while the slots do not change. -/
theorem Accounted.congr (h : Accounted N m st) (hslots : slots m' = slots m) :
    Accounted N m' st := ⟨hslots.trans h.agree, h.outside, h.rightful⟩

theorem Accounted.live_eq_none (h : Accounted N m st) {i : Nat} (hi : m (.data_ i) = none) :
    st.live i = none := by
  have heq : m (.data_ i) = (st.live i).map Object.value := congrFun h.agree i
  rw [heq, Option.map_eq_none_iff] at hi
  exact hi

theorem Accounted.live_eq_some (h : Accounted N m st) {i : Nat} {x : T}
    (hi : m (.data_ i) = some x) : ∃ o, st.live i = some o ∧ o.value = x := by
  have heq : m (.data_ i) = (st.live i).map Object.value := congrFun h.agree i
  rw [heq, Option.map_eq_some_iff] at hi
  exact hi

theorem Accounted.construct (h : Accounted N m st) {i : Nat} (hi : i < N.val) (item : T) :
    Accounted N (Function.update m (.data_ i) (some item)) (st.construct i item) := by
  refine ⟨?_, fun j hj => ?_, h.rightful⟩
  · rw [slots_update_data, Storage.live_construct, Function.comp_update, h.agree]
    rfl
  · rw [Storage.live_construct, Function.update_of_ne (by omega)]
    exact h.outside j hj

/-- Destroying an object rightfully keeps all others as they were. -/
theorem Accounted.destroy (h : Accounted N m st) {i : Nat} (hi : i < N.val) (o : Object T) :
    Accounted N (Function.update m (.data_ i) none) (st.destroy i o (.pop o.value)) := by
  refine ⟨?_, fun j hj => ?_, ?_⟩
  · rw [slots_update_data, Storage.live_destroy, Function.comp_update, h.agree]
    rfl
  · rw [Storage.live_destroy, Function.update_of_ne (by omega)]
    exact h.outside j hj
  · show ∀ e ∈ st.destroyed ++ [(o, DestroyedBy.pop o.value)], Rightful e
    rw [List.forall_mem_append, List.forall_mem_singleton]
    exact ⟨h.rightful, .inl rfl⟩

/-! ### One access -/

theorem slots_of_push {pc : PushPc T W} {n : Instr.Next Loc (Cell T W) Unit (PushPc T W)}
    (hs : (pc.code N).sc m () = some n) (hpc : pc.slotAction N = none) :
    slots n.mem = slots m := by
  cases pc with
  | construct item w => cases hpc
  | done item ok => cases hs
  | _ =>
      simp only [PushPc.code, Instr.sc_load, Instr.sc_store, Option.some.injEq] at hs
      subst hs
      simp

theorem slots_of_pop {pc : PopPc T W} {n : Instr.Next Loc (Cell T W) Unit (PopPc T W)}
    (hs : (pc.code N).sc m () = some n) (hpc : pc.slotAction N = none) :
    slots n.mem = slots m := by
  cases pc with
  | destroy r item => cases hpc
  | done res => cases hs
  | fault => cases hs
  | _ =>
      simp only [PopPc.code, Instr.sc_load, Instr.sc_store, Option.some.injEq] at hs
      subst hs
      simp

/-- The slot a push builds in is free. -/
theorem Accounted.push {pc : PushPc T W} {c : Option (PopPc T W)}
    {n : Instr.Next Loc (Cell T W) Unit (PushPc T W)} (h : Accounted N m st)
    (hinv : QueueInv N m (some pc) c xs) (hs : (pc.code N).sc m () = some n) :
    ∃ st', (Storage.machine T (DestroyedBy T)).run st (pc.slotAction N).toList = some st' ∧
      Accounted N n.mem st' := by
  cases hact : pc.slotAction N with
  | none => exact ⟨st, rfl, h.congr (slots_of_push hs hact)⟩
  | some a =>
      cases pc with
      | construct item w =>
          obtain ⟨rfl, hlt⟩ := hinv.prod
          simp only [PushPc.code, Instr.sc_store, Option.some.injEq] at hs
          subst hs
          cases hact
          have hfree : st.live ((m .write_).toNat % N.val) = none := by
            refine h.live_eq_none ?_
            rw [hinv.write_slot]
            exact hinv.filled.free xs.length (Nat.le_refl _) hlt
          refine ⟨st.construct ((m .write_).toNat % N.val) item, ?_, ?_⟩
          · rw [Option.toList_some, Machine.run_singleton]
            exact Storage.act_construct hfree item
          · exact h.construct (Nat.mod_lt _ N.val_pos) item
      | _ => cases hact

/-- A pop destroys the object it returns. -/
theorem Accounted.pop {pc : PopPc T W} {p : Option (PushPc T W)}
    {n : Instr.Next Loc (Cell T W) Unit (PopPc T W)} (h : Accounted N m st)
    (hinv : QueueInv N m p (some pc) xs) (hs : (pc.code N).sc m () = some n) :
    ∃ st', (Storage.machine T (DestroyedBy T)).run st (pc.slotAction N).toList = some st' ∧
      Accounted N n.mem st' := by
  cases hact : pc.slotAction N with
  | none => exact ⟨st, rfl, h.congr (slots_of_pop hs hact)⟩
  | some a =>
      cases pc with
      | destroy r item =>
          obtain ⟨rfl, hhead⟩ := hinv.cons
          obtain ⟨rest, rfl⟩ : ∃ rest, xs = item :: rest := List.head?_eq_some_iff.mp hhead
          simp only [PopPc.code, Instr.sc_store, Option.some.injEq] at hs
          subst hs
          cases hact
          obtain ⟨o, ho, rfl⟩ := h.live_eq_some
            (hinv.filled.live 0 item (Nat.zero_le _) rfl : m (.data_ _) = some item)
          refine ⟨st.destroy ((m .read_).toNat % N.val) o (.pop o.value), ?_, ?_⟩
          · rw [Option.toList_some, Machine.run_singleton]
            exact Storage.act_destroy ho _
          · exact h.destroy (Nat.mod_lt _ N.val_pos) o
      | _ => cases hact

theorem mem_of_empty {pc : EmptyPc W} {n : Instr.Next Loc (Cell T W) Unit (EmptyPc W)}
    (hs : pc.code.sc m () = some n) : n.mem = m := by
  cases pc with
  | done b => cases hs
  | _ =>
      simp only [EmptyPc.code, Instr.sc_load, Option.some.injEq] at hs
      subst hs
      rfl

theorem slotAction_of_visible {s : State T W} {e : Event T} (he : ∀ side, e ≠ .access side) :
    slotAction N s e = none := by
  cases e with
  | access side => exact absurd rfl (he side)
  | _ => rfl

theorem Accounted.step {s s' : State T W} {e : Event T} (h : Accounted N s.mem st)
    (hinv : QueueInv N s.mem s.prod.pushPc s.cons.popPc xs) (hs : step N s e = some s') :
    ∃ st', (Storage.machine T (DestroyedBy T)).run st (slotAction N s e).toList = some st' ∧
      Accounted N s'.mem st' := by
  by_cases he : ∃ side, e = .access side
  · obtain ⟨side, rfl⟩ := he
    cases side with
    | producer =>
        simp only [CustomSpscQueue.step, accessProducer] at hs
        simp only [slotAction]
        cases hprod : s.prod with
        | idle => simp [hprod] at hs
        | push p =>
            rw [hprod] at hs hinv
            obtain ⟨n, hn, rfl⟩ := Option.map_eq_some_iff.mp hs
            exact h.push hinv hn
        | empty p =>
            rw [hprod] at hs
            obtain ⟨n, hn, rfl⟩ := Option.map_eq_some_iff.mp hs
            exact ⟨st, rfl, h.congr (by rw [mem_of_empty hn])⟩
    | consumer =>
        simp only [CustomSpscQueue.step, accessConsumer] at hs
        simp only [slotAction]
        cases hcons : s.cons with
        | idle => simp [hcons] at hs
        | pop p =>
            rw [hcons] at hs hinv
            obtain ⟨n, hn, rfl⟩ := Option.map_eq_some_iff.mp hs
            exact h.pop hinv hn
        | empty p =>
            rw [hcons] at hs
            obtain ⟨n, hn, rfl⟩ := Option.map_eq_some_iff.mp hs
            exact ⟨st, rfl, h.congr (by rw [mem_of_empty hn])⟩
  · have he' : ∀ side, e ≠ .access side := fun side hc => he ⟨side, hc⟩
    rw [slotAction_of_visible he']
    exact ⟨st, rfl, h.congr (by rw [(visible_frame hs he').1])⟩

/-- **Up to the destructor every action is defined.** -/
theorem accounted_of_exec {es : List (Event T)} {s : State T W} (h : (machine T N).Exec es s) :
    ∃ st, (Storage.machine T (DestroyedBy T)).Exec ((machine T N).log (slotAction N) es) st ∧
      Accounted N s.mem st := by
  refine Machine.Exec.induction (M := machine T N) (P := fun es s => ∃ st,
    (Storage.machine T (DestroyedBy T)).Exec ((machine T N).log (slotAction N) es) st ∧
      Accounted N s.mem st) ⟨Storage.initial, rfl, Accounted.initial⟩ ?_ h
  rintro es s e s' hex ⟨st, hst, hacc⟩ hs
  obtain ⟨t, ht⟩ := exec_sim hex
  obtain ⟨st', hrun, hacc'⟩ := hacc.step ht.inv hs
  rw [Machine.log_snoc _ hex hs]
  exact ⟨st', hst.append hrun, hacc'⟩

/-! ### The destructor -/

theorem destroyLoop_of_lt {r w : BitVec W} (h : r < w) :
    destroyLoop N r w = r.toNat % N.val :: destroyLoop N (r + 1) w := by
  rw [destroyLoop, if_pos h]

theorem destroyLoop_of_not_lt {r w : BitVec W} (h : ¬ r < w) : destroyLoop N r w = [] := by
  rw [destroyLoop, if_neg h]

/-- The storage holds `xs` from the slot of `r` on, and nothing else. -/
structure Holds (N : Capacity W) (st : Storage T (DestroyedBy T)) (r : BitVec W) (xs : List T) :
    Prop where
  le : xs.length ≤ N.val
  filled : Filled N (Option.map Object.value ∘ st.live) r xs 0 xs.length
  outside : ∀ i, N.val ≤ i → st.live i = none

theorem Holds.of_accounted (h : Accounted N m st) (hinv : QueueInv N m none none xs) :
    Holds N st (m .read_) xs := by
  refine ⟨hinv.le, ?_, h.outside⟩
  rw [← h.agree]
  exact hinv.filled

theorem Holds.live_eq_none {r : BitVec W} (h : Holds N st r []) (slot : Nat) :
    st.live slot = none := by
  by_cases hslot : slot < N.val
  · obtain ⟨i, hi, rfl⟩ := N.exists_slot r hslot
    exact Option.map_eq_none_iff.mp (h.filled.free i (Nat.zero_le _) hi)
  · exact h.outside slot (Nat.le_of_not_lt hslot)

theorem Holds.exists_live {r : BitVec W} {x : T} (h : Holds N st r (x :: xs)) :
    ∃ o, st.live (r.toNat % N.val) = some o := by
  obtain ⟨o, ho, -⟩ := Option.map_eq_some_iff.mp (h.filled.live 0 x (Nat.zero_le _) rfl)
  exact ⟨o, ho⟩

theorem Holds.destroy {r : BitVec W} {x : T} (h : Holds N st r (x :: xs)) (o : Object T)
    (cause : DestroyedBy T) :
    Holds N (st.destroy (r.toNat % N.val) o cause) (r + 1) xs := by
  refine ⟨Nat.le_of_succ_le h.le, ?_, fun i hi => ?_⟩
  · rw [Storage.live_destroy, Function.comp_update, ← N.slot_zero]
    exact (h.filled.destroy (by simp) h.le).retire (Function.update_self _ _ _)
  · have hlt : r.toNat % N.val < N.val := Nat.mod_lt _ N.val_pos
    rw [Storage.live_destroy, Function.update_of_ne (by omega)]
    exact h.outside i hi

/-- **The loop destroys what lies between the counters**, if they are in order. -/
theorem Holds.destroyLoop {w : BitVec W} :
    ∀ {xs : List T} {r : BitVec W} {st : Storage T (DestroyedBy T)}, Holds N st r xs →
      w.toNat = r.toNat + xs.length →
      (∀ e ∈ st.destroyed, Rightful e) →
      ∃ st', (Storage.machine T (DestroyedBy T)).run st
          ((CustomSpscQueue.destroyLoop N r w).map fun slot => .destroy slot .destructor) =
            some st' ∧
        (∀ e ∈ st'.destroyed, Rightful e) ∧ ∀ slot, st'.live slot = none := by
  intro xs
  induction xs with
  | nil =>
      intro r st h hw hrightful
      have hnot : ¬ r < w := by
        rw [BitVec.lt_def, hw, List.length_nil]
        omega
      rw [destroyLoop_of_not_lt hnot]
      exact ⟨st, rfl, hrightful, h.live_eq_none⟩
  | cons x xs ih =>
      intro r st h hw hrightful
      have hlt : r < w := by
        rw [BitVec.lt_def, hw, List.length_cons]
        omega
      obtain ⟨o, ho⟩ := h.exists_live
      have hw' : w.toNat = (r + 1).toNat + xs.length := by
        rw [toNat_succ_of_lt hlt, hw, List.length_cons]
        omega
      have hrightful' : ∀ e ∈ (st.destroy (r.toNat % N.val) o .destructor).destroyed,
          Rightful e := by
        show ∀ e ∈ st.destroyed ++ [(o, DestroyedBy.destructor)], Rightful e
        rw [List.forall_mem_append, List.forall_mem_singleton]
        exact ⟨hrightful, .inr rfl⟩
      obtain ⟨st', hrun, hfinal⟩ := ih (h.destroy o .destructor) hw' hrightful'
      refine ⟨st', ?_, hfinal⟩
      rw [destroyLoop_of_lt hlt, List.map_cons, Machine.run_cons_some]
      exact ⟨_, Storage.act_destroy ho _, hrun⟩

/-! ### Every run -/

/-- What the queue's memory and the storage are when the destructor is called. -/
theorem exists_holds {es : List (Event T)} {s : State T W} (h : (machine T N).Exec es s)
    (hprod : s.prod = .idle) (hcons : s.cons = .idle) :
    ∃ st xs, (Storage.machine T (DestroyedBy T)).Exec ((machine T N).log (slotAction N) es) st ∧
      (∀ e ∈ st.destroyed, Rightful e) ∧ QueueInv N s.mem none none xs ∧
      Holds N st (s.mem .read_) xs := by
  obtain ⟨t, ht⟩ := exec_sim h
  have hinv := ht.inv
  rw [hprod, hcons] at hinv
  obtain ⟨st, hst, hacc⟩ := accounted_of_exec h
  exact ⟨st, t.items, hst, hacc.rightful, hinv, Holds.of_accounted hacc hinv⟩

theorem destroyedOnce_of_le {es : List (Event T)} {s : State T W} (h : (machine T N).Exec es s)
    (hprod : s.prod = .idle) (hcons : s.cons = .idle) (hle : s.mem .read_ ≤ s.mem .write_) :
    DestroyedOnce (slotActions N es s.mem) := by
  obtain ⟨st, xs, hst, hrightful, hinv, hholds⟩ := exists_holds h hprod hcons
  have hw : (s.mem .write_).toNat = (s.mem .read_).toNat + xs.length := by
    rw [hinv.count] at hle ⊢
    exact N.toNat_add_of_le hinv.le hle
  obtain ⟨st', hrun, hrightful', hempty⟩ := hholds.destroyLoop hw hrightful
  have hexec : (Storage.machine T (DestroyedBy T)).Exec (slotActions N es s.mem) st' :=
    hst.append hrun
  exact ⟨st', hexec, Storage.timesDestroyed_eq_one hexec hempty, hrightful', hempty⟩

/-- The destructor of a queue whose `write_` has wrapped past `read_` does nothing. -/
theorem destructor_of_not_le (h : ¬ m .read_ ≤ m .write_) : destructor N m = [] := by
  refine destroyLoop_of_not_lt fun hlt => h ?_
  exact BitVec.le_of_lt hlt

theorem not_destroyedOnce_of_not_le {es : List (Event T)} {s : State T W}
    (h : (machine T N).Exec es s) (hprod : s.prod = .idle) (hcons : s.cons = .idle)
    (hle : ¬ s.mem .read_ ≤ s.mem .write_) : ¬ DestroyedOnce (slotActions N es s.mem) := by
  rintro ⟨st', hst', hsettled⟩
  obtain ⟨st, xs, hst, -, hinv, hholds⟩ := exists_holds h hprod hcons
  unfold slotActions at hst'
  rw [destructor_of_not_le hle, List.map_nil, List.append_nil] at hst'
  obtain rfl := hst'.unique hst
  cases xs with
  | nil =>
      -- An empty queue has equal counters.
      have heq : s.mem .write_ = s.mem .read_ := hinv.count.trans (BitVec.add_zero _)
      rw [heq] at hle
      exact hle (BitVec.le_refl _)
  | cons x rest =>
      obtain ⟨o, ho⟩ := hholds.exists_live
      rw [hsettled.empty] at ho
      cases ho

/-! ### Calls one after another -/

/-- A call of `push` or of `pop`. -/
inductive Operation (T : Type)
  | push (item : T)
  | pop

/-- The call that an event begins. -/
def Event.operation : Event T → Option (Operation T)
  | .callPush item => some (.push item)
  | .callPop => some .pop
  | _ => none

/-- A push that finds a free slot. -/
def pushCall (item : T) : List (Event T) :=
  .callPush item :: List.replicate 4 (.access .producer) ++ [.ret .producer]

/-- A pop that finds an item. -/
def popCall : List (Event T) :=
  .callPop :: List.replicate 5 (.access .consumer) ++ [.ret .consumer]

/-- What a push that goes through leaves in memory. -/
def Mem.pushed (N : Capacity W) (m : Mem T W) (item : T) : Mem T W :=
  Function.update (Function.update m (.data_ ((m .write_).toNat % N.val)) (some item)) .write_
    (m .write_ + 1)

/-- What a pop that goes through leaves in memory. -/
def Mem.popped (N : Capacity W) (m : Mem T W) : Mem T W :=
  Function.update (Function.update m (.data_ ((m .read_).toNat % N.val)) none) .read_
    (m .read_ + 1)

@[simp] theorem Mem.pushed_read (m : Mem T W) (item : T) :
    Mem.pushed N m item .read_ = m .read_ := by
  simp [Mem.pushed]

@[simp] theorem Mem.pushed_write (m : Mem T W) (item : T) :
    Mem.pushed N m item .write_ = m .write_ + 1 := by
  simp [Mem.pushed]

theorem Mem.pushed_slot (m : Mem T W) (item : T) :
    Mem.pushed N m item (.data_ ((m .write_).toNat % N.val)) = some item := by
  simp [Mem.pushed]

@[simp] theorem Mem.popped_read (m : Mem T W) : Mem.popped N m .read_ = m .read_ + 1 := by
  simp [Mem.popped]

@[simp] theorem Mem.popped_write (m : Mem T W) : Mem.popped N m .write_ = m .write_ := by
  simp [Mem.popped]

theorem run_push (item : T) (h : m .write_ - m .read_ ≠ BitVec.ofNat W N.val) :
    (machine T N).run { mem := m, prod := .idle, cons := .idle } (pushCall item) =
      some { mem := Mem.pushed N m item, prod := .idle, cons := .idle } := by
  simp [Machine.run, machine, step, accessProducer, pushCall, PushPc.code, Mem.pushed, h]

theorem run_push_full (item : T) (h : m .write_ - m .read_ = BitVec.ofNat W N.val) :
    (machine T N).run { mem := m, prod := .idle, cons := .idle }
        [.callPush item, .access .producer, .access .producer, .ret .producer] =
      some { mem := m, prod := .idle, cons := .idle } := by
  simp [Machine.run, machine, step, accessProducer, PushPc.code, h]

theorem run_pop {item : T} (h : m .read_ ≠ m .write_)
    (hitem : m (.data_ ((m .read_).toNat % N.val)) = some item) :
    (machine T N).run { mem := m, prod := .idle, cons := .idle } popCall =
      some { mem := Mem.popped N m, prod := .idle, cons := .idle } := by
  simp [Machine.run, machine, step, accessConsumer, popCall, PopPc.code, Mem.popped, h, hitem]

theorem run_pop_empty (h : m .read_ = m .write_) :
    (machine T N).run { mem := m, prod := .idle, cons := .idle }
        [.callPop, .access .consumer, .access .consumer, .ret .consumer] =
      some { mem := m, prod := .idle, cons := .idle } := by
  simp [Machine.run, machine, step, accessConsumer, PopPc.code, h]

/-- A call can be made and returns, whatever the queue holds. -/
theorem exists_call {s : State T W} (hprod : s.prod = .idle) (hcons : s.cons = .idle)
    (hinv : QueueInv N s.mem none none xs) (op : Operation T) :
    ∃ es s', (machine T N).run s es = some s' ∧ s'.prod = .idle ∧ s'.cons = .idle ∧
      es.filterMap Event.operation = [op] := by
  obtain ⟨m, prod, cons⟩ := s
  simp only at hprod hcons hinv
  subst hprod hcons
  cases op with
  | push item =>
      by_cases hfull : m .write_ - m .read_ = BitVec.ofNat W N.val
      · exact ⟨_, _, run_push_full item hfull, rfl, rfl, rfl⟩
      · exact ⟨_, _, run_push item hfull, rfl, rfl, rfl⟩
  | pop =>
      by_cases hempty : m .read_ = m .write_
      · exact ⟨_, _, run_pop_empty hempty, rfl, rfl, rfl⟩
      · cases xs with
        | nil => exact absurd (hinv.count.trans (BitVec.add_zero _)).symm hempty
        | cons x rest =>
            exact ⟨_, _, run_pop hempty (hinv.filled.live 0 x (Nat.zero_le _) rfl), rfl, rfl, rfl⟩

/-- Every sequence of calls is that of some run. -/
theorem exists_run (ops : List (Operation T)) :
    ∃ es s, (machine T N).Exec es s ∧ s.prod = .idle ∧ s.cons = .idle ∧
      es.filterMap Event.operation = ops := by
  induction ops using List.reverseRecOn with
  | nil => exact ⟨[], _, Machine.Exec.nil, rfl, rfl, rfl⟩
  | append_singleton ops op ih =>
      obtain ⟨es, s, hex, hprod, hcons, hops⟩ := ih
      obtain ⟨t, ht⟩ := exec_sim hex
      have hinv := ht.inv
      rw [hprod, hcons] at hinv
      obtain ⟨fs, s', hrun, hprod', hcons', hop⟩ := exists_call hprod hcons hinv op
      refine ⟨es ++ fs, s', hex.append hrun, hprod', hcons', ?_⟩
      rw [List.filterMap_append, hops, hop]

/--
**Every object is destroyed exactly once if and only if the counters end in order.**
Every sequence of calls is that of some run; and for every run of the two threads, when
both are out of the queue and it is destroyed, all objects have been destroyed, each of
them once and in its slot, by the pop that returned it or by the destructor, exactly if
`read_` is not above `write_`.
-/
theorem destroyed_once_iff (N : Capacity W) :
    (∀ ops : List (Operation T), ∃ es s, (machine T N).Exec es s ∧ s.prod = .idle ∧
      s.cons = .idle ∧ es.filterMap Event.operation = ops) ∧
    ∀ es s, (machine T N).Exec es s → s.prod = .idle → s.cons = .idle →
      (DestroyedOnce (slotActions N es s.mem) ↔ s.mem .read_ ≤ s.mem .write_) := by
  refine ⟨exists_run, ?_⟩
  intro es s h hprod hcons
  constructor
  · intro honce
    by_contra hle
    exact not_destroyedOnce_of_not_le h hprod hcons hle honce
  · exact destroyedOnce_of_le h hprod hcons

/-! ### A run that wraps -/

/-- Items that come and go one at a time. -/
def inAndOut (item : T) (n : Nat) : List (Event T) :=
  (List.replicate n (pushCall item ++ popCall)).flatten

theorem inAndOut_succ (item : T) (n : Nat) :
    inAndOut item (n + 1) = inAndOut item n ++ (pushCall item ++ popCall) := by
  unfold inAndOut
  rw [List.replicate_succ', List.flatten_append, List.flatten_singleton]

/-- After `n` items both counters stand at `n`, wrapped. -/
theorem exec_inAndOut (item : T) (n : Nat) :
    ∃ m, (machine T N).Exec (inAndOut item n) { mem := m, prod := .idle, cons := .idle } ∧
      m .read_ = BitVec.ofNat W n ∧ m .write_ = BitVec.ofNat W n := by
  induction n with
  | zero => exact ⟨_, Machine.Exec.nil, rfl, rfl⟩
  | succ n ih =>
      obtain ⟨m, hex, hr, hw⟩ := ih
      have hspace : m .write_ - m .read_ ≠ BitVec.ofNat W N.val := by
        rw [hw, hr, BitVec.sub_self]
        intro hzero
        have hval := (N.ofNat_inj (Nat.zero_le _) (Nat.le_refl _)).mp hzero
        exact Nat.ne_of_lt N.val_pos hval
      have hread : Mem.pushed N m item .read_ = m .write_ := by
        rw [Mem.pushed_read, hr, hw]
      have hne : Mem.pushed N m item .read_ ≠ Mem.pushed N m item .write_ := by
        rw [hread, Mem.pushed_write]
        intro heq
        exact absurd ((N.eq_add_iff N.val_pos).mp heq) (by omega)
      have hitem : Mem.pushed N m item
          (.data_ ((Mem.pushed N m item .read_).toNat % N.val)) = some item := by
        rw [hread]
        exact Mem.pushed_slot m item
      refine ⟨Mem.popped N (Mem.pushed N m item), ?_, ?_, ?_⟩
      · rw [inAndOut_succ]
        exact hex.append (Machine.run_append_some.mpr ⟨_, run_push item hspace, run_pop hne hitem⟩)
      · rw [Mem.popped_read, hread, hw, BitVec.ofNat_add]
        rfl
      · rw [Mem.popped_write, Mem.pushed_write, hw, BitVec.ofNat_add]
        rfl

/-- 128 slots where `size_t` has 32 bits. -/
def narrow128 : Capacity 32 := ⟨128, 7, by decide, rfl⟩

/-- All but one of the 32-bit counts go by, and one more item is pushed. -/
def wrappedRun : List (Event Nat) := inAndOut 0 (2 ^ 32 - 1) ++ pushCall 7

/-- **An item is lost when the counter wraps.**  `write_` is back at zero and `read_` is
not; the queue holds one item, and the destructor destroys none. -/
theorem wrapped_item_leaks :
    ∃ m, (machine Nat narrow128).Exec wrappedRun { mem := m, prod := .idle, cons := .idle } ∧
      m .read_ = BitVec.ofNat 32 (2 ^ 32 - 1) ∧ m .write_ = (0 : BitVec 32) ∧ held m = 1 ∧
      destructor narrow128 m = [] ∧ ¬ DestroyedOnce (slotActions narrow128 wrappedRun m) := by
  obtain ⟨m, hex, hr, hw⟩ := exec_inAndOut (N := narrow128) (0 : Nat) (2 ^ 32 - 1)
  have hspace : m .write_ - m .read_ ≠ BitVec.ofNat 32 narrow128.val := by
    rw [hw, hr, BitVec.sub_self]
    decide
  have hex' : (machine Nat narrow128).Exec wrappedRun
      { mem := Mem.pushed narrow128 m 7, prod := .idle, cons := .idle } := by
    unfold wrappedRun
    exact hex.append (run_push 7 hspace)
  have hread : Mem.pushed narrow128 m 7 .read_ = BitVec.ofNat 32 (2 ^ 32 - 1) := by
    rw [Mem.pushed_read, hr]
  have hwrite : Mem.pushed narrow128 m 7 .write_ = (0 : BitVec 32) := by
    rw [Mem.pushed_write, hw]
    decide
  have hle : ¬ Mem.pushed narrow128 m 7 .read_ ≤ Mem.pushed narrow128 m 7 .write_ := by
    rw [hread, hwrite]
    decide
  have hleak := not_destroyedOnce_of_not_le hex' rfl rfl hle
  refine ⟨_, hex', hread, hwrite, ?_, destructor_of_not_le hle, hleak⟩
  unfold held
  rw [hread, hwrite]
  decide

/-- Two items are pushed and one of them is popped. -/
def usedRun : List (Event Nat) := pushCall 7 ++ pushCall 8 ++ popCall

theorem usedRun_goes : ((machine Nat slots128).run (machine Nat slots128).init
    usedRun).isSome = true := by decide +kernel

theorem destroyed_once_iff_usedRun :
    destructor slots128 ((machine Nat slots128).final usedRun usedRun_goes).mem = [1] ∧
      DestroyedOnce (slotActions slots128 usedRun
        ((machine Nat slots128).final usedRun usedRun_goes).mem) := by
  have hread : ((machine Nat slots128).final usedRun usedRun_goes).mem .read_ =
      (1 : BitVec 64) := by
    decide +kernel
  have hwrite : ((machine Nat slots128).final usedRun usedRun_goes).mem .write_ =
      (2 : BitVec 64) := by
    decide +kernel
  refine ⟨?_, ?_⟩
  · unfold destructor
    rw [hread, hwrite, destroyLoop_of_lt (by decide), destroyLoop_of_not_lt (by decide)]
    rfl
  · refine ((destroyed_once_iff slots128).2 usedRun _ (Machine.exec_final usedRun_goes) rfl
      rfl).mpr ?_
    rw [hread, hwrite]
    decide

end MarketData.CustomSpscQueue
