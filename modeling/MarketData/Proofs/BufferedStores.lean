/-
What the two store buffers of a queue hold, and what the threads read past them.

Behind store buffers a thread learns of the other's counter only what has been
flushed, which is a value that the counter held before.  So the run is one with
stale views (`StaleCounters`), in which every load of the other's counter returns
the value that memory has come to.  `Behind` ties the two: the variables of the
stale-view machine are memory with both buffers written over it, and memory is
the state the counters were in some stores ago.

The slots are plain memory, and an access must find there what the stale-view
machine has.  It does, because the buffers stay apart: with `fr` stores of `read_`
and `fw` stores of `write_` flushed, the consumer's buffer has slots from `fr` up to
`fw`, and the producer's has slots from `fw` up to `fr` and a capacity (`Counting`).
-/
import MarketData.Proofs.SlotOwnership
import MarketData.Utils.StoreBuffers
import Mathlib.Order.Interval.Finset.Nat

namespace MarketData

open Lib
open Lib.BoundedQueue (Side)
open StaleCounters (StaleInv reads writes)

namespace StoreBuffers

variable {T : Type} {W : Nat} {N : Capacity W}

/-! ### The stores in a buffer -/

/-- The store of the counter that a side moves. -/
def counterStore : Side → BitVec W → (l : Loc) × Cell T W l
  | .producer, v => ⟨.write_, v⟩
  | .consumer, v => ⟨.read_, v⟩

/-- The buffer of a side takes its counter from `k` to `k'`, and the slot it stores to
is each time that of the count, which is below `top`. -/
inductive Counting (N : Capacity W) (side : Side) (top : Nat) : Nat → Buf T W → Nat → Prop
  | nil (k : Nat) : Counting N side top k [] k
  | slot {k k' : Nat} {b : Buf T W} (v : Option T) (hk : k < top)
      (h : Counting N side top k b k') :
      Counting N side top k (⟨.data_ (k % N.val), v⟩ :: b) k'
  | count {k k' : Nat} {b : Buf T W} (h : Counting N side top (k + 1) b k') :
      Counting N side top k (counterStore side (BitVec.ofNat W (k + 1)) :: b) k'
  | flag {k k' : Nat} {b : Buf T W} (v : Bool) (h : Counting N side top k b k') :
      Counting N side top k (⟨.isSleeping_, v⟩ :: b) k'

namespace Counting

variable {side : Side} {top top' k k' : Nat} {b : Buf T W}

theorem le (h : Counting N side top k b k') : k ≤ k' := by
  induction h with
  | nil k => exact Nat.le_refl k
  | slot v hk h ih => exact ih
  | count h ih => omega
  | flag v h ih => exact ih

theorem mono (h : Counting N side top k b k') (hle : top ≤ top') : Counting N side top' k b k' := by
  induction h with
  | nil k => exact Counting.nil k
  | slot v hk h ih => exact Counting.slot v (by omega) ih
  | count h ih => exact Counting.count ih
  | flag v h ih => exact Counting.flag v ih

theorem append {k'' : Nat} {b' : Buf T W} (h : Counting N side top k b k')
    (h' : Counting N side top k' b' k'') : Counting N side top k (b ++ b') k'' := by
  induction h with
  | nil k => exact h'
  | slot v hk h ih => exact Counting.slot v hk (ih h')
  | count h ih => exact Counting.count (ih h')
  | flag v h ih => exact Counting.flag v (ih h')

/-- Which stores a buffer has. -/
theorem cases_mem (h : Counting N side top k b k') : ∀ en ∈ b,
    (∃ v, en = counterStore side v) ∨ en.1 = .isSleeping_ ∨
      ∃ j, k ≤ j ∧ j < top ∧ en.1 = .data_ (j % N.val) := by
  induction h with
  | nil k => intro en hen; exact absurd hen List.not_mem_nil
  | slot v hk h ih =>
      intro en hen
      rcases List.mem_cons.mp hen with rfl | hen
      · exact Or.inr (Or.inr ⟨_, Nat.le_refl _, hk, rfl⟩)
      · exact ih en hen
  | count h ih =>
      intro en hen
      rcases List.mem_cons.mp hen with rfl | hen
      · exact Or.inl ⟨_, rfl⟩
      · rcases ih en hen with hcount | hflag | ⟨j, hle, hlt, hj⟩
        · exact Or.inl hcount
        · exact Or.inr (Or.inl hflag)
        · exact Or.inr (Or.inr ⟨j, by omega, hlt, hj⟩)
  | flag v h ih =>
      intro en hen
      rcases List.mem_cons.mp hen with rfl | hen
      · exact Or.inr (Or.inl rfl)
      · exact ih en hen

/-- The counter of the other side is not in the buffer. -/
theorem ne_counter (h : Counting N side top k b k') {l : Loc}
    (hcount : ∀ v, (counterStore (T := T) (W := W) side v).1 ≠ l) (hflag : l ≠ .isSleeping_)
    (hslot : ∀ i, l ≠ .data_ i) : ∀ en ∈ b, en.1 ≠ l := by
  intro en hen
  rcases h.cases_mem en hen with ⟨v, rfl⟩ | hloc | ⟨j, -, -, hloc⟩
  · exact hcount v
  · rw [hloc]
    exact hflag.symm
  · rw [hloc]
    exact (hslot _).symm

theorem ne_read (h : Counting N .producer top k b k') : ∀ en ∈ b, en.1 ≠ .read_ :=
  h.ne_counter (by simp [counterStore]) (by simp) (by simp)

theorem ne_write (h : Counting N .consumer top k b k') : ∀ en ∈ b, en.1 ≠ .write_ :=
  h.ne_counter (by simp [counterStore]) (by simp) (by simp)

/-- A slot less than a turn away from all counts of the buffer is not in it. -/
theorem ne_slot (h : Counting N side top k b k') {i : Nat}
    (hi : ∀ j, k ≤ j → j < top → i ≠ j ∧ i < j + N.val ∧ j < i + N.val) :
    ∀ en ∈ b, en.1 ≠ .data_ (i % N.val) := by
  intro en hen heq
  rcases h.cases_mem en hen with ⟨v, rfl⟩ | hflag | ⟨j, hle, hlt, hj⟩
  · cases side <;> simp [counterStore] at heq
  · simp [hflag] at heq
  · obtain ⟨hne, hij, hji⟩ := hi j hle hlt
    rw [hj, Loc.data_.injEq] at heq
    refine hne (Nat.mod_injOn_Ico (min i j) N.val ?_ ?_ heq.symm)
    · simp only [Finset.coe_Ico, Set.mem_Ico]
      omega
    · simp only [Finset.coe_Ico, Set.mem_Ico]
      omega

end Counting

/-! ### Memory and the stale-view machine -/

variable {m : Mem T W} {bp bc : Buf T W} {t t' : StaleCounters.State T W} {fw fr : Nat}
  {taken xs : List T} {x : StopState}

/-- Of the stale-view machine's stores, memory has those up to the `fw`-th of `write_` and
the `fr`-th of `read_`; the buffers have the others.  No thread has seen more. -/
structure Behind (N : Capacity W) (m : Mem T W) (bp bc : Buf T W) (t : StaleCounters.State T W)
    (fw fr : Nat) : Prop where
  mem : ∀ l, l ≠ .isSleeping_ → t.mem l = Instr.view (Instr.view m bc) bp l
  written : m .write_ = BitVec.ofNat W fw
  read : m .read_ = BitVec.ofNat W fr
  prodStores : Counting N .producer (fr + N.val) fw bp (writes t)
  consStores : Counting N .consumer fw fr bc (reads t)
  prodSeen : t.prodSeen .read_ ≤ fr
  consSeen : t.consSeen .write_ ≤ fw

theorem Behind.initial :
    Behind N (Mem.initial : Mem T W) [] [] (StaleCounters.machine T N).init 0 0 where
  mem _ _ := rfl
  written := rfl
  read := rfl
  prodStores := Counting.nil 0
  consStores := Counting.nil 0
  prodSeen := Nat.le_refl 0
  consSeen := Nat.le_refl 0

/-- Neither thread counts further ahead of what is flushed than the queue allows. -/
structure Between (N : Capacity W) (t : StaleCounters.State T W) (fw fr : Nat) : Prop where
  read : fr ≤ reads t
  seen : reads t ≤ fw
  written : fw ≤ writes t
  full : writes t ≤ fr + N.val

theorem Behind.between (h : Behind N m bp bc t fw fr) (hinv : StaleInv N t taken xs) :
    Between N t fw fr where
  read := h.consStores.le
  seen := Nat.le_trans hinv.notUnder h.consSeen
  written := h.prodStores.le
  full := Nat.le_trans hinv.notOver (Nat.add_le_add_right h.prodSeen _)

/-- The producer reads its own view of whatever the consumer has not buffered. -/
theorem Behind.prod_view (h : Behind N m bp bc t fw fr) {l : Loc} (hl : l ≠ .isSleeping_)
    (hbc : ∀ en ∈ bc, en.1 ≠ l) : Instr.view m bp l = t.mem l := by
  rw [h.mem l hl]
  exact Instr.view_congr bp (Instr.view_of_not_mem bc hbc).symm

/-- The consumer reads its own view of whatever the producer has not buffered. -/
theorem Behind.cons_view (h : Behind N m bp bc t fw fr) {l : Loc} (hl : l ≠ .isSleeping_)
    (hbp : ∀ en ∈ bp, en.1 ≠ l) : Instr.view m bc l = t.mem l := by
  rw [h.mem l hl, Instr.view_of_not_mem bp hbp]

/-- Steps of the stale-view machine that store nothing. -/
theorem Behind.stay (h : Behind N m bp bc t fw fr) (hmem : t'.mem = t.mem)
    (hwrites : writes t' = writes t) (hreads : reads t' = reads t)
    (hprod : t'.prodSeen .read_ ≤ fr) (hcons : t'.consSeen .write_ ≤ fw) :
    Behind N m bp bc t' fw fr where
  mem := by rw [hmem]; exact h.mem
  written := h.written
  read := h.read
  prodStores := by rw [hwrites]; exact h.prodStores
  consStores := by rw [hreads]; exact h.consStores
  prodSeen := hprod
  consSeen := hcons

/-- The calls in progress are no part of it. -/
theorem Behind.calls (h : Behind N m bp bc t fw fr) (p : Option (PushPc T W))
    (c : Option (PopPc T W)) : Behind N m bp bc { t with prod := p, cons := c } fw fr :=
  h.stay rfl rfl rfl h.prodSeen h.consSeen

/-! ### Stores -/

/-- A store of the producer enters its buffer. -/
theorem Behind.prodStore (h : Behind N m bp bc t fw fr) (en : (l : Loc) × Cell T W l)
    (hcount : Counting N .producer (fr + N.val) (writes t) [en] (writes t'))
    (hmem : t'.mem = Function.update t.mem en.1 en.2) (hreads : reads t' = reads t)
    (hprod : t'.prodSeen .read_ = t.prodSeen .read_) (hcons : t'.consSeen = t.consSeen) :
    Behind N m (bp ++ [en]) bc t' fw fr where
  mem l hl := by
    rw [hmem, Instr.view_snoc]
    by_cases hen : l = en.1
    · subst hen
      rw [Function.update_self, Function.update_self]
    · rw [Function.update_of_ne hen, Function.update_of_ne hen]
      exact h.mem l hl
  written := h.written
  read := h.read
  prodStores := h.prodStores.append hcount
  consStores := by rw [hreads]; exact h.consStores
  prodSeen := by rw [hprod]; exact h.prodSeen
  consSeen := by rw [hcons]; exact h.consSeen

/-- A store of the consumer, to a variable that the producer has not buffered. -/
theorem Behind.consStore (h : Behind N m bp bc t fw fr) (en : (l : Loc) × Cell T W l)
    (hbp : ∀ d ∈ bp, d.1 ≠ en.1)
    (hcount : Counting N .consumer fw (reads t) [en] (reads t'))
    (hmem : t'.mem = Function.update t.mem en.1 en.2) (hwrites : writes t' = writes t)
    (hcons : t'.consSeen .write_ = t.consSeen .write_) (hprod : t'.prodSeen = t.prodSeen) :
    Behind N m bp (bc ++ [en]) t' fw fr where
  mem l hl := by
    rw [hmem, Instr.view_snoc, Instr.view_update hbp]
    by_cases hen : l = en.1
    · subst hen
      rw [Function.update_self, Function.update_self]
    · rw [Function.update_of_ne hen, Function.update_of_ne hen]
      exact h.mem l hl
  written := h.written
  read := h.read
  prodStores := by rw [hwrites]; exact h.prodStores
  consStores := h.consStores.append hcount
  prodSeen := by rw [hprod]; exact h.prodSeen
  consSeen := by rw [hcons]; exact h.consSeen

/-! ### Accesses -/

/-- The `k`-th value of a counter is there as soon as it has been stored. -/
theorem getElem?_counts {vs : List (BitVec W)} {v : BitVec W} {k : Nat}
    (h : StaleCounters.Counts (vs ++ [v])) (hk : k ≤ vs.length) :
    (vs ++ [v])[k]? = some (BitVec.ofNat W k) := by
  have hlt : k < (vs ++ [v]).length := by
    rw [List.length_append]
    exact Nat.lt_succ_of_le hk
  have hget := List.getElem?_eq_getElem hlt
  rw [h k _ hget] at hget
  exact hget

/-- A thread that has seen no later value may load the `k`-th. -/
theorem mayLoad_read (hinv : StaleInv N t taken xs) {seen : Loc → Nat} {k : Nat}
    (hseen : seen .read_ ≤ k) (hk : k ≤ reads t) :
    Instr.mayLoad t.mem t.past seen .read_ k = some (BitVec.ofNat W k) :=
  Instr.mayLoad_eq_some_iff.mpr ⟨hseen, getElem?_counts hinv.readValues hk⟩

theorem mayLoad_write (hinv : StaleInv N t taken xs) {seen : Loc → Nat} {k : Nat}
    (hseen : seen .write_ ≤ k) (hk : k ≤ writes t) :
    Instr.mayLoad t.mem t.past seen .write_ k = some (BitVec.ofNat W k) :=
  Instr.mayLoad_eq_some_iff.mpr ⟨hseen, getElem?_counts hinv.writeValues hk⟩

/-- Wrapping a count does not change its slot. -/
theorem ofNat_slot (N : Capacity W) (k : Nat) : (BitVec.ofNat W k).toNat % N.val = k % N.val := by
  have h := N.toNat_add_mod (0#W) k
  rw [BitVec.zero_add] at h
  rw [h]
  unfold RingSize.slot
  simp

/-- An access of a push behind the buffers, and the same access on stale views. -/
theorem Behind.push (h : Behind N m bp bc t fw fr) (hinv : StaleInv N t taken xs) {q : PushPc T W}
    (hq : t.prod = some q) {n : Instr.NextTso Loc (Cell T W) StopState (PushPc T W)}
    (hn : (q.code N).tso m bp x = some n) :
    n.mem = m ∧ ∃ pick t', StaleCounters.stepPush N t pick q = some t' ∧
      t'.prod = some n.pc ∧ t'.cons = t.cons ∧ Behind N m n.buf bc t' fw fr := by
  have hbtw := h.between hinv
  have hwrite : t.mem .write_ = BitVec.ofNat W (writes t) := hinv.writeValues.last
  have hprod := hinv.queue.prod
  rw [hq] at hprod
  cases q with
  | loadWrite item =>
      simp only [PushPc.code, Instr.tso_load, Option.some.injEq] at hn
      subst hn
      have hview := h.prod_view (l := .write_) (by simp) h.consStores.ne_write
      have hstep : StaleCounters.stepPush N t (writes t) (.loadWrite item) = some { t with
          prodSeen := Function.update t.prodSeen .write_ (writes t),
          prod := some (.loadRead item (BitVec.ofNat W (writes t))) } := by
        rw [StaleCounters.stepPush, PushPc.code, Instr.stale_load (by decide),
          mayLoad_write hinv (Nat.le_of_eq hinv.ownWrite) (Nat.le_refl _)]
        rfl
      refine ⟨rfl, writes t, _, hstep, ?_, rfl, h.stay rfl rfl rfl ?_ h.consSeen⟩
      · rw [hview, hwrite]
      · simpa using h.prodSeen
  | loadRead item w =>
      simp only [PushPc.code, Instr.tso_load, Option.some.injEq] at hn
      subst hn
      have hview : Instr.view m bp .read_ = BitVec.ofNat W fr := by
        rw [Instr.view_of_not_mem bp h.prodStores.ne_read, h.read]
      have hstep : StaleCounters.stepPush N t fr (.loadRead item w) = some { t with
          prodSeen := Function.update t.prodSeen .read_ fr,
          prod := some (if w - BitVec.ofNat W fr = BitVec.ofNat W N.val then .done item false
            else .construct item w) } := by
        rw [StaleCounters.stepPush, PushPc.code, Instr.stale_load (by decide),
          mayLoad_read hinv h.prodSeen hbtw.read]
        rfl
      refine ⟨rfl, fr, _, hstep, ?_, rfl, h.stay rfl rfl rfl ?_ h.consSeen⟩
      · rw [hview]
      · simp
  | construct item w =>
      rw [PushPc.code, Instr.tso_store (by simp), Option.some.injEq] at hn
      subst hn
      have hw : w = BitVec.ofNat W (writes t) := hprod.1.trans hwrite
      have hslot : w.toNat % N.val = writes t % N.val := by rw [hw, ofNat_slot]
      have hlt : writes t < fr + N.val := by
        have hpassed := hinv.passedFull (by rw [hq]; rfl)
        have hseen := h.prodSeen
        omega
      refine ⟨rfl, 0, _, rfl, rfl, rfl, ?_⟩
      rw [hslot]
      exact h.prodStore _ (Counting.slot _ hlt (Counting.nil _)) rfl (by simp [reads]) (by simp) rfl
  | publish item w =>
      rw [PushPc.code, Instr.tso_store (by simp), Option.some.injEq] at hn
      subst hn
      have hw : w + 1 = BitVec.ofNat W (writes t + 1) := by
        rw [hprod.1.trans hwrite, BitVec.ofNat_add]
        rfl
      refine ⟨rfl, 0, _, rfl, rfl, rfl, ?_⟩
      rw [hw]
      refine h.prodStore _ ?_ rfl (by simp [reads]) (by simp) rfl
      simp only [writes, Function.update_self, List.length_append, List.length_singleton]
      exact Counting.count (Counting.nil _)
  | done item ok => simp [PushPc.code] at hn

/-- An access of a pop behind the buffers, and the same access on stale views. -/
theorem Behind.pop (h : Behind N m bp bc t fw fr) (hinv : StaleInv N t taken xs) {q : PopPc T W}
    (hq : t.cons = some q) {n : Instr.NextTso Loc (Cell T W) StopState (PopPc T W)}
    (hn : (q.code N).tso m bc x = some n) :
    n.mem = m ∧ ∃ pick t', StaleCounters.stepPop N t pick q = some t' ∧
      t'.cons = some n.pc ∧ t'.prod = t.prod ∧ Behind N m bp n.buf t' fw fr := by
  have hbtw := h.between hinv
  have hread : t.mem .read_ = BitVec.ofNat W (reads t) := hinv.readValues.last
  have hcons := hinv.queue.cons
  rw [hq] at hcons
  -- the slot of the count, which the producer has left to the consumer
  have hfree : reads t < fw → ∀ en ∈ bp, en.1 ≠ .data_ (reads t % N.val) := by
    intro hlt
    have hfr := hbtw.read
    exact h.prodStores.ne_slot fun j hle htop => ⟨by omega, by omega, by omega⟩
  have hpassed : (StaleCounters.consumerSlot N t.cons).isSome = true → reads t < fw := by
    intro hslot
    exact Nat.lt_of_lt_of_le (hinv.passedEmpty hslot) h.consSeen
  cases q with
  | loadRead =>
      simp only [PopPc.code, Instr.tso_load, Option.some.injEq] at hn
      subst hn
      have hview := h.cons_view (l := .read_) (by simp) h.prodStores.ne_read
      have hstep : StaleCounters.stepPop N t (reads t) .loadRead = some { t with
          consSeen := Function.update t.consSeen .read_ (reads t),
          cons := some (.loadWrite (BitVec.ofNat W (reads t))) } := by
        rw [StaleCounters.stepPop, PopPc.code, Instr.stale_load (by decide),
          mayLoad_read hinv (Nat.le_of_eq hinv.ownRead) (Nat.le_refl _)]
        rfl
      refine ⟨rfl, reads t, _, hstep, ?_, rfl, h.stay rfl rfl rfl h.prodSeen ?_⟩
      · rw [hview, hread]
      · simpa using h.consSeen
  | loadWrite r =>
      simp only [PopPc.code, Instr.tso_load, Option.some.injEq] at hn
      subst hn
      have hview : Instr.view m bc .write_ = BitVec.ofNat W fw := by
        rw [Instr.view_of_not_mem bc h.consStores.ne_write, h.written]
      have hstep : StaleCounters.stepPop N t fw (.loadWrite r) = some { t with
          consSeen := Function.update t.consSeen .write_ fw,
          cons := some (if r = BitVec.ofNat W fw then .done none else .move r) } := by
        rw [StaleCounters.stepPop, PopPc.code, Instr.stale_load (by decide),
          mayLoad_write hinv h.consSeen hbtw.written]
        rfl
      refine ⟨rfl, fw, _, hstep, ?_, rfl, h.stay rfl rfl rfl h.prodSeen ?_⟩
      · rw [hview]
      · simp
  | move r =>
      simp only [PopPc.code, Instr.tso_load, Option.some.injEq] at hn
      subst hn
      have hslot : r.toNat % N.val = reads t % N.val := by
        rw [hcons.1.trans hread, ofNat_slot]
      have hview : Instr.view m bc (.data_ (r.toNat % N.val)) =
          t.mem (.data_ (r.toNat % N.val)) := by
        rw [hslot]
        exact h.cons_view (by simp) (hfree (hpassed (by rw [hq]; rfl)))
      refine ⟨rfl, 0, _, rfl, ?_, rfl, h.stay rfl rfl rfl h.prodSeen h.consSeen⟩
      simp only [hview]
  | destroy r item =>
      rw [PopPc.code, Instr.tso_store (by simp), Option.some.injEq] at hn
      subst hn
      have hslot : r.toNat % N.val = reads t % N.val := by
        rw [hcons.1.trans hread, ofNat_slot]
      have hlt := hpassed (by rw [hq]; rfl)
      refine ⟨rfl, 0, _, rfl, rfl, rfl, ?_⟩
      rw [hslot]
      exact h.consStore _ (hfree hlt) (Counting.slot _ hlt (Counting.nil _)) rfl (by simp [writes])
        (by simp) rfl
  | publish r item =>
      rw [PopPc.code, Instr.tso_store (by simp), Option.some.injEq] at hn
      subst hn
      have hr : r + 1 = BitVec.ofNat W (reads t + 1) := by
        rw [hcons.1.trans hread, BitVec.ofNat_add]
        rfl
      refine ⟨rfl, 0, _, rfl, rfl, rfl, ?_⟩
      rw [hr]
      refine h.consStore _ h.prodStores.ne_read ?_ rfl (by simp [writes]) (by simp) rfl
      simp only [reads, Function.update_self, List.length_append, List.length_singleton]
      exact Counting.count (Counting.nil _)
  | done res => simp [PopPc.code] at hn
  | fault => simp [PopPc.code] at hn

/-! ### Steps that the stale-view machine does not see -/

/-- A store to the flag enters the producer's buffer. -/
theorem Behind.prodFlag (h : Behind N m bp bc t fw fr) (v : Bool) :
    Behind N m (bp ++ [⟨.isSleeping_, v⟩]) bc t fw fr :=
  { h with
    mem := by
      intro l hl
      rw [Instr.view_snoc, Function.update_of_ne hl]
      exact h.mem l hl
    prodStores := h.prodStores.append (Counting.flag v (Counting.nil _)) }

/-- A store to the flag enters the consumer's buffer. -/
theorem Behind.consFlag (h : Behind N m bp bc t fw fr) (v : Bool) :
    Behind N m bp (bc ++ [⟨.isSleeping_, v⟩]) t fw fr :=
  { h with
    mem := by
      intro l hl
      rw [h.mem l hl, Instr.view_snoc]
      exact Instr.view_congr bp (Function.update_of_ne hl _ _).symm
    consStores := h.consStores.append (Counting.flag v (Counting.nil _)) }

/-- A store to the flag takes effect at once. -/
theorem Behind.setFlag (h : Behind N m bp bc t fw fr) (v : Bool) :
    Behind N (Function.update m .isSleeping_ v) bp bc t fw fr :=
  { h with
    mem := by
      intro l hl
      rw [h.mem l hl]
      exact Instr.view_congr bp (Instr.view_congr bc (Function.update_of_ne hl _ _).symm)
    written := by rw [Function.update_of_ne (by simp), h.written]
    read := by rw [Function.update_of_ne (by simp), h.read] }

/-- The oldest store of the producer reaches memory. -/
theorem Behind.flushProd {en : (l : Loc) × Cell T W l} {rest : Buf T W}
    (h : Behind N m (en :: rest) bc t fw fr) (hinv : StaleInv N t taken xs) :
    ∃ fw', fw ≤ fw' ∧ Behind N (Function.update m en.1 en.2) rest bc t fw' fr := by
  have hbtw := h.between hinv
  -- it does not matter whether it comes before or after what the consumer has buffered
  have hmem : (∀ d ∈ bc, d.1 ≠ en.1) → ∀ l, l ≠ .isSleeping_ →
      t.mem l = Instr.view (Instr.view (Function.update m en.1 en.2) bc) rest l := by
    intro hbc l hl
    rw [h.mem l hl, Instr.view_cons]
    exact Instr.view_congr rest (Instr.view_update hbc l).symm
  have hstores := h.prodStores
  cases hstores with
  | slot v hk hrest =>
      have hslot : ∀ d ∈ bc, d.1 ≠ .data_ (fw % N.val) :=
        h.consStores.ne_slot fun j hle htop => ⟨by omega, by omega, by omega⟩
      exact ⟨fw, Nat.le_refl _, hmem hslot, (Function.update_of_ne (by simp) _ _).trans h.written,
        (Function.update_of_ne (by simp) _ _).trans h.read, hrest, h.consStores, h.prodSeen,
        h.consSeen⟩
  | count hrest =>
      exact ⟨fw + 1, Nat.le_succ fw, hmem h.consStores.ne_write, Function.update_self _ _ _,
        (Function.update_of_ne (by simp [counterStore]) _ _).trans h.read, hrest,
        h.consStores.mono (Nat.le_succ fw), h.prodSeen, Nat.le_succ_of_le h.consSeen⟩
  | flag v hrest =>
      refine ⟨fw, Nat.le_refl _, { h.setFlag v with prodStores := hrest, mem := ?_ }⟩
      intro l hl
      rw [h.mem l hl, Instr.view_cons]
      exact Instr.view_congr rest ((Function.update_of_ne hl _ _).trans
        (Instr.view_congr bc (Function.update_of_ne hl _ _).symm))

/-- The oldest store of the consumer reaches memory. -/
theorem Behind.flushCons {en : (l : Loc) × Cell T W l} {rest : Buf T W}
    (h : Behind N m bp (en :: rest) t fw fr) :
    ∃ fr', Behind N (Function.update m en.1 en.2) bp rest t fw fr' := by
  have hstores := h.consStores
  cases hstores with
  | slot v hk hrest =>
      exact ⟨fr, h.mem, (Function.update_of_ne (by simp) _ _).trans h.written,
        (Function.update_of_ne (by simp) _ _).trans h.read, h.prodStores, hrest, h.prodSeen,
        h.consSeen⟩
  | count hrest =>
      exact ⟨fr + 1, h.mem, (Function.update_of_ne (by simp [counterStore]) _ _).trans h.written,
        Function.update_self _ _ _, h.prodStores.mono (by omega), hrest,
        Nat.le_succ_of_le h.prodSeen, h.consSeen⟩
  | flag v hrest =>
      exact ⟨fr, h.mem, (Function.update_of_ne (by simp) _ _).trans h.written,
        (Function.update_of_ne (by simp) _ _).trans h.read, h.prodStores, hrest, h.prodSeen,
        h.consSeen⟩

end StoreBuffers

end MarketData
