/-
Who owns a slot, when each thread's view of the other's counter may be stale.

A stale counter is too small, so the producer takes the queue for fuller than it is and
the consumer for emptier.  That errs on the safe side as long as the equalities in the
two tests are not stepped over, and they are not, since a thread moves its own counter
only after a test that its view passed: the producer never counts more than a capacity
beyond what it has seen of `read_`, and the consumer never counts beyond what it has
seen of `write_`.  `StaleInv` adds these bounds to the invariant of the queue.

Counters wrap, and the numbers of the values do not: the `i`-th value of a counter is
`i`, wrapped (`Counts`).
-/
import MarketData.Lib.History
import MarketData.Proofs.CustomSpscQueue
import MarketData.Utils.StaleCounters

namespace MarketData

open Lib Machine

namespace StaleCounters

variable {T : Type} {W : Nat} {N : Capacity W} {s s' : State T W} {taken xs : List T}

/-- The `i`-th value is `i`, wrapped. -/
def Counts (vs : List (BitVec W)) : Prop := ∀ (i : Nat) v, vs[i]? = some v → v = BitVec.ofNat W i

theorem Counts.initial : Counts ([] ++ [0#W]) := by
  intro i v hv
  rcases of_getElem?_snoc hv with hv | ⟨rfl, rfl⟩
  · cases hv
  · rfl

theorem Counts.last {vs : List (BitVec W)} {v : BitVec W} (h : Counts (vs ++ [v])) :
    v = BitVec.ofNat W vs.length := h vs.length v List.getElem?_concat_length

theorem Counts.snoc {vs : List (BitVec W)} {v : BitVec W} (h : Counts (vs ++ [v])) :
    Counts (vs ++ [v] ++ [v + 1]) := by
  intro i u hu
  rcases of_getElem?_snoc hu with hu | ⟨rfl, rfl⟩
  · exact h i u hu
  · rw [h.last, List.length_append, BitVec.ofNat_add]
    rfl

/-- How many items have been taken, and how many published. -/
def reads (s : State T W) : Nat := (s.past .read_).length

def writes (s : State T W) : Nat := (s.past .write_).length

/-- The queue holds `xs` after `taken`, and neither view has fallen behind its bound. -/
structure StaleInv (N : Capacity W) (s : State T W) (taken xs : List T) : Prop where
  queue : QueueInv N s.mem s.prod s.cons xs
  readValues : Counts (s.past .read_ ++ [s.mem .read_])
  writeValues : Counts (s.past .write_ ++ [s.mem .write_])
  readCount : reads s = taken.length
  writeCount : writes s = taken.length + xs.length
  ownWrite : s.prodSeen .write_ = writes s
  ownRead : s.consSeen .read_ = reads s
  prodSeen : s.prodSeen .read_ ≤ reads s
  consSeen : s.consSeen .write_ ≤ writes s
  notOver : writes s ≤ s.prodSeen .read_ + N.val
  notUnder : reads s ≤ s.consSeen .write_
  passedFull : (producerSlot N s.prod).isSome = true → writes s < s.prodSeen .read_ + N.val
  passedEmpty : (consumerSlot N s.cons).isSome = true → reads s < s.consSeen .write_

theorem StaleInv.initial : StaleInv N (machine T N).init [] [] where
  queue := QueueInv.initial
  readValues := Counts.initial
  writeValues := Counts.initial
  readCount := rfl
  writeCount := rfl
  ownWrite := rfl
  ownRead := rfl
  prodSeen := Nat.le_refl _
  consSeen := Nat.le_refl _
  notOver := Nat.zero_le _
  notUnder := Nat.le_refl _
  passedFull := nofun
  passedEmpty := nofun

/-! ### What a stale difference says -/

/-- A difference of counters that lie at most a capacity apart. -/
theorem toNat_sub {i j : Nat} (hle : i ≤ j) (hcap : j ≤ i + N.val) :
    (BitVec.ofNat W j - BitVec.ofNat W i).toNat = j - i := by
  have hj : BitVec.ofNat W j = BitVec.ofNat W i + BitVec.ofNat W (j - i) := by
    rw [← BitVec.ofNat_add]
    congr 1
    omega
  rw [hj, RingSize.add_sub_self, N.toNat_ofNat (by omega)]

/-- The full test on any value the producer may load. -/
theorem StaleInv.fullTest (h : StaleInv N s taken xs) {pick : Nat} {r : BitVec W}
    (hr : Instr.mayLoad s.mem s.past s.prodSeen .read_ pick = some r) :
    r = BitVec.ofNat W pick ∧ s.prodSeen .read_ ≤ pick ∧ pick ≤ reads s ∧
      (s.mem .write_ - r).toNat = writes s - pick := by
  obtain ⟨hle, hv⟩ := Instr.mayLoad_eq_some_iff.mp hr
  obtain ⟨hlt, -⟩ := List.getElem?_eq_some_iff.mp hv
  rw [List.length_append, List.length_singleton] at hlt
  have hpick : pick ≤ reads s := Nat.lt_succ_iff.mp hlt
  have hval : r = BitVec.ofNat W pick := h.readValues pick r hv
  refine ⟨hval, hle, hpick, ?_⟩
  have hreads := h.readCount
  have hwrites := h.writeCount
  have hover := h.notOver
  have hw : s.mem .write_ = BitVec.ofNat W (writes s) := h.writeValues.last
  rw [hw, hval]
  exact toNat_sub (N := N) (by omega) (by omega)

/-- The empty test on any value the consumer may load. -/
theorem StaleInv.emptyTest (h : StaleInv N s taken xs) {pick : Nat} {w : BitVec W}
    (hw : Instr.mayLoad s.mem s.past s.consSeen .write_ pick = some w) :
    w = BitVec.ofNat W pick ∧ s.consSeen .write_ ≤ pick ∧ pick ≤ writes s ∧
      (w - s.mem .read_).toNat = pick - reads s := by
  obtain ⟨hle, hv⟩ := Instr.mayLoad_eq_some_iff.mp hw
  obtain ⟨hlt, -⟩ := List.getElem?_eq_some_iff.mp hv
  rw [List.length_append, List.length_singleton] at hlt
  have hpick : pick ≤ writes s := Nat.lt_succ_iff.mp hlt
  have hval : w = BitVec.ofNat W pick := h.writeValues pick w hv
  refine ⟨hval, hle, hpick, ?_⟩
  have hreads := h.readCount
  have hwrites := h.writeCount
  have hcap := h.queue.le
  have hunder := h.notUnder
  have hr : s.mem .read_ = BitVec.ofNat W (reads s) := h.readValues.last
  rw [hr, hval]
  exact toNat_sub (N := N) (by omega) (by omega)

/-! ### One access of the producer -/

/-- A step that stores to no counter; the threads may have seen more of them. -/
theorem StaleInv.stay (h : StaleInv N s taken xs) {m : Mem T W}
    {past : (l : Loc) → List (Cell T W l)} {prodSeen consSeen : Loc → Nat}
    {p : Option (PushPc T W)} {c : Option (PopPc T W)} (hq : QueueInv N m p c xs)
    (hread : m .read_ = s.mem .read_ ∧ past .read_ = s.past .read_)
    (hwrite : m .write_ = s.mem .write_ ∧ past .write_ = s.past .write_)
    (hprod : prodSeen .write_ = s.prodSeen .write_) (hcons : consSeen .read_ = s.consSeen .read_)
    (hprodSeen : s.prodSeen .read_ ≤ prodSeen .read_) (hprodLe : prodSeen .read_ ≤ reads s)
    (hconsSeen : s.consSeen .write_ ≤ consSeen .write_) (hconsLe : consSeen .write_ ≤ writes s)
    (hfull : (producerSlot N p).isSome = true → writes s < prodSeen .read_ + N.val)
    (hempty : (consumerSlot N c).isSome = true → reads s < consSeen .write_) :
    StaleInv N ⟨m, past, prodSeen, consSeen, p, c⟩ taken xs := by
  have hr : reads (⟨m, past, prodSeen, consSeen, p, c⟩ : State T W) = reads s :=
    congrArg List.length hread.2
  have hw : writes (⟨m, past, prodSeen, consSeen, p, c⟩ : State T W) = writes s :=
    congrArg List.length hwrite.2
  refine ⟨hq, ?_, ?_, hr.trans h.readCount, hw.trans h.writeCount, ?_, ?_, ?_, ?_, ?_, ?_, ?_, ?_⟩
  · show Counts (past .read_ ++ [m .read_])
    rw [hread.1, hread.2]
    exact h.readValues
  · show Counts (past .write_ ++ [m .write_])
    rw [hwrite.1, hwrite.2]
    exact h.writeValues
  · rw [hw]
    exact hprod.trans h.ownWrite
  · rw [hr]
    exact hcons.trans h.ownRead
  · rw [hr]
    exact hprodLe
  · rw [hw]
    exact hconsLe
  · rw [hw]
    exact Nat.le_trans h.notOver (Nat.add_le_add_right hprodSeen _)
  · rw [hr]
    exact Nat.le_trans h.notUnder hconsSeen
  · rw [hw]
    exact hfull
  · rw [hr]
    exact hempty

/-- The producer moves on; `prodSeen .read_` is what it has then seen of `read_`. -/
theorem StaleInv.prodStep (h : StaleInv N s taken xs) {m : Mem T W}
    {past : (l : Loc) → List (Cell T W l)} {prodSeen : Loc → Nat} {p : Option (PushPc T W)}
    (hq : QueueInv N m p s.cons xs)
    (hread : m .read_ = s.mem .read_ ∧ past .read_ = s.past .read_)
    (hwrite : m .write_ = s.mem .write_ ∧ past .write_ = s.past .write_)
    (hown : prodSeen .write_ = s.prodSeen .write_)
    (hseen : s.prodSeen .read_ ≤ prodSeen .read_) (hle : prodSeen .read_ ≤ reads s)
    (hfull : (producerSlot N p).isSome = true → writes s < prodSeen .read_ + N.val) :
    StaleInv N { s with mem := m, past := past, prodSeen := prodSeen, prod := p } taken xs :=
  h.stay hq hread hwrite hown rfl hseen hle (Nat.le_refl _) h.consSeen hfull h.passedEmpty

/-- The accesses of a push. -/
inductive Pushes (N : Capacity W) (s : State T W) (pick : Nat) : PushPc T W → State T W → Prop
  | loadWrite {item : T} {w : BitVec W}
      (hw : Instr.mayLoad s.mem s.past s.prodSeen .write_ pick = some w) :
      Pushes N s pick (.loadWrite item) { s with
        prodSeen := Function.update s.prodSeen .write_ pick, prod := some (.loadRead item w) }
  | full {item : T} {w r : BitVec W}
      (hr : Instr.mayLoad s.mem s.past s.prodSeen .read_ pick = some r)
      (hfull : w - r = BitVec.ofNat W N.val) :
      Pushes N s pick (.loadRead item w) { s with
        prodSeen := Function.update s.prodSeen .read_ pick, prod := some (.done item false) }
  | room {item : T} {w r : BitVec W}
      (hr : Instr.mayLoad s.mem s.past s.prodSeen .read_ pick = some r)
      (hroom : w - r ≠ BitVec.ofNat W N.val) :
      Pushes N s pick (.loadRead item w) { s with
        prodSeen := Function.update s.prodSeen .read_ pick, prod := some (.construct item w) }
  | construct {item : T} {w : BitVec W} {past : (l : Loc) → List (Cell T W l)}
      {prodSeen : Loc → Nat} (hpast : ∀ l, (∀ i, l ≠ .data_ i) → past l = s.past l)
      (hseen : ∀ l, (∀ i, l ≠ .data_ i) → prodSeen l = s.prodSeen l) :
      Pushes N s pick (.construct item w) { s with
        mem := Function.update s.mem (.data_ (w.toNat % N.val)) (some item), past := past,
        prodSeen := prodSeen, prod := some (.publish item w) }
  | publish {item : T} {w : BitVec W} :
      Pushes N s pick (.publish item w) { s with
        mem := Function.update s.mem .write_ (w + 1),
        past := Function.update s.past .write_ (s.past .write_ ++ [s.mem .write_]),
        prodSeen := Function.update s.prodSeen .write_ (s.past .write_ ++ [s.mem .write_]).length,
        prod := some (.done item true) }

theorem pushes_of_stepPush {p : PushPc T W} {pick : Nat} (hs : stepPush N s pick p = some s') :
    Pushes N s pick p s' := by
  unfold stepPush at hs
  cases p with
  | loadWrite item =>
      rw [PushPc.code, Instr.stale_load (by decide), Option.map_map, Option.map_eq_some_iff] at hs
      obtain ⟨w, hw, rfl⟩ := hs
      exact Pushes.loadWrite hw
  | loadRead item w =>
      rw [PushPc.code, Instr.stale_load (by decide), Option.map_map, Option.map_eq_some_iff] at hs
      obtain ⟨r, hr, rfl⟩ := hs
      by_cases hfull : w - r = BitVec.ofNat W N.val
      · simp only [Function.comp_apply, if_pos hfull]
        exact Pushes.full hr hfull
      · simp only [Function.comp_apply, if_neg hfull]
        exact Pushes.room hr hfull
  | construct item w =>
      rw [PushPc.code, Instr.stale_store, Option.map_some, Option.some.injEq] at hs
      subst hs
      exact Pushes.construct (fun l hl => Function.update_of_ne (hl _) _ _)
        fun l hl => Function.update_of_ne (hl _) _ _
  | publish item w =>
      rw [PushPc.code, Instr.stale_store, Option.map_some, Option.some.injEq] at hs
      subst hs
      exact Pushes.publish
  | done item ok => exact absurd hs (by simp [PushPc.code, Instr.stale])

theorem StaleInv.push {p : PushPc T W} {pick : Nat} (h : StaleInv N s taken xs)
    (hp : s.prod = some p) (hs : stepPush N s pick p = some s') :
    StaleInv N s' taken (xs ++ p.accepts) := by
  have hq := h.queue
  rw [hp] at hq
  cases pushes_of_stepPush hs with
  | @loadWrite item w hw =>
      obtain ⟨rfl, rfl⟩ := Instr.mayLoad_own h.ownWrite hw
      simp only [PushPc.accepts, List.append_nil, Function.update_eq_self]
      exact h.prodStep (hq.set_prod rfl rfl) ⟨rfl, rfl⟩ ⟨rfl, rfl⟩ rfl (Nat.le_refl _) h.prodSeen
        (by intro hpassed; cases hpassed)
  | @full item w r hr hfull =>
      obtain ⟨-, hseen, hpick, -⟩ := h.fullTest hr
      simp only [PushPc.accepts, List.append_nil]
      exact h.prodStep (hq.set_prod rfl trivial) ⟨rfl, rfl⟩ ⟨rfl, rfl⟩ (by simp)
        (by simpa using hseen) (by simpa using hpick) (by intro hpassed; cases hpassed)
  | @room item w r hr hroom =>
      obtain ⟨-, hseen, hpick, hsub⟩ := h.fullTest hr
      have hw : w = s.mem .write_ := hq.prod
      -- the test is passed on the stale difference, which the true one does not exceed
      have hlt : writes s < pick + N.val := by
        have hne : (w - r).toNat ≠ N.val := by
          intro heq
          rw [← N.toNat_ofNat (Nat.le_refl _)] at heq
          exact hroom (BitVec.eq_of_toNat_eq heq)
        rw [hw, hsub] at hne
        have hover := h.notOver
        omega
      have hlen : xs.length < N.val := by
        have hreads := h.readCount
        have hwrites := h.writeCount
        omega
      simp only [PushPc.accepts, List.append_nil]
      exact h.prodStep (hq.set_prod rfl ⟨hw, hlen⟩) ⟨rfl, rfl⟩ ⟨rfl, rfl⟩ (by simp)
        (by simpa using hseen) (by simpa using hpick) (by simpa using fun _ => hlt)
  | @construct item w past prodSeen hpast hseen =>
      have hq' := hq.push_step (x := ()) rfl
      simp only [PushPc.accepts, List.append_nil] at hq' ⊢
      have hread : prodSeen .read_ = s.prodSeen .read_ := hseen _ (by simp)
      have hwrite : prodSeen .write_ = s.prodSeen .write_ := hseen _ (by simp)
      refine h.prodStep hq' ⟨by simp, hpast _ (by simp)⟩ ⟨by simp, hpast _ (by simp)⟩ hwrite
        ?_ ?_ ?_
      · rw [hread]
      · rw [hread]
        exact h.prodSeen
      · rw [hread]
        exact fun _ => h.passedFull (by rw [hp]; rfl)
  | @publish item w =>
      have hq' := hq.push_step (x := ()) rfl
      have hw : w = s.mem .write_ := hq.prod.1
      have hlt := h.passedFull (by rw [hp]; rfl)
      have hcount := h.writeCount
      refine ⟨hq', ?_, ?_, ?_, ?_, ?_, ?_, ?_, ?_, ?_, ?_, ?_, ?_⟩
      · simpa using h.readValues
      · have hvalues := h.writeValues.snoc
        rw [hw]
        simpa using hvalues
      · simpa [reads] using h.readCount
      · unfold writes at hcount
        simp only [writes, Function.update_self, PushPc.accepts, List.length_append,
          List.length_singleton]
        omega
      · simp [writes]
      · simpa [reads] using h.ownRead
      · simpa [reads] using h.prodSeen
      · simpa [writes] using Nat.le_succ_of_le h.consSeen
      · simp only [writes, Function.update_self, ne_eq, reduceCtorEq, not_false_eq_true,
          Function.update_of_ne, List.length_append, List.length_singleton]
        exact hlt
      · simpa [reads] using h.notUnder
      · intro hpassed
        cases hpassed
      · simpa [reads] using h.passedEmpty

/-! ### One access of the consumer -/

theorem StaleInv.consStep (h : StaleInv N s taken xs) {m : Mem T W}
    {past : (l : Loc) → List (Cell T W l)} {consSeen : Loc → Nat} {c : Option (PopPc T W)}
    (hq : QueueInv N m s.prod c xs)
    (hread : m .read_ = s.mem .read_ ∧ past .read_ = s.past .read_)
    (hwrite : m .write_ = s.mem .write_ ∧ past .write_ = s.past .write_)
    (hown : consSeen .read_ = s.consSeen .read_)
    (hseen : s.consSeen .write_ ≤ consSeen .write_) (hle : consSeen .write_ ≤ writes s)
    (hempty : (consumerSlot N c).isSome = true → reads s < consSeen .write_) :
    StaleInv N { s with mem := m, past := past, consSeen := consSeen, cons := c } taken xs :=
  h.stay hq hread hwrite rfl hown (Nat.le_refl _) h.prodSeen hseen hle h.passedFull hempty

/-- The accesses of a pop. -/
inductive Pops (N : Capacity W) (s : State T W) (pick : Nat) : PopPc T W → State T W → Prop
  | loadRead {r : BitVec W} (hr : Instr.mayLoad s.mem s.past s.consSeen .read_ pick = some r) :
      Pops N s pick .loadRead { s with
        consSeen := Function.update s.consSeen .read_ pick, cons := some (.loadWrite r) }
  | empty {r w : BitVec W} (hw : Instr.mayLoad s.mem s.past s.consSeen .write_ pick = some w)
      (hempty : r = w) :
      Pops N s pick (.loadWrite r) { s with
        consSeen := Function.update s.consSeen .write_ pick, cons := some (.done none) }
  | some {r w : BitVec W} (hw : Instr.mayLoad s.mem s.past s.consSeen .write_ pick = some w)
      (hsome : r ≠ w) :
      Pops N s pick (.loadWrite r) { s with
        consSeen := Function.update s.consSeen .write_ pick, cons := some (.move r) }
  | move {r : BitVec W} :
      Pops N s pick (.move r) { s with
        cons := some (match s.mem (.data_ (r.toNat % N.val)) with
          | some item => .destroy r item
          | none => .fault) }
  | destroy {r : BitVec W} {item : T} {past : (l : Loc) → List (Cell T W l)}
      {consSeen : Loc → Nat} (hpast : ∀ l, (∀ i, l ≠ .data_ i) → past l = s.past l)
      (hseen : ∀ l, (∀ i, l ≠ .data_ i) → consSeen l = s.consSeen l) :
      Pops N s pick (.destroy r item) { s with
        mem := Function.update s.mem (.data_ (r.toNat % N.val)) none, past := past,
        consSeen := consSeen, cons := some (.publish r item) }
  | publish {r : BitVec W} {item : T} :
      Pops N s pick (.publish r item) { s with
        mem := Function.update s.mem .read_ (r + 1),
        past := Function.update s.past .read_ (s.past .read_ ++ [s.mem .read_]),
        consSeen := Function.update s.consSeen .read_ (s.past .read_ ++ [s.mem .read_]).length,
        cons := some (.done (some item)) }

theorem pops_of_stepPop {c : PopPc T W} {pick : Nat} (hs : stepPop N s pick c = some s') :
    Pops N s pick c s' := by
  unfold stepPop at hs
  cases c with
  | loadRead =>
      rw [PopPc.code, Instr.stale_load (by decide), Option.map_map, Option.map_eq_some_iff] at hs
      obtain ⟨r, hr, rfl⟩ := hs
      exact Pops.loadRead hr
  | loadWrite r =>
      rw [PopPc.code, Instr.stale_load (by decide), Option.map_map, Option.map_eq_some_iff] at hs
      obtain ⟨w, hw, rfl⟩ := hs
      by_cases hempty : r = w
      · simp only [Function.comp_apply, if_pos hempty]
        exact Pops.empty hw hempty
      · simp only [Function.comp_apply, if_neg hempty]
        exact Pops.some hw hempty
  | move r =>
      rw [PopPc.code, Instr.stale_nonatomic, Option.map_some, Option.some.injEq] at hs
      subst hs
      exact Pops.move
  | destroy r item =>
      rw [PopPc.code, Instr.stale_store, Option.map_some, Option.some.injEq] at hs
      subst hs
      exact Pops.destroy (fun l hl => Function.update_of_ne (hl _) _ _)
        fun l hl => Function.update_of_ne (hl _) _ _
  | publish r item =>
      rw [PopPc.code, Instr.stale_store, Option.map_some, Option.some.injEq] at hs
      subst hs
      exact Pops.publish
  | done res => exact absurd hs (by simp [PopPc.code, Instr.stale])
  | fault => exact absurd hs (by simp [PopPc.code, Instr.stale])

theorem StaleInv.pop {c : PopPc T W} {pick : Nat} (h : StaleInv N s taken xs)
    (hc : s.cons = some c) (hs : stepPop N s pick c = some s') :
    ∃ xs', xs = c.retires ++ xs' ∧ StaleInv N s' (taken ++ c.retires) xs' := by
  have hq := h.queue
  rw [hc] at hq
  cases pops_of_stepPop hs with
  | @loadRead r hr =>
      obtain ⟨rfl, rfl⟩ := Instr.mayLoad_own h.ownRead hr
      simp only [PopPc.retires, List.append_nil, Function.update_eq_self]
      exact ⟨xs, rfl, h.consStep (hq.set_cons rfl rfl) ⟨rfl, rfl⟩ ⟨rfl, rfl⟩ rfl (Nat.le_refl _)
        h.consSeen nofun⟩
  | @empty r w hw hempty =>
      obtain ⟨-, hseen, hpick, -⟩ := h.emptyTest hw
      simp only [PopPc.retires, List.append_nil]
      exact ⟨xs, rfl, h.consStep (hq.set_cons rfl trivial) ⟨rfl, rfl⟩ ⟨rfl, rfl⟩ (by simp)
        (by simpa using hseen) (by simpa using hpick) nofun⟩
  | @some r w hw hsome =>
      obtain ⟨-, hseen, hpick, hsub⟩ := h.emptyTest hw
      have hr : r = s.mem .read_ := hq.cons
      -- what the consumer has seen is there
      have hlt : reads s < pick := by
        have hne : (w - s.mem .read_).toNat ≠ 0 := by
          intro heq
          rw [← hr] at heq
          have hzero : w - r = 0#W := BitVec.eq_of_toNat_eq (by simpa using heq)
          rw [BitVec.sub_eq_iff_eq_add, BitVec.zero_add] at hzero
          exact hsome hzero.symm
        omega
      have hxs : xs ≠ [] := by
        intro hnil
        have hreads := h.readCount
        have hwrites := h.writeCount
        rw [hnil, List.length_nil] at hwrites
        omega
      simp only [PopPc.retires, List.append_nil]
      exact ⟨xs, rfl, h.consStep (hq.set_cons rfl ⟨hr, hxs⟩) ⟨rfl, rfl⟩ ⟨rfl, rfl⟩ (by simp)
        (by simpa using hseen) (by simpa using hpick) (by simpa using fun _ => hlt)⟩
  | @move r =>
      obtain ⟨xs', hxs, hq'⟩ := hq.pop_step (x := ()) rfl
      simp only [PopPc.retires, List.nil_append, List.append_nil] at hxs ⊢
      subst hxs
      exact ⟨xs, rfl, h.consStep hq' ⟨rfl, rfl⟩ ⟨rfl, rfl⟩ rfl (Nat.le_refl _) h.consSeen
        fun _ => h.passedEmpty (by rw [hc]; rfl)⟩
  | @destroy r item past consSeen hpast hseen =>
      obtain ⟨xs', hxs, hq'⟩ := hq.pop_step (x := ()) rfl
      simp only [PopPc.retires, List.nil_append, List.append_nil] at hxs ⊢
      subst hxs
      have hwrite : consSeen .write_ = s.consSeen .write_ := hseen _ nofun
      refine ⟨xs, rfl, h.consStep hq' ⟨by simp, hpast _ nofun⟩ ⟨by simp, hpast _ nofun⟩
        (hseen _ nofun) ?_ ?_ ?_⟩
      · rw [hwrite]
      · rw [hwrite]
        exact h.consSeen
      · rw [hwrite]
        exact fun _ => h.passedEmpty (by rw [hc]; rfl)
  | @publish r item =>
      obtain ⟨xs', hxs, hq'⟩ := hq.pop_step (x := ()) rfl
      have hr : r = s.mem .read_ := hq.cons.1
      have hlt := h.passedEmpty (by rw [hc]; rfl)
      have hreads := h.readCount
      have hcount := h.writeCount
      rw [hxs, List.length_append, ← Nat.add_assoc] at hcount
      refine ⟨xs', hxs, hq', ?_, ?_, ?_, ?_, ?_, ?_, ?_, ?_, ?_, ?_, ?_, nofun⟩
      · have hvalues := h.readValues.snoc
        rw [hr]
        simpa using hvalues
      · simpa using h.writeValues
      · simpa [reads, PopPc.retires] using hreads
      · simpa [writes, PopPc.retires] using hcount
      · simpa [writes] using h.ownWrite
      · simp [reads]
      · simpa [reads] using Nat.le_succ_of_le h.prodSeen
      · simpa [writes] using h.consSeen
      · simpa [writes] using h.notOver
      · simp only [reads, Function.update_self, ne_eq, reduceCtorEq, not_false_eq_true,
          Function.update_of_ne, List.length_append, List.length_singleton]
        exact hlt
      · simpa [writes] using h.passedFull

/-! ### Runs -/

theorem published_push {p : PushPc T W} {pick : Nat} (hp : s.prod = some p) :
    (published s (.push pick)).toList = p.accepts := by
  unfold published
  rw [hp]
  cases p <;> rfl

/-- Items are published at the end, and taken at the front. -/
theorem StaleInv.step {e : Event T} (h : StaleInv N s taken xs) (hs : step N s e = some s') :
    ∃ taken' xs', StaleInv N s' taken' xs' ∧
      taken ++ xs ++ (published s e).toList = taken' ++ xs' := by
  have hq := h.queue
  cases e with
  | callPush item =>
      simp only [StaleCounters.step] at hs
      split at hs
      · next hp =>
          rw [hp] at hq
          rw [← Option.some.inj hs]
          exact ⟨taken, xs, h.prodStep (hq.set_prod rfl trivial) ⟨rfl, rfl⟩ ⟨rfl, rfl⟩ rfl
            (Nat.le_refl _) h.prodSeen nofun, List.append_nil _⟩
      · exact absurd hs nofun
  | callPop =>
      simp only [StaleCounters.step] at hs
      split at hs
      · next hc =>
          rw [hc] at hq
          rw [← Option.some.inj hs]
          exact ⟨taken, xs, h.consStep (hq.set_cons rfl trivial) ⟨rfl, rfl⟩ ⟨rfl, rfl⟩ rfl
            (Nat.le_refl _) h.consSeen nofun, List.append_nil _⟩
      · exact absurd hs nofun
  | push pick =>
      obtain ⟨p, hp, hstep⟩ := Option.bind_eq_some_iff.mp hs
      refine ⟨taken, xs ++ p.accepts, h.push hp hstep, ?_⟩
      rw [published_push hp, List.append_assoc]
  | pop pick =>
      obtain ⟨c, hc, hstep⟩ := Option.bind_eq_some_iff.mp hs
      obtain ⟨xs', hxs, h'⟩ := h.pop hc hstep
      refine ⟨taken ++ c.retires, xs', h', ?_⟩
      show taken ++ xs ++ [] = _
      rw [hxs, List.append_nil, List.append_assoc]
  | retPush =>
      simp only [StaleCounters.step] at hs
      split at hs
      · next hp =>
          rw [hp] at hq
          rw [← Option.some.inj hs]
          exact ⟨taken, xs, h.prodStep (hq.set_prod rfl trivial) ⟨rfl, rfl⟩ ⟨rfl, rfl⟩ rfl
            (Nat.le_refl _) h.prodSeen nofun, List.append_nil _⟩
      · exact absurd hs nofun
  | retPop =>
      simp only [StaleCounters.step] at hs
      split at hs
      · next hc =>
          rw [hc] at hq
          rw [← Option.some.inj hs]
          exact ⟨taken, xs, h.consStep (hq.set_cons rfl trivial) ⟨rfl, rfl⟩ ⟨rfl, rfl⟩ rfl
            (Nat.le_refl _) h.consSeen nofun, List.append_nil _⟩
      · exact absurd hs nofun

theorem staleInv_of_exec {es : List (Event T)} (h : (machine T N).Exec es s) :
    ∃ taken xs, StaleInv N s taken xs ∧ (machine T N).log published es = taken ++ xs := by
  refine Exec.induction (P := fun es s => ∃ taken xs, StaleInv N s taken xs ∧
    (machine T N).log published es = taken ++ xs) ⟨[], [], StaleInv.initial, rfl⟩ ?_ h
  rintro es s e s' hex ⟨taken, xs, hinv, hlog⟩ hs
  obtain ⟨taken', xs', hinv', hmove⟩ := hinv.step hs
  refine ⟨taken', xs', hinv', ?_⟩
  rw [log_snoc published hex hs, hlog, hmove]

/-! ### Main result -/

/-- The item is the next to be taken, and was published by the store of `write_` that the
consumer has seen, or by one before it: the `i`-th item is published by the store with
number `i + 1`. -/
def SeenPublished (N : Capacity W) (es : List (Event T)) (s : State T W) (item : T) : Prop :=
  ((machine T N).log published es)[reads s]? = some item ∧ reads s + 1 ≤ s.consSeen .write_

/-- What the two threads may do to the slots. -/
structure SlotsOwned (N : Capacity W) (es : List (Event T)) (s : State T W) : Prop where
  apart : ∀ i, producerSlot N s.prod = some i → consumerSlot N s.cons ≠ some i
  construct : ∀ item w, s.prod = some (.construct item w) →
    s.mem (.data_ (w.toNat % N.val)) = none
  move : ∀ r, s.cons = some (.move r) →
    ∃ item, s.mem (.data_ (r.toNat % N.val)) = some item ∧ SeenPublished N es s item
  destroy : ∀ r item, s.cons = some (.destroy r item) →
    s.mem (.data_ (r.toNat % N.val)) = some item ∧ SeenPublished N es s item
  full : ∀ item w pick r, s.prod = some (.loadRead item w) →
    Instr.mayLoad s.mem s.past s.prodSeen .read_ pick = some r → (w - r).toNat ≤ N.val
  empty : ∀ r pick w, s.cons = some (.loadWrite r) →
    Instr.mayLoad s.mem s.past s.consSeen .write_ pick = some w → (w - r).toNat ≤ N.val

/-- A consumer that has passed its test stands at the first item. -/
theorem StaleInv.consumerSlot_eq (h : StaleInv N s taken xs) {i : Nat}
    (hi : consumerSlot N s.cons = some i) : i = (s.mem .read_).toNat % N.val ∧ xs ≠ [] := by
  have hcons := h.queue.cons
  unfold consumerSlot at hi
  split at hi
  · next r hc =>
      rw [hc] at hcons
      rw [← Option.some.inj hi, hcons.1]
      exact ⟨rfl, hcons.2⟩
  · next r item hc =>
      rw [hc] at hcons
      rw [← Option.some.inj hi, hcons.1]
      refine ⟨rfl, fun hnil => ?_⟩
      rw [hnil] at hcons
      exact absurd hcons.2 nofun
  · next r item hc =>
      rw [hc] at hcons
      rw [← Option.some.inj hi, hcons.1]
      refine ⟨rfl, fun hnil => ?_⟩
      rw [hnil] at hcons
      exact absurd hcons.2.1 nofun
  · exact absurd hi nofun

/-- A producer that has passed its test stands at the first slot past the items. -/
theorem StaleInv.producerSlot_eq (h : StaleInv N s taken xs) {i : Nat}
    (hi : producerSlot N s.prod = some i) :
    i = (s.mem .write_).toNat % N.val ∧ xs.length < N.val := by
  have hprod := h.queue.prod
  unfold producerSlot at hi
  split at hi
  · next item w hp =>
      rw [hp] at hprod
      rw [← Option.some.inj hi, hprod.1]
      exact ⟨rfl, hprod.2⟩
  · next item w hp =>
      rw [hp] at hprod
      rw [← Option.some.inj hi, hprod.1]
      exact ⟨rfl, hprod.2.1⟩
  · exact absurd hi nofun

/-- The first item, for a consumer that has passed its test. -/
theorem StaleInv.seenPublished {es : List (Event T)} (h : StaleInv N s taken xs)
    (hlog : (machine T N).log published es = taken ++ xs) {item : T}
    (hhead : xs.head? = some item) (hslot : (consumerSlot N s.cons).isSome = true) :
    SeenPublished N es s item := by
  refine ⟨?_, h.passedEmpty hslot⟩
  rw [hlog, h.readCount, List.getElem?_append_right (Nat.le_refl _), Nat.sub_self,
    ← List.head?_eq_getElem?, hhead]

/--
**Every slot has one owner, whatever the views.**  For every capacity, every interleaving
and every choice of stale values: producer and consumer are never inside one slot;
`construct_at` finds no object; the move and the destroy of `pop` find the object whose
construction was published by the value of `write_` that the consumer saw; and no value
that either thread may load takes the difference in its test past the capacity.
-/
theorem slots_owned {es : List (Event T)} (h : (machine T N).Exec es s) : SlotsOwned N es s := by
  obtain ⟨taken, xs, hinv, hlog⟩ := staleInv_of_exec h
  have hq := hinv.queue
  refine ⟨?_, ?_, ?_, ?_, ?_, ?_⟩
  · intro i hp hc
    obtain ⟨hwrite, hlt⟩ := hinv.producerSlot_eq hp
    obtain ⟨hread, hne⟩ := hinv.consumerSlot_eq hc
    exact hq.write_slot_ne hlt hne (hread.symm.trans hwrite)
  · intro item w hp
    have hprod := hq.prod
    have hfilled := hq.filled
    rw [hp] at hprod hfilled
    obtain ⟨hw, hlt⟩ := hprod
    rw [hw, hq.write_slot]
    exact hfilled.free xs.length (Nat.le_refl _) hlt
  · intro r hc
    have hcons := hq.cons
    have hfilled := hq.filled
    rw [hc] at hcons hfilled
    obtain ⟨hr, hne⟩ := hcons
    obtain ⟨item, rest, hxs⟩ := List.exists_cons_of_ne_nil hne
    refine ⟨item, ?_, hinv.seenPublished hlog (by rw [hxs]; rfl) (by rw [hc]; rfl)⟩
    rw [hr]
    exact hfilled.live 0 item (Nat.le_refl _) (by rw [hxs]; rfl)
  · intro r item hc
    have hcons := hq.cons
    have hfilled := hq.filled
    rw [hc] at hcons hfilled
    obtain ⟨hr, hhead⟩ := hcons
    refine ⟨?_, hinv.seenPublished hlog hhead (by rw [hc]; rfl)⟩
    rw [hr]
    exact hfilled.live 0 item (Nat.le_refl _) (by rw [← List.head?_eq_getElem?, hhead])
  · intro item w pick r hp hr
    have hprod := hq.prod
    rw [hp] at hprod
    have hw : w = s.mem .write_ := hprod
    obtain ⟨-, hseen, -, hsub⟩ := hinv.fullTest hr
    have hover := hinv.notOver
    rw [hw, hsub]
    omega
  · intro r pick w hc hw
    have hcons := hq.cons
    rw [hc] at hcons
    have hr : r = s.mem .read_ := hcons
    obtain ⟨-, -, hpick, hsub⟩ := hinv.emptyTest hw
    have hreads := hinv.readCount
    have hwrites := hinv.writeCount
    have hcap := hq.le
    rw [hr, hsub]
    omega

/-- Two slots. -/
def slots2 : Capacity 64 := ⟨2, 1, by decide, rfl⟩

/-- The producer fills both slots and the consumer takes one item; the producer, who still
sees an old `read_`, finds the queue full, looks again and builds in the slot that has
become free, while the consumer is about to move the other item. -/
def staleRun : List (Event Nat) :=
  [.callPush 7, .push 0, .push 0, .push 0, .push 0, .retPush,
    .callPush 8, .push 1, .push 0, .push 0, .push 0, .retPush,
    .callPop, .pop 0, .pop 1, .pop 0, .pop 0, .pop 0, .retPop,
    .callPush 9, .push 2, .push 0, .retPush, .callPush 9, .push 2, .push 1,
    .callPop, .pop 1, .pop 2]

theorem staleRun_goes :
    ((machine Nat slots2).run (machine Nat slots2).init staleRun).isSome = true := by
  decide +kernel

theorem slots_owned_staleRun :
    SlotsOwned slots2 staleRun ((machine Nat slots2).final staleRun staleRun_goes) :=
  slots_owned (exec_final staleRun_goes)

end StaleCounters

end MarketData
