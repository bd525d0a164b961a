/-
What `CustomSpscQueue` keeps true between any two accesses.

`QueueInv` ties the counters, the slots and the locals of both calls in progress
to one list, the items the queue holds.  Each side's step is one lemma: an access
of the producer appends the item exactly when it stores `write_`, an access of the
consumer drops the head exactly when it stores `read_`, and nothing else changes
the list.  Everything about the queue further up, in every program that uses it,
goes through these two lemmas, so the two memory windows (an object built before
it is counted, an object destroyed before it is uncounted) are dealt with here
once.
-/
import MarketData.Utils.CustomSpscQueue

namespace MarketData

open Lib

variable {T : Type} {W : Nat} {X : Type} {N : Capacity W}

/-! ### Slots as a function of the index -/

/-- The slot array. -/
def slots (m : Mem T W) : Nat → Option T := fun i => m (.data_ i)

@[simp] theorem slots_update_read (m : Mem T W) (v : BitVec W) :
    slots (Function.update m .read_ v) = slots m := by
  funext i
  simp [slots]

@[simp] theorem slots_update_write (m : Mem T W) (v : BitVec W) :
    slots (Function.update m .write_ v) = slots m := by
  funext i
  simp [slots]

@[simp] theorem slots_update_isSleeping (m : Mem T W) (b : Bool) :
    slots (Function.update m .isSleeping_ b) = slots m := by
  funext i
  simp [slots]

@[simp] theorem slots_update_data (m : Mem T W) (i : Nat) (v : Option T) :
    slots (Function.update m (.data_ i) v) = Function.update (slots m) i v := by
  funext j
  by_cases h : j = i
  · subst h
    simp [slots]
  · have hloc : Loc.data_ j ≠ Loc.data_ i := by simpa using h
    simp [slots, Function.update_of_ne h, Function.update_of_ne hloc]

/-- The queue is empty when the counters agree. -/
theorem held_eq_zero_iff {m : Mem T W} : held m = 0 ↔ m .write_ = m .read_ := by
  unfold held
  constructor
  · intro hzero
    have hsub : m .write_ - m .read_ = 0#W := BitVec.eq_of_toNat_eq (by simpa using hzero)
    rw [BitVec.sub_eq_iff_eq_add, BitVec.zero_add] at hsub
    exact hsub
  · intro heq
    rw [heq, BitVec.sub_self]
    rfl

/-! ### What an access never touches -/

/-- A push stores to no variable of the consumer, and wakes nobody. -/
theorem PushPc.frame {pc : PushPc T W} {m : Mem T W} {x : X}
    {n : Instr.Next Loc (Cell T W) X (PushPc T W)} (h : (pc.code N).sc m x = some n) :
    n.mem .read_ = m .read_ ∧ n.mem .isSleeping_ = m .isSleeping_ ∧ n.obj = x ∧
      n.woken = false := by
  cases pc <;> simp only [PushPc.code, Instr.sc_load, Instr.sc_store, Instr.sc_halt,
    Option.some.injEq, reduceCtorEq] at h <;> subst h <;> simp

/-- A pop stores to no variable of the producer, and wakes nobody. -/
theorem PopPc.frame {pc : PopPc T W} {m : Mem T W} {x : X}
    {n : Instr.Next Loc (Cell T W) X (PopPc T W)} (h : (pc.code N).sc m x = some n) :
    n.mem .write_ = m .write_ ∧ n.mem .isSleeping_ = m .isSleeping_ ∧ n.obj = x ∧
      n.woken = false := by
  cases pc <;> simp only [PopPc.code, Instr.sc_load, Instr.sc_store, Instr.sc_halt,
    Option.some.injEq, reduceCtorEq] at h <;> subst h <;> simp

/-- Inside a push a caller makes an access of it, or returns from it. -/
theorem PushPc.call_cases {P : Type} {inside : PushPc T W → P} {ret : T → Bool → P}
    {pc : PushPc T W} {m : Mem T W} {x : X} {n : Instr.Next Loc (Cell T W) X P}
    (h : (pc.call N inside ret).sc m x = some n) :
    (∃ item ok, pc = .done item ok ∧ n = { mem := m, obj := x, pc := ret item ok }) ∨
      ∃ n', (pc.code N).sc m x = some n' ∧
        n = { mem := n'.mem, obj := x, pc := inside n'.pc } := by
  by_cases hdone : ∃ item ok, pc = .done item ok
  · obtain ⟨item, ok, rfl⟩ := hdone
    simp only [PushPc.call, Instr.sc_goto, Option.some.injEq] at h
    exact Or.inl ⟨item, ok, rfl, h.symm⟩
  · have hcall : pc.call N inside ret = (pc.code N : Code T W X _).map inside := by
      cases pc with
      | done item ok => exact absurd ⟨item, ok, rfl⟩ hdone
      | _ => rfl
    rw [hcall] at h
    obtain ⟨n', hn', hmem, hobj, hpc, hwoken⟩ := Instr.sc_map_some h
    obtain ⟨-, -, hobj', hwoken'⟩ := PushPc.frame hn'
    refine Or.inr ⟨n', hn', ?_⟩
    cases n
    simp_all

/-- Inside a pop a caller makes an access of it, or returns from it. -/
theorem PopPc.call_cases {P : Type} {inside : PopPc T W → P} {ret : Option T → P}
    {pc : PopPc T W} {m : Mem T W} {x : X} {n : Instr.Next Loc (Cell T W) X P}
    (h : (pc.call N inside ret).sc m x = some n) :
    (∃ res, pc = .done res ∧ n = { mem := m, obj := x, pc := ret res }) ∨
      ∃ n', (pc.code N).sc m x = some n' ∧
        n = { mem := n'.mem, obj := x, pc := inside n'.pc } := by
  by_cases hdone : ∃ res, pc = .done res
  · obtain ⟨res, rfl⟩ := hdone
    simp only [PopPc.call, Instr.sc_goto, Option.some.injEq] at h
    exact Or.inl ⟨res, rfl, h.symm⟩
  · have hcall : pc.call N inside ret = (pc.code N : Code T W X _).map inside := by
      cases pc with
      | done res => exact absurd ⟨res, rfl⟩ hdone
      | _ => rfl
    rw [hcall] at h
    obtain ⟨n', hn', hmem, hobj, hpc, hwoken⟩ := Instr.sc_map_some h
    obtain ⟨-, -, hobj', hwoken'⟩ := PopPc.frame hn'
    refine Or.inr ⟨n', hn', ?_⟩
    cases n
    simp_all

/-- Only the full test leads to a failed push. -/
theorem PushPc.loadRead_of_fails {pc : PushPc T W} {m : Mem T W} {x : X} {item : T}
    {n : Instr.Next Loc (Cell T W) X (PushPc T W)} (h : (pc.code N).sc m x = some n)
    (hpc : n.pc = .done item false) : ∃ item' w, pc = .loadRead item' w := by
  cases pc with
  | loadRead item' w => exact ⟨item', w, rfl⟩
  | done item' ok => simp [PushPc.code] at h
  | _ =>
      simp only [PushPc.code, Instr.sc_load, Instr.sc_store, Option.some.injEq] at h
      subst h
      simp at hpc

/-- Only the empty test leads to a failed pop. -/
theorem PopPc.loadWrite_of_fails {pc : PopPc T W} {m : Mem T W} {x : X}
    {n : Instr.Next Loc (Cell T W) X (PopPc T W)} (h : (pc.code N).sc m x = some n)
    (hpc : n.pc = .done none) : ∃ r, pc = .loadWrite r := by
  cases pc with
  | loadWrite r => exact ⟨r, rfl⟩
  | move r =>
      simp only [PopPc.code, Instr.sc_load, Option.some.injEq] at h
      subst h
      cases hcell : m (.data_ (r.toNat % N.val)) <;> simp [hcell] at hpc
  | done res => simp [PopPc.code] at h
  | fault => simp [PopPc.code] at h
  | _ =>
      simp only [PopPc.code, Instr.sc_load, Instr.sc_store, Option.some.injEq] at h
      subst h
      simp at hpc

/-! ### The invariant -/

/-- The producer has built an object it has not counted yet. -/
def PushPc.built : Option (PushPc T W) → Nat
  | some (.publish _ _) => 1
  | _ => 0

/-- The consumer has destroyed an object it still counts. -/
def PopPc.destroyed : Option (PopPc T W) → Nat
  | some (.publish _ _) => 1
  | _ => 0

/-- The item an access puts into the queue: the store of `write_` does. -/
def PushPc.accepts : PushPc T W → List T
  | .publish item _ => [item]
  | _ => []

/-- The item an access takes out of the queue: the store of `read_` does. -/
def PopPc.retires : PopPc T W → List T
  | .publish _ item => [item]
  | _ => []

/-- What the producer's locals say about the queue holding `n` items. -/
def PushPc.Ok (N : Capacity W) (m : Mem T W) (n : Nat) : Option (PushPc T W) → Prop
  | some (.loadRead _ w) => w = m .write_
  | some (.construct _ w) => w = m .write_ ∧ n < N.val
  | some (.publish item w) =>
      w = m .write_ ∧ n < N.val ∧ m (.data_ (w.toNat % N.val)) = some item
  | _ => True

/-- What the consumer's locals say about the queue holding `xs`. -/
def PopPc.Ok (N : Capacity W) (m : Mem T W) (xs : List T) : Option (PopPc T W) → Prop
  | some (.loadWrite r) => r = m .read_
  | some (.move r) => r = m .read_ ∧ xs ≠ []
  | some (.destroy r item) => r = m .read_ ∧ xs.head? = some item
  | some (.publish r item) =>
      r = m .read_ ∧ xs.head? = some item ∧ m (.data_ (r.toNat % N.val)) = none
  | some .fault => False
  | _ => True

/-- The queue holds `xs` while the producer is at `p` and the consumer at `c`;
`none` is a thread outside the queue. -/
structure QueueInv (N : Capacity W) (m : Mem T W) (p : Option (PushPc T W))
    (c : Option (PopPc T W)) (xs : List T) : Prop where
  count : m .write_ = m .read_ + BitVec.ofNat W xs.length
  le : xs.length ≤ N.val
  filled : Filled N (slots m) (m .read_) xs (PopPc.destroyed c) (xs.length + PushPc.built p)
  prod : PushPc.Ok N m xs.length p
  cons : PopPc.Ok N m xs c

theorem QueueInv.initial : QueueInv N (Mem.initial : Mem T W) none none [] where
  count := (BitVec.add_zero _).symm
  le := Nat.zero_le _
  filled := Filled.empty N _
  prod := trivial
  cons := trivial

namespace QueueInv

variable {m : Mem T W} {p p' : Option (PushPc T W)} {c c' : Option (PopPc T W)} {xs : List T}

/-- The counters' wrapped difference is the number of items. -/
theorem held_eq (h : QueueInv N m p c xs) : held m = xs.length := by
  unfold held
  rw [h.count, RingSize.add_sub_self, N.toNat_ofNat h.le]

/-- The slot of the `write_` counter is the first one past the items. -/
theorem write_slot (h : QueueInv N m p c xs) :
    (m .write_).toNat % N.val = N.slot (m .read_) xs.length := by
  rw [h.count, N.toNat_add_mod]

/-- A producer that holds nothing can be replaced by one that holds nothing. -/
theorem set_prod (h : QueueInv N m p c xs) (hb : PushPc.built p' = PushPc.built p)
    (hp : PushPc.Ok N m xs.length p') : QueueInv N m p' c xs :=
  ⟨h.count, h.le, by rw [hb]; exact h.filled, hp, h.cons⟩

theorem set_cons (h : QueueInv N m p c xs) (hd : PopPc.destroyed c' = PopPc.destroyed c)
    (hc : PopPc.Ok N m xs c') : QueueInv N m p c' xs :=
  ⟨h.count, h.le, by rw [hd]; exact h.filled, h.prod, hc⟩

/-- The queue does not look at the sleeping flag. -/
theorem set_isSleeping (h : QueueInv N m p c xs) (b : Bool) :
    QueueInv N (Function.update m .isSleeping_ b) p c xs := by
  refine ⟨by simpa using h.count, h.le, by simpa using h.filled, ?_, ?_⟩
  · have hprod := h.prod
    rcases p with _ | p
    · trivial
    · cases p <;> simp_all [PushPc.Ok]
  · have hcons := h.cons
    rcases c with _ | c
    · trivial
    · cases c <;> simp_all [PopPc.Ok]

/-- The objects in the slots are the items, less the one the consumer has
destroyed and not uncounted. -/
theorem contents_eq (h : QueueInv N m p c xs) :
    contents N m = xs.drop (PopPc.destroyed c) := by
  have hfilled := h.filled
  unfold contents
  rw [h.held_eq]
  by_cases hc : ∃ r item, c = some (.publish r item)
  · obtain ⟨r, item, rfl⟩ := hc
    obtain ⟨hr, hhead, hnone⟩ := h.cons
    obtain ⟨rest, rfl⟩ : ∃ rest, xs = item :: rest := List.head?_eq_some_iff.mp hhead
    rw [hr] at hnone
    exact hfilled.elements_destroyed hnone
  · have hd : PopPc.destroyed c = 0 := by
      unfold PopPc.destroyed
      split
      · exact absurd ⟨_, _, rfl⟩ hc
      · rfl
    rw [hd] at hfilled ⊢
    exact hfilled.elements

/-! ### One access of the producer -/

/-- The slot the producer builds in is not the one the consumer empties. -/
theorem write_slot_ne (h : QueueInv N m p c xs) (hlt : xs.length < N.val) (hne : xs ≠ []) :
    (m .read_).toNat % N.val ≠ (m .write_).toNat % N.val := by
  rw [h.write_slot, ← N.slot_zero]
  intro hs
  have hzero := N.slot_inj N.val_pos hlt hs
  exact hne (List.length_eq_zero_iff.mp hzero.symm)

/-- Building an object leaves the consumer's view as it was. -/
theorem cons_of_construct (h : QueueInv N m p c xs) (hlt : xs.length < N.val) (item : T) :
    PopPc.Ok N (Function.update m (.data_ ((m .write_).toNat % N.val)) (some item)) xs c := by
  have hcons := h.cons
  rcases c with _ | c
  · trivial
  · cases c with
    | publish r x =>
        obtain ⟨hr, hhead, hnone⟩ := hcons
        have hne : xs ≠ [] := by
          intro hnil
          simp [hnil] at hhead
        have hslot : Loc.data_ (r.toNat % N.val) ≠ Loc.data_ ((m .write_).toNat % N.val) := by
          rw [hr]
          simpa using h.write_slot_ne hlt hne
        refine ⟨by simpa using hr, hhead, ?_⟩
        rw [Function.update_of_ne hslot]
        exact hnone
    | _ => simp_all [PopPc.Ok]

/-- Counting one more item leaves the consumer's view as it was. -/
theorem cons_of_publish (h : QueueInv N m p c xs) (item : T) (w : BitVec W) :
    PopPc.Ok N (Function.update m .write_ w) (xs ++ [item]) c := by
  have hcons := h.cons
  rcases c with _ | c
  · trivial
  · cases c <;> simp_all [PopPc.Ok]

/-- **One access of a push.**  The list grows exactly at the store of `write_`. -/
theorem push_step {pc : PushPc T W} {x : X} {n : Instr.Next Loc (Cell T W) X (PushPc T W)}
    (h : QueueInv N m (some pc) c xs) (hs : (pc.code N).sc m x = some n) :
    QueueInv N n.mem (some n.pc) c (xs ++ pc.accepts) := by
  cases pc with
  | loadWrite item =>
      simp only [PushPc.code, Instr.sc_load, Option.some.injEq] at hs
      subst hs
      simp only [PushPc.accepts, List.append_nil]
      exact h.set_prod rfl rfl
  | loadRead item w =>
      simp only [PushPc.code, Instr.sc_load, Option.some.injEq] at hs
      subst hs
      simp only [PushPc.accepts, List.append_nil]
      have hw : w = m .write_ := h.prod
      by_cases hfull : w - m .read_ = BitVec.ofNat W N.val
      · rw [if_pos hfull]
        exact h.set_prod rfl trivial
      · rw [if_neg hfull]
        refine h.set_prod rfl ⟨hw, ?_⟩
        rw [hw, h.count, N.sub_eq_val_iff h.le] at hfull
        exact Nat.lt_of_le_of_ne h.le hfull
  | construct item w =>
      obtain ⟨rfl, hlt⟩ := h.prod
      simp only [PushPc.code, Instr.sc_store, Option.some.injEq] at hs
      subst hs
      simp only [PushPc.accepts, List.append_nil]
      refine ⟨by simpa using h.count, h.le, ?_, ?_, h.cons_of_construct hlt item⟩
      · rw [slots_update_data, h.write_slot]
        simpa [PushPc.built] using h.filled.construct hlt item
      · exact ⟨by simp, hlt, by simp⟩
  | publish item w =>
      obtain ⟨rfl, hlt, hbuilt⟩ := h.prod
      simp only [PushPc.code, Instr.sc_store, Option.some.injEq] at hs
      subst hs
      simp only [PushPc.accepts]
      rw [h.write_slot] at hbuilt
      refine ⟨?_, by simp; omega, ?_, trivial, h.cons_of_publish item _⟩
      · simp [h.count, BitVec.ofNat_add, BitVec.add_assoc]
      · simpa [PushPc.built] using h.filled.publish hbuilt
  | done item ok => simp [PushPc.code] at hs

/-- A push that decides to fail has just seen a full queue. -/
theorem push_fails {item item' : T} {w : BitVec W} {x : X}
    {n : Instr.Next Loc (Cell T W) X (PushPc T W)} (h : QueueInv N m (some (.loadRead item w)) c xs)
    (hs : ((PushPc.loadRead item w).code N).sc m x = some n) (hpc : n.pc = .done item' false) :
    n.mem = m ∧ xs.length = N.val := by
  have hw : w = m .write_ := h.prod
  simp only [PushPc.code, Instr.sc_load, Option.some.injEq] at hs
  subst hs
  refine ⟨rfl, ?_⟩
  by_cases hfull : w - m .read_ = BitVec.ofNat W N.val
  · rw [hw, h.count, N.sub_eq_val_iff h.le] at hfull
    exact hfull
  · simp [if_neg hfull] at hpc

/-! ### One access of the consumer -/

/-- Emptying the head slot leaves the producer's view as it was. -/
theorem prod_of_destroy (h : QueueInv N m p c xs) (hne : xs ≠ []) :
    PushPc.Ok N (Function.update m (.data_ ((m .read_).toNat % N.val)) none) xs.length p := by
  have hprod := h.prod
  rcases p with _ | p
  · trivial
  · cases p with
    | publish item w =>
        obtain ⟨hw, hlt, hbuilt⟩ := hprod
        have hslot : Loc.data_ (w.toNat % N.val) ≠ Loc.data_ ((m .read_).toNat % N.val) := by
          rw [hw]
          simpa using (h.write_slot_ne hlt hne).symm
        refine ⟨by simpa using hw, hlt, ?_⟩
        rw [Function.update_of_ne hslot]
        exact hbuilt
    | _ => simp_all [PushPc.Ok]

/-- Uncounting an item leaves the producer's view as it was. -/
theorem prod_of_retire {item : T} {rest : List T} (h : QueueInv N m p c (item :: rest))
    (r : BitVec W) : PushPc.Ok N (Function.update m .read_ r) rest.length p := by
  have hprod := h.prod
  rcases p with _ | p
  · trivial
  · cases p with
    | construct x w =>
        obtain ⟨hw, hlt⟩ := hprod
        exact ⟨by simpa using hw, Nat.lt_of_succ_lt hlt⟩
    | publish x w =>
        obtain ⟨hw, hlt, hbuilt⟩ := hprod
        exact ⟨by simpa using hw, Nat.lt_of_succ_lt hlt, by simpa using hbuilt⟩
    | _ => simp_all [PushPc.Ok]

/-- **One access of a pop.**  The list shrinks exactly at the store of `read_`. -/
theorem pop_step {pc : PopPc T W} {x : X} {n : Instr.Next Loc (Cell T W) X (PopPc T W)}
    (h : QueueInv N m p (some pc) xs) (hs : (pc.code N).sc m x = some n) :
    ∃ xs', xs = pc.retires ++ xs' ∧ QueueInv N n.mem p (some n.pc) xs' := by
  cases pc with
  | loadRead =>
      simp only [PopPc.code, Instr.sc_load, Option.some.injEq] at hs
      subst hs
      exact ⟨xs, rfl, h.set_cons rfl rfl⟩
  | loadWrite r =>
      simp only [PopPc.code, Instr.sc_load, Option.some.injEq] at hs
      subst hs
      have hr : r = m .read_ := h.cons
      refine ⟨xs, rfl, ?_⟩
      by_cases hempty : r = m .write_
      · rw [if_pos hempty]
        exact h.set_cons rfl trivial
      · rw [if_neg hempty]
        refine h.set_cons rfl ⟨hr, ?_⟩
        rw [hr, h.count, N.eq_add_iff h.le] at hempty
        intro hnil
        exact hempty (by rw [hnil]; rfl)
  | move r =>
      obtain ⟨rfl, hne⟩ := h.cons
      simp only [PopPc.code, Instr.sc_load, Option.some.injEq] at hs
      subst hs
      obtain ⟨item, rest, rfl⟩ := List.exists_cons_of_ne_nil hne
      have hslot : m (.data_ ((m .read_).toNat % N.val)) = some item :=
        h.filled.live 0 item (Nat.zero_le _) rfl
      refine ⟨_, rfl, ?_⟩
      simp only [hslot]
      exact h.set_cons rfl ⟨rfl, rfl⟩
  | destroy r item =>
      obtain ⟨rfl, hhead⟩ := h.cons
      obtain ⟨rest, rfl⟩ : ∃ rest, xs = item :: rest := List.head?_eq_some_iff.mp hhead
      simp only [PopPc.code, Instr.sc_store, Option.some.injEq] at hs
      subst hs
      refine ⟨_, rfl, by simpa using h.count, h.le, ?_, ?_, ?_⟩
      · rw [slots_update_data, ← N.slot_zero]
        simpa [PopPc.destroyed] using h.filled.destroy (by rw [List.length_cons]; omega) h.le
      · exact h.prod_of_destroy (by simp)
      · exact ⟨by simp, rfl, by simp⟩
  | publish r item =>
      obtain ⟨rfl, hhead, hnone⟩ := h.cons
      obtain ⟨rest, rfl⟩ : ∃ rest, xs = item :: rest := List.head?_eq_some_iff.mp hhead
      simp only [PopPc.code, Instr.sc_store, Option.some.injEq] at hs
      subst hs
      refine ⟨rest, rfl, ?_, Nat.le_of_succ_le h.le, ?_, h.prod_of_retire _, trivial⟩
      · have hcount := h.count
        simp only [List.length_cons] at hcount
        simp only [ne_eq, reduceCtorEq, not_false_eq_true, Function.update_of_ne,
          Function.update_self, hcount]
        rw [Nat.add_comm rest.length, BitVec.ofNat_add, BitVec.add_assoc]
        rfl
      · have hfilled := h.filled
        rw [List.length_cons, Nat.add_right_comm] at hfilled
        simpa [PopPc.destroyed] using hfilled.retire hnone
  | done res => simp [PopPc.code] at hs
  | fault => exact h.cons.elim

/-- A pop that decides to fail has just seen an empty queue. -/
theorem pop_fails {r : BitVec W} {x : X} {n : Instr.Next Loc (Cell T W) X (PopPc T W)}
    (h : QueueInv N m p (some (.loadWrite r)) xs)
    (hs : ((PopPc.loadWrite r).code N).sc m x = some n) (hpc : n.pc = .done none) :
    n.mem = m ∧ xs = [] := by
  have hr : r = m .read_ := h.cons
  simp only [PopPc.code, Instr.sc_load, Option.some.injEq] at hs
  subst hs
  refine ⟨rfl, ?_⟩
  by_cases hempty : r = m .write_
  · rw [hr, h.count, N.eq_add_iff h.le] at hempty
    exact List.length_eq_zero_iff.mp hempty
  · simp [if_neg hempty] at hpc

end QueueInv

/-! ### Items inside the operations -/

/-- The item a push has still to put in, or could not put in. -/
def PushPc.pending : PushPc T W → List T
  | .loadWrite item => [item]
  | .loadRead item _ => [item]
  | .construct item _ => [item]
  | .publish item _ => [item]
  | .done item ok => if ok then [] else [item]

/-- The item a pop has taken out, counter included. -/
def PopPc.taken : PopPc T W → List T
  | .done res => res.toList
  | _ => []

/-- The item a pop has moved out of its slot while the counter still counts it. -/
def PopPc.moved : Option (PopPc T W) → List T
  | some (.publish _ item) => [item]
  | _ => []

theorem PushPc.pending_le (pc : PushPc T W) : pc.pending.length ≤ 1 := by
  cases pc with
  | done item ok => cases ok <;> simp [PushPc.pending]
  | _ => simp [PushPc.pending]

theorem PopPc.inHand_le (pc : PopPc T W) : (pc.taken ++ PopPc.moved (some pc)).length ≤ 1 := by
  cases pc with
  | done res => cases res <;> simp [PopPc.taken, PopPc.moved]
  | _ => simp [PopPc.taken, PopPc.moved]

/-- An access leaves the item pending, or puts it in. -/
theorem PushPc.pending_step {pc : PushPc T W} {m : Mem T W} {x : X}
    {n : Instr.Next Loc (Cell T W) X (PushPc T W)} (h : (pc.code N).sc m x = some n) :
    pc.pending = pc.accepts ++ n.pc.pending := by
  cases pc with
  | loadRead item w =>
      simp only [PushPc.code, Instr.sc_load, Option.some.injEq] at h
      subst h
      by_cases hfull : w - m .read_ = BitVec.ofNat W N.val
      · rw [if_pos hfull]
        rfl
      · rw [if_neg hfull]
        rfl
  | done item ok => simp [PushPc.code] at h
  | _ =>
      simp only [PushPc.code, Instr.sc_load, Instr.sc_store, Option.some.injEq] at h
      subst h
      rfl

/-- A pop that still makes accesses has taken nothing out. -/
theorem PopPc.taken_of_access {pc : PopPc T W} {m : Mem T W} {x : X}
    {n : Instr.Next Loc (Cell T W) X (PopPc T W)} (h : (pc.code N).sc m x = some n) :
    pc.taken = [] := by
  cases pc with
  | done res => simp [PopPc.code] at h
  | _ => rfl

/-- An access takes out what it retires, and nothing else. -/
theorem PopPc.taken_step {pc : PopPc T W} {m : Mem T W} {x : X}
    {n : Instr.Next Loc (Cell T W) X (PopPc T W)} (h : (pc.code N).sc m x = some n) :
    n.pc.taken = pc.taken ++ pc.retires := by
  cases pc with
  | loadWrite r =>
      simp only [PopPc.code, Instr.sc_load, Option.some.injEq] at h
      subst h
      by_cases hempty : r = m .write_
      · rw [if_pos hempty]
        rfl
      · rw [if_neg hempty]
        rfl
  | move r =>
      simp only [PopPc.code, Instr.sc_load, Option.some.injEq] at h
      subst h
      cases m (.data_ (r.toNat % N.val)) <;> rfl
  | done res => simp [PopPc.code] at h
  | fault => simp [PopPc.code] at h
  | _ =>
      simp only [PopPc.code, Instr.sc_load, Instr.sc_store, Option.some.injEq] at h
      subst h
      rfl

/-- What the ring counts is what its slots hold, after the item that has been moved
out. -/
theorem QueueInv.moved_append_contents {m : Mem T W} {p : Option (PushPc T W)}
    {c : Option (PopPc T W)} {xs : List T} (h : QueueInv N m p c xs) :
    PopPc.moved c ++ contents N m = xs := by
  rw [h.contents_eq]
  have hcons := h.cons
  rcases c with _ | pc
  · rfl
  · cases pc with
    | publish r item =>
        obtain ⟨-, hhead, -⟩ := hcons
        obtain ⟨rest, rfl⟩ : ∃ rest, xs = item :: rest := List.head?_eq_some_iff.mp hhead
        rfl
    | _ => rfl

end MarketData
