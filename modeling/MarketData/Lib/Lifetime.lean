/-
Objects in raw storage.

Storage is a row of slots.  Constructing makes a new object in a slot without one, and
destroying ends the object in a slot; in any other slot neither of them is defined.  So a
list of such actions is a run of `Storage.machine`, or somewhere in it an object is built
over another one, or a slot is destroyed while empty.

Objects are numbered in the order in which they are constructed, so two of them can be
told apart even if they have the same value.  In a run every object is destroyed at most
once (`Ok.once`), which leaves the question whether one is still there when the storage is
given back.
-/
import MarketData.Lib.Machine
import Mathlib.Logic.Function.Basic

namespace Lib

/-- The number of an object's construction, and its value. -/
structure Object (T : Type) where
  number : Nat
  value : T

/-- What is done to a slot, and why an object is destroyed. -/
inductive SlotAction (T D : Type)
  | construct (slot : Nat) (value : T)
  | destroy (slot : Nat) (cause : D)

/-- The objects in the slots, how many have been constructed, and which were destroyed. -/
structure Storage (T D : Type) where
  live : Nat → Option (Object T)
  constructed : Nat
  destroyed : List (Object T × D)

namespace Storage

variable {T D : Type}

/-- Raw storage. -/
def initial : Storage T D := { live := fun _ => none, constructed := 0, destroyed := [] }

def construct (s : Storage T D) (slot : Nat) (value : T) : Storage T D :=
  { s with live := Function.update s.live slot (some ⟨s.constructed, value⟩),
           constructed := s.constructed + 1 }

def destroy (s : Storage T D) (slot : Nat) (o : Object T) (cause : D) : Storage T D :=
  { s with live := Function.update s.live slot none, destroyed := s.destroyed ++ [(o, cause)] }

def act (s : Storage T D) : SlotAction T D → Option (Storage T D)
  | .construct slot value =>
      match s.live slot with
      | none => some (s.construct slot value)
      | some _ => none
  | .destroy slot cause =>
      match s.live slot with
      | none => none
      | some o => some (s.destroy slot o cause)

def machine (T D : Type) : Machine (Storage T D) (SlotAction T D) where
  init := initial
  step := act

/-- How often the object with this number was destroyed. -/
def timesDestroyed (s : Storage T D) (number : Nat) : Nat :=
  s.destroyed.countP fun e => e.1.number = number

variable {s s' : Storage T D} {slot : Nat}

theorem act_construct (h : s.live slot = none) (value : T) :
    s.act (.construct slot value) = some (s.construct slot value) := by
  simp [act, h]

theorem act_destroy {o : Object T} (h : s.live slot = some o) (cause : D) :
    s.act (.destroy slot cause) = some (s.destroy slot o cause) := by
  simp [act, h]

/-- An action finds its slot empty, or finds an object in it. -/
theorem act_cases {a : SlotAction T D} (h : s.act a = some s') :
    (∃ slot value, a = .construct slot value ∧ s.live slot = none ∧
      s' = s.construct slot value) ∨
    ∃ slot cause o, a = .destroy slot cause ∧ s.live slot = some o ∧
      s' = s.destroy slot o cause := by
  cases a with
  | construct slot value =>
      cases hlive : s.live slot with
      | none =>
          rw [act_construct hlive, Option.some.injEq] at h
          exact .inl ⟨slot, value, rfl, hlive, h.symm⟩
      | some o => simp [act, hlive] at h
  | destroy slot cause =>
      cases hlive : s.live slot with
      | none => simp [act, hlive] at h
      | some o =>
          rw [act_destroy hlive, Option.some.injEq] at h
          exact .inr ⟨slot, cause, o, rfl, hlive, h.symm⟩

/-! ### What each action does to a slot and to a count -/

@[simp] theorem live_construct (value : T) : (s.construct slot value).live =
    Function.update s.live slot (some ⟨s.constructed, value⟩) := rfl

@[simp] theorem live_destroy (o : Object T) (cause : D) :
    (s.destroy slot o cause).live = Function.update s.live slot none := rfl

theorem live_construct_cases {value : T} {i : Nat} {o : Object T}
    (h : (s.construct slot value).live i = some o) :
    (i = slot ∧ o = ⟨s.constructed, value⟩) ∨ (i ≠ slot ∧ s.live i = some o) := by
  rw [live_construct] at h
  by_cases hi : i = slot
  · rw [hi, Function.update_self, Option.some.injEq] at h
    exact .inl ⟨hi, h.symm⟩
  · rw [Function.update_of_ne hi] at h
    exact .inr ⟨hi, h⟩

theorem live_destroy_cases {cause : D} {i : Nat} {o o' : Object T}
    (h : (s.destroy slot o cause).live i = some o') : i ≠ slot ∧ s.live i = some o' := by
  rw [live_destroy] at h
  by_cases hi : i = slot
  · rw [hi, Function.update_self] at h
    cases h
  · rw [Function.update_of_ne hi] at h
    exact ⟨hi, h⟩

@[simp] theorem timesDestroyed_construct (value : T) (k : Nat) :
    (s.construct slot value).timesDestroyed k = s.timesDestroyed k := rfl

theorem timesDestroyed_destroy (o : Object T) (cause : D) (k : Nat) :
    (s.destroy slot o cause).timesDestroyed k =
      s.timesDestroyed k + if o.number = k then 1 else 0 := by
  unfold timesDestroyed destroy
  rw [List.countP_append, List.countP_singleton]
  simp

/-! ### What every run keeps -/

/-- The object with this number is in some slot. -/
def Live (s : Storage T D) (number : Nat) : Prop :=
  ∃ slot o, s.live slot = some o ∧ o.number = number

/-- Each number below `constructed` is that of one object, in one slot or destroyed once. -/
structure Ok (s : Storage T D) : Prop where
  lt : ∀ k, s.Live k → k < s.constructed
  inj : ∀ i j o o', s.live i = some o → s.live j = some o' → o.number = o'.number → i = j
  unfinished : ∀ k, s.Live k → s.timesDestroyed k = 0
  once : ∀ k < s.constructed, s.Live k ∨ s.timesDestroyed k = 1
  beyond : ∀ k, s.constructed ≤ k → s.timesDestroyed k = 0

theorem Ok.initial : Ok (initial : Storage T D) where
  lt := by
    rintro k ⟨slot, o, h, -⟩
    cases h
  inj := by
    intro i j o o' h
    cases h
  unfinished := by
    rintro k ⟨slot, o, h, -⟩
    cases h
  once := by
    intro k hk
    exact absurd hk (Nat.not_lt_zero k)
  beyond := by
    intro k _
    rfl

theorem Ok.construct (h : Ok s) (hslot : s.live slot = none) (value : T) :
    Ok (s.construct slot value) := by
  have hlive : ∀ k, (s.construct slot value).Live k → k = s.constructed ∨ s.Live k := by
    rintro k ⟨i, o, hi, rfl⟩
    rcases live_construct_cases hi with ⟨-, rfl⟩ | ⟨-, hold⟩
    · exact .inl rfl
    · exact .inr ⟨i, o, hold, rfl⟩
  refine ⟨?_, ?_, ?_, ?_, ?_⟩
  · intro k hk
    show k < s.constructed + 1
    rcases hlive k hk with rfl | hold
    · omega
    · exact Nat.lt_succ_of_lt (h.lt k hold)
  · intro i j o o' hi hj heq
    rcases live_construct_cases hi with ⟨hi', rfl⟩ | ⟨-, hi'⟩ <;>
      rcases live_construct_cases hj with ⟨hj', rfl⟩ | ⟨-, hj'⟩
    · exact hi'.trans hj'.symm
    · have hlt := h.lt _ ⟨j, o', hj', rfl⟩
      simp only at heq
      omega
    · have hlt := h.lt _ ⟨i, o, hi', rfl⟩
      simp only at heq
      omega
    · exact h.inj i j o o' hi' hj' heq
  · intro k hk
    rw [timesDestroyed_construct]
    rcases hlive k hk with rfl | hold
    · exact h.beyond _ (Nat.le_refl _)
    · exact h.unfinished k hold
  · intro k hk
    rw [timesDestroyed_construct]
    rcases Nat.lt_succ_iff_lt_or_eq.mp hk with hlt | rfl
    · refine (h.once k hlt).imp_left ?_
      rintro ⟨i, o, hi, hnumber⟩
      have hne : i ≠ slot := by
        rintro rfl
        rw [hslot] at hi
        cases hi
      exact ⟨i, o, (Function.update_of_ne hne _ _).trans hi, hnumber⟩
    · exact .inl ⟨slot, _, Function.update_self _ _ _, rfl⟩
  · intro k hk
    rw [timesDestroyed_construct]
    exact h.beyond k (Nat.le_of_succ_le hk)

theorem Ok.destroy (h : Ok s) {o : Object T} (hslot : s.live slot = some o) (cause : D) :
    Ok (s.destroy slot o cause) := by
  have hlive : ∀ k, (s.destroy slot o cause).Live k → s.Live k ∧ o.number ≠ k := by
    rintro k ⟨i, o', hi, rfl⟩
    obtain ⟨hne, hi⟩ := live_destroy_cases hi
    refine ⟨⟨i, o', hi, rfl⟩, fun heq => ?_⟩
    exact hne (h.inj i slot o' o hi hslot heq.symm)
  refine ⟨?_, ?_, ?_, ?_, ?_⟩
  · intro k hk
    exact h.lt k (hlive k hk).1
  · intro i j o₁ o₂ hi hj
    exact h.inj i j o₁ o₂ (live_destroy_cases hi).2 (live_destroy_cases hj).2
  · intro k hk
    rw [timesDestroyed_destroy, if_neg (hlive k hk).2]
    exact h.unfinished k (hlive k hk).1
  · intro k hk
    rw [timesDestroyed_destroy]
    by_cases heq : o.number = k
    · right
      rw [if_pos heq, h.unfinished k ⟨slot, o, hslot, heq⟩]
    · rw [if_neg heq]
      refine (h.once k hk).imp_left ?_
      rintro ⟨i, o', hi, hnumber⟩
      have hne : i ≠ slot := by
        rintro rfl
        rw [hslot, Option.some.injEq] at hi
        rw [hi] at heq
        exact heq hnumber
      exact ⟨i, o', (Function.update_of_ne hne _ _).trans hi, hnumber⟩
  · intro k hk
    have hlt := h.lt _ ⟨slot, o, hslot, rfl⟩
    have hle : s.constructed ≤ k := hk
    rw [timesDestroyed_destroy, if_neg (by omega)]
    exact h.beyond k hk

theorem ok_of_exec {actions : List (SlotAction T D)} (h : (machine T D).Exec actions s) :
    Ok s := by
  refine Machine.Exec.induction (M := machine T D) (P := fun _ s => Ok s) Ok.initial ?_ h
  intro _ s a s' _ ih hs
  rcases act_cases hs with ⟨slot, value, -, hslot, rfl⟩ | ⟨slot, cause, o, -, hslot, rfl⟩
  · exact ih.construct hslot value
  · exact ih.destroy hslot cause

/-- **Without live objects every one has been destroyed exactly once.** -/
theorem timesDestroyed_eq_one {actions : List (SlotAction T D)}
    (h : (machine T D).Exec actions s) (hempty : ∀ slot, s.live slot = none) :
    ∀ k < s.constructed, s.timesDestroyed k = 1 := by
  intro k hk
  refine ((ok_of_exec h).once k hk).resolve_left ?_
  rintro ⟨slot, o, hslot, -⟩
  rw [hempty slot] at hslot
  cases hslot

end Storage

end Lib
