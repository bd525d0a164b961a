/-
How much work a party of a machine has left.

A thread gets to the end of what it is doing, whatever the other threads do, if two
things hold.  There is a number that each of its steps lowers and that no step of
another raises; and as long as the number is not zero, the thread can take a step.
`Progress` is that number with the invariant it needs, for runs whose events are all
allowed.

Nothing is assumed about the order in which the threads run.  A run in which the
thread takes as many steps as the number says has brought it to zero (`Progress.run`).

Others may add to the work, when an observer can tell how much: then the steps of the
thread are bounded by what there was and what was added (`budget_run`).  And what can
still be seen of a run is bounded by a number that each sight of it lowers
(`collect_length_le`).
-/
import MarketData.Lib.Machine

namespace Lib

namespace Machine

variable {σ ε : Type}

/-- The party with the events `mine` works its `rank` down to zero, in every run whose
events are all `allowed`. -/
structure Progress (M : Machine σ ε) (allowed : ε → Prop) (mine : ε → Bool) (I : σ → Prop)
    (rank : σ → Nat) : Prop where
  step : ∀ {s e s'}, I s → allowed e → M.step s e = some s' →
    I s' ∧ rank s' ≤ rank s - (mine e).toNat
  enabled : ∀ {s}, I s → 0 < rank s → ∃ e, mine e = true ∧ allowed e ∧ (M.step s e).isSome = true

namespace Progress

variable {M : Machine σ ε} {allowed : ε → Prop} {mine : ε → Bool} {I : σ → Prop} {rank : σ → Nat}

/-- **Every step of the party counts**, however the others' steps fall between them. -/
theorem run (h : Progress M allowed mine I rank) :
    ∀ {es : List ε} {s s' : σ}, I s → (∀ e ∈ es, allowed e) → M.run s es = some s' →
      I s' ∧ rank s' ≤ rank s - es.countP mine := by
  intro es
  induction es with
  | nil =>
      intro s s' hI _ hrun
      rw [← Option.some.inj hrun]
      exact ⟨hI, Nat.le_refl _⟩
  | cons e es ih =>
      intro s s' hI hall hrun
      obtain ⟨t, ht, hrest⟩ := run_cons_some.mp hrun
      obtain ⟨hIt, hle⟩ := h.step hI (hall e (by simp)) ht
      obtain ⟨hI', hle'⟩ := ih hIt (fun e' he' => hall e' (by simp [he'])) hrest
      refine ⟨hI', ?_⟩
      rw [List.countP_cons]
      cases hmine : mine e with
      | true =>
          rw [hmine, Bool.toNat_true] at hle
          rw [if_pos rfl]
          omega
      | false =>
          rw [hmine, Bool.toNat_false] at hle
          rw [if_neg (by simp)]
          omega

end Progress

/-! ### Budgets -/

variable {M : Machine σ ε} {β : Type} {allowed : ε → Prop} {I : σ → Prop}

/-- A budget that every step of the party spends and that is raised by `k` whenever the
observer sees something. -/
theorem budget_run {mine : ε → Bool} {rank : σ → Nat} {f : σ → ε → Option β} {k : Nat}
    (hstep : ∀ {s s' e}, I s → allowed e → M.step s e = some s' →
      I s' ∧ rank s' + (mine e).toNat ≤ rank s + k * (f s e).toList.length) :
    ∀ {es : List ε} {s s' : σ}, I s → (∀ e ∈ es, allowed e) → M.run s es = some s' →
      I s' ∧ rank s' + es.countP mine ≤ rank s + k * (M.collect f s es).length := by
  intro es
  induction es with
  | nil =>
      intro s s' hI _ hrun
      rw [← Option.some.inj hrun]
      exact ⟨hI, Nat.le_refl _⟩
  | cons e es ih =>
      intro s s' hI hall hrun
      obtain ⟨t, ht, hrest⟩ := run_cons_some.mp hrun
      obtain ⟨hIt, hle⟩ := hstep hI (hall e (by simp)) ht
      obtain ⟨hI', hle'⟩ := ih hIt (fun e' he' => hall e' (by simp [he'])) hrest
      have hcount : (e :: es).countP mine = es.countP mine + (mine e).toNat := by
        rw [List.countP_cons]
        cases mine e <;> rfl
      refine ⟨hI', ?_⟩
      rw [hcount]
      simp only [collect, ht, List.length_append, Nat.mul_add]
      omega

/-- What an observer can still see is bounded by a number that goes down with each
thing it sees. -/
theorem collect_length_le {rank : σ → Nat} {f : σ → ε → Option β}
    (hstep : ∀ {s s' e}, I s → allowed e → M.step s e = some s' →
      I s' ∧ (f s e).toList.length + rank s' ≤ rank s) :
    ∀ {es : List ε} {s s' : σ}, I s → (∀ e ∈ es, allowed e) → M.run s es = some s' →
      (M.collect f s es).length ≤ rank s := by
  intro es
  induction es with
  | nil =>
      intro s s' _ _ _
      exact Nat.zero_le _
  | cons e es ih =>
      intro s s' hI hall hrun
      obtain ⟨t, ht, hrest⟩ := run_cons_some.mp hrun
      obtain ⟨hIt, hle⟩ := hstep hI (hall e (by simp)) ht
      have hih := ih hIt (fun e' he' => hall e' (by simp [he'])) hrest
      simp only [collect, ht, List.length_append]
      omega

end Machine

end Lib
