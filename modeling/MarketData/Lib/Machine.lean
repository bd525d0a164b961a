/-
Machines: a start state and a step function that an event drives.

A concurrent program is modelled as one machine whose events say which thread
moves and what the environment hands it.  Every choice sits in the event, so a
step is a function, a run is a list of events, and the states a run passes
through are the states its prefixes end in.  A "moment" of a run is therefore a
prefix of its event list, and a property of every interleaving is a property of
every event list that `run` accepts.

The file supplies what the rest of the development needs of runs: how they split,
the induction along them, invariants, the moment at which a predicate was first
entered, logs collected on the way, runs whose steps all satisfy a guard, and
forward simulations between two machines.
-/
import Mathlib.Data.List.Induction

namespace Lib

/-- A start state, and what each event does; `none` where the event cannot happen. -/
structure Machine (σ : Type) (ε : Type) where
  init : σ
  step : σ → ε → Option σ

namespace Machine

variable {σ ε β : Type} {M : Machine σ ε}

/-- Take the events of a list one after another. -/
def run (M : Machine σ ε) : σ → List ε → Option σ
  | s, [] => some s
  | s, e :: rest => (M.step s e).bind fun s' => run M s' rest

/-- The events `es` lead from the start to `s`. -/
def Exec (M : Machine σ ε) (es : List ε) (s : σ) : Prop := M.run M.init es = some s

@[simp] theorem run_nil (s : σ) : M.run s [] = some s := rfl

theorem run_cons (s : σ) (e : ε) (es : List ε) :
    M.run s (e :: es) = (M.step s e).bind fun s' => M.run s' es := rfl

theorem run_cons_some {s s' : σ} {e : ε} {es : List ε} :
    M.run s (e :: es) = some s' ↔ ∃ t, M.step s e = some t ∧ M.run t es = some s' := by
  rw [run_cons, Option.bind_eq_some_iff]

theorem run_append (es fs : List ε) :
    ∀ s : σ, M.run s (es ++ fs) = (M.run s es).bind fun s' => M.run s' fs := by
  induction es with
  | nil => intro s; rfl
  | cons e rest ih =>
      intro s
      rw [List.cons_append, run_cons, run_cons, Option.bind_assoc]
      exact congrArg _ (funext ih)

theorem run_append_some {s s' : σ} {es fs : List ε} :
    M.run s (es ++ fs) = some s' ↔ ∃ t, M.run s es = some t ∧ M.run t fs = some s' := by
  rw [run_append, Option.bind_eq_some_iff]

theorem run_singleton (s : σ) (e : ε) : M.run s [e] = M.step s e := by
  rw [run_cons]
  cases M.step s e <;> rfl

theorem run_snoc_some {s s' : σ} {es : List ε} {e : ε} :
    M.run s (es ++ [e]) = some s' ↔ ∃ t, M.run s es = some t ∧ M.step t e = some s' := by
  rw [run_append_some]
  simp only [run_singleton]

theorem Exec.nil : M.Exec [] M.init := rfl

theorem Exec.append {es fs : List ε} {s s' : σ} (h : M.Exec es s)
    (hs : M.run s fs = some s') : M.Exec (es ++ fs) s' :=
  run_append_some.mpr ⟨s, h, hs⟩

/-- A run passes through the state each of its prefixes ends in. -/
theorem Exec.split {es fs : List ε} {s : σ} (h : M.Exec (es ++ fs) s) :
    ∃ t, M.Exec es t ∧ M.run t fs = some s := run_append_some.mp h

/-- Two runs of one event list end in one state. -/
theorem Exec.unique {es : List ε} {s t : σ} (hs : M.Exec es s) (ht : M.Exec es t) : s = t :=
  Option.some.inj (hs.symm.trans ht)

/-- Where a run that is known to go through ends. -/
def final (M : Machine σ ε) (es : List ε) (h : (M.run M.init es).isSome = true) : σ :=
  (M.run M.init es).get h

theorem exec_final {es : List ε} (h : (M.run M.init es).isSome = true) :
    M.Exec es (M.final es h) := (Option.some_get h).symm

/-- **Induction along a run**, the last step first. -/
theorem Exec.induction {P : List ε → σ → Prop} (hinit : P [] M.init)
    (hstep : ∀ es s e s', M.Exec es s → P es s → M.step s e = some s' → P (es ++ [e]) s') :
    ∀ {es : List ε} {s : σ}, M.Exec es s → P es s := by
  intro es
  induction es using List.reverseRecOn with
  | nil =>
      intro s h
      rw [← h.unique Exec.nil] at hinit
      exact hinit
  | append_singleton es e ih =>
      intro s h
      obtain ⟨t, ht, hs⟩ := run_snoc_some.mp h
      exact hstep es t e s ht (ih ht) hs

/-! ### The moment a predicate was entered

A call that returned a certain answer must have decided on it at some step.  If
`Q` fails where a stretch of a run starts and holds where it ends, then some
prefix of the stretch ends in a state where `Q` has just been entered, and `P`
records what is known there.
-/

theorem Exec.exists_moment {Q P : σ → Prop} {pre : List ε} {s₀ : σ} (h₀ : M.Exec pre s₀)
    (hstart : ¬ Q s₀)
    (henter : ∀ es t e t', M.Exec es t → M.step t e = some t' → Q t' → Q t ∨ P t') :
    ∀ {mid : List ε} {s : σ}, M.run s₀ mid = some s → Q s →
      ∃ fs gs t, mid = fs ++ gs ∧ M.Exec (pre ++ fs) t ∧ P t := by
  intro mid
  induction mid using List.reverseRecOn with
  | nil =>
      intro s h hq
      rw [Option.some.inj h] at hstart
      exact absurd hq hstart
  | append_singleton mid e ih =>
      intro s h hq
      obtain ⟨t, ht, hs⟩ := run_snoc_some.mp h
      rcases henter _ t e s (h₀.append ht) hs hq with hqt | hp
      · obtain ⟨fs, gs, u, hsplit, hu, hpu⟩ := ih ht hqt
        exact ⟨fs, gs ++ [e], u, by rw [hsplit, List.append_assoc], hu, hpu⟩
      · exact ⟨mid ++ [e], [], s, by simp, h₀.append h, hp⟩

/-! ### Logs

What an observer writes down along a run, looking at the state before each step
and at the event.
-/

/-- Everything `f` sees along a run, in order. -/
def collect (M : Machine σ ε) (f : σ → ε → Option β) : σ → List ε → List β
  | _, [] => []
  | s, e :: rest =>
      match M.step s e with
      | none => []
      | some s' => (f s e).toList ++ collect M f s' rest

theorem collect_singleton (f : σ → ε → Option β) {s s' : σ} {e : ε} (hs : M.step s e = some s') :
    M.collect f s [e] = (f s e).toList := by
  simp [collect, hs]

theorem collect_append (f : σ → ε → Option β) (fs : List ε) :
    ∀ {es : List ε} {s t : σ}, M.run s es = some t →
      M.collect f s (es ++ fs) = M.collect f s es ++ M.collect f t fs := by
  intro es
  induction es with
  | nil => intro s t h; rw [Option.some.inj h]; rfl
  | cons e rest ih =>
      intro s t h
      obtain ⟨u, hu, ht⟩ := run_cons_some.mp h
      simp only [List.cons_append, collect, hu]
      rw [ih ht, List.append_assoc]

theorem collect_snoc (f : σ → ε → Option β) {es : List ε} {e : ε} {s t t' : σ}
    (h : M.run s es = some t) (hs : M.step t e = some t') :
    M.collect f s (es ++ [e]) = M.collect f s es ++ (f t e).toList := by
  rw [collect_append f [e] h]
  simp [collect, hs]

/-- The log of a whole run. -/
def log (M : Machine σ ε) (f : σ → ε → Option β) (es : List ε) : List β :=
  M.collect f M.init es

@[simp] theorem log_nil (f : σ → ε → Option β) : M.log f [] = [] := rfl

theorem log_snoc (f : σ → ε → Option β) {es : List ε} {e : ε} {s s' : σ}
    (h : M.Exec es s) (hs : M.step s e = some s') :
    M.log f (es ++ [e]) = M.log f es ++ (f s e).toList := collect_snoc f h hs

theorem log_append (f : σ → ε → Option β) {es fs : List ε} {s : σ} (h : M.Exec es s) :
    M.log f (es ++ fs) = M.log f es ++ M.collect f s fs := collect_append f fs h

/-- An observer that looks at the events alone. -/
theorem log_eq_filterMap {f : σ → ε → Option β} {g : ε → Option β} (hf : ∀ s e, f s e = g e)
    {es : List ε} {s : σ} (h : M.Exec es s) : M.log f es = es.filterMap g := by
  refine Exec.induction (P := fun es _ => M.log f es = es.filterMap g) rfl ?_ h
  intro es s e s' hex ih hs
  rw [log_snoc f hex hs, ih, hf, List.filterMap_append]
  cases hg : g e <;> simp [hg]

/-! ### Runs whose steps all meet a condition -/

/-- Every step of the run is taken in a state that meets `G` for its event. -/
def Along (M : Machine σ ε) (G : σ → ε → Prop) (es : List ε) : Prop :=
  ∀ fs e gs s, es = fs ++ e :: gs → M.Exec fs s → G s e

theorem along_true (es : List ε) : M.Along (fun _ _ => True) es :=
  fun _ _ _ _ _ _ => trivial

/-- A condition on the events alone. -/
theorem along_of_forall {P : ε → Prop} {es : List ε} (h : ∀ e ∈ es, P e) :
    M.Along (fun _ e => P e) es := by
  intro fs e gs s hes _
  exact h e (by rw [hes]; simp)

theorem Along.left {G : σ → ε → Prop} {es fs : List ε} (h : M.Along G (es ++ fs)) :
    M.Along G es := by
  intro gs e hs s hes
  exact h gs e (hs ++ fs) s (by rw [hes]; simp)

theorem Along.init {G : σ → ε → Prop} {es : List ε} {e : ε} (h : M.Along G (es ++ [e])) :
    M.Along G es := h.left

theorem Along.last {G : σ → ε → Prop} {es : List ε} {e : ε} {s : σ}
    (h : M.Along G (es ++ [e])) (hs : M.Exec es s) : G s e := h es e [] s rfl hs

theorem Along.snoc {G : σ → ε → Prop} {es : List ε} {e : ε} {s : σ} (h : M.Along G es)
    (hs : M.Exec es s) (hG : G s e) : M.Along G (es ++ [e]) := by
  intro fs e' gs t hes ht
  rcases List.eq_nil_or_concat gs with rfl | ⟨gs, e'', rfl⟩
  · obtain ⟨rfl, heq⟩ := List.append_inj' hes rfl
    obtain rfl := (List.cons.inj heq).1
    rw [ht.unique hs]
    exact hG
  · refine h fs e' gs t ?_ ht
    rw [List.concat_eq_append, ← List.cons_append, ← List.append_assoc] at hes
    exact (List.append_inj' hes rfl).1

/-- An invariant that needs the condition at each step. -/
theorem Exec.invariant_along {G : σ → ε → Prop} {I : σ → Prop} (hinit : I M.init)
    (hstep : ∀ s e s', I s → G s e → M.step s e = some s' → I s') {es : List ε} {s : σ}
    (h : M.Exec es s) (hG : M.Along G es) : I s := by
  have key : M.Along G es → I s := by
    refine Exec.induction (P := fun es s => M.Along G es → I s) (fun _ => hinit) ?_ h
    intro es s e s' hex ih hs hal
    exact hstep s e s' (ih hal.init) (hal.last hex) hs
  exact key hG

/-- `Along`, computed from a state on. -/
def alongFrom (M : Machine σ ε) (G : σ → ε → Prop) [∀ s e, Decidable (G s e)] :
    σ → List ε → Bool
  | _, [] => true
  | s, e :: rest => decide (G s e) && (M.step s e).all fun s' => alongFrom M G s' rest

theorem holds_of_alongFrom {G : σ → ε → Prop} [∀ s e, Decidable (G s e)] {e : ε} {gs : List ε}
    {t : σ} : ∀ {fs : List ε} {s : σ}, M.alongFrom G s (fs ++ e :: gs) = true →
      M.run s fs = some t → G t e := by
  intro fs
  induction fs with
  | nil =>
      intro s h ht
      rw [← Option.some.inj ht]
      simp only [List.nil_append, alongFrom, Bool.and_eq_true, decide_eq_true_eq] at h
      exact h.1
  | cons e' fs ih =>
      intro s h ht
      obtain ⟨u, hu, htu⟩ := run_cons_some.mp ht
      simp only [List.cons_append, alongFrom, hu, Option.all_some, Bool.and_eq_true] at h
      exact ih h.2 htu

/-- For a fixed run the condition can be checked by evaluation. -/
theorem along_of_alongFrom {G : σ → ε → Prop} [∀ s e, Decidable (G s e)] {es : List ε}
    (h : M.alongFrom G M.init es = true) : M.Along G es := by
  intro fs e gs s hes hs
  rw [hes] at h
  exact holds_of_alongFrom h hs

/-! ### Simulation

`B` can follow `A` while showing the same observable events: each step of `A` is
answered by some steps of `B` that show what the step showed, and the relation is
kept.  Then every run of `A` has a run of `B` with the same observations.
-/

/-- A forward simulation of `A` by `B` along `R`, for steps of `A` that meet `G`. -/
structure Simulation {τ δ ο : Type} (A : Machine σ ε) (B : Machine τ δ)
    (obsA : σ → ε → Option ο) (obsB : τ → δ → Option ο) (G : σ → ε → Prop) (R : σ → τ → Prop) :
    Prop where
  init : R A.init B.init
  step : ∀ s t e s', R s t → G s e → A.step s e = some s' →
    ∃ ds t', B.run t ds = some t' ∧ B.collect obsB t ds = (obsA s e).toList ∧ R s' t'

/-- **A simulation carries runs over, with their observations.** -/
theorem Simulation.exec {τ δ ο : Type} {A : Machine σ ε} {B : Machine τ δ}
    {obsA : σ → ε → Option ο} {obsB : τ → δ → Option ο} {G : σ → ε → Prop} {R : σ → τ → Prop}
    (sim : Simulation A B obsA obsB G R) {es : List ε} {s : σ} (h : A.Exec es s)
    (hG : A.Along G es) :
    ∃ ds t, B.Exec ds t ∧ B.log obsB ds = A.log obsA es ∧ R s t := by
  have key : A.Along G es → ∃ ds t, B.Exec ds t ∧ B.log obsB ds = A.log obsA es ∧ R s t := by
    refine Exec.induction (P := fun es s => A.Along G es →
      ∃ ds t, B.Exec ds t ∧ B.log obsB ds = A.log obsA es ∧ R s t)
      (fun _ => ⟨[], B.init, Exec.nil, rfl, sim.init⟩) ?_ h
    intro es s e s' hA ih hs hal
    obtain ⟨ds, t, hB, hobs, hR⟩ := ih hal.init
    obtain ⟨ds', t', hrun, hobs', hR'⟩ := sim.step s t e s' hR (hal.last hA) hs
    refine ⟨ds ++ ds', t', hB.append hrun, ?_, hR'⟩
    rw [log_append obsB hB, log_snoc obsA hA hs, hobs, hobs']
  exact key hG

end Machine

end Lib
