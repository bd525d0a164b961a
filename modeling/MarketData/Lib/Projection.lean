/-
The run of a part, read off a run of the whole.

A machine made of several parts moves one part at a time.  Its runs project to runs of a
part: keep the events that belong to the part, and of each state the part's own.  An
observer of the whole that looks at the part only logs what the part's own observer logs.
-/
import MarketData.Lib.Machine

namespace Lib.Machine

variable {σ ε τ δ β : Type}

/-- `A` is the part of `M` that `proj` reads, and `ev` tells which events are its own. -/
structure Projection (M : Machine σ ε) (A : Machine τ δ) (proj : σ → τ) (ev : ε → Option δ) :
    Prop where
  init : proj M.init = A.init
  own : ∀ s e d s', M.step s e = some s' → ev e = some d → A.step (proj s) d = some (proj s')
  other : ∀ s e s', M.step s e = some s' → ev e = none → proj s' = proj s

variable {M : Machine σ ε} {A : Machine τ δ} {proj : σ → τ} {ev : ε → Option δ}

theorem filterMap_snoc (es : List ε) (e : ε) :
    (es ++ [e]).filterMap ev = es.filterMap ev ++ (ev e).toList := by
  rw [List.filterMap_append]
  cases h : ev e <;> simp [h]

/-- **A run of the whole is a run of the part**, from any state on. -/
theorem Projection.run (P : Projection M A proj ev) :
    ∀ {es : List ε} {s s' : σ}, M.run s es = some s' →
      A.run (proj s) (es.filterMap ev) = some (proj s') := by
  intro es
  induction es with
  | nil =>
      intro s s' h
      rw [Option.some.inj h]
      rfl
  | cons e es ih =>
      intro s s' h
      obtain ⟨t, ht, hrest⟩ := run_cons_some.mp h
      cases he : ev e with
      | none =>
          rw [List.filterMap_cons_none he, ← P.other s e t ht he]
          exact ih hrest
      | some d =>
          rw [List.filterMap_cons_some he]
          exact run_cons_some.mpr ⟨proj t, P.own s e d t ht he, ih hrest⟩

theorem Projection.exec (P : Projection M A proj ev) {es : List ε} {s : σ} (h : M.Exec es s) :
    A.Exec (es.filterMap ev) (proj s) := by
  have hrun := P.run h
  rw [P.init] at hrun
  exact hrun

/-- An observer that looks at the part's own steps only. -/
theorem Projection.log_eq (P : Projection M A proj ev) {f : σ → ε → Option β}
    {g : τ → δ → Option β} (hf : ∀ s e, f s e = (ev e).bind (g (proj s))) {es : List ε} {s : σ}
    (h : M.Exec es s) : M.log f es = A.log g (es.filterMap ev) := by
  refine Exec.induction (P := fun es _ => M.log f es = A.log g (es.filterMap ev)) rfl ?_ h
  intro es s e s' hex ih hs
  rw [log_snoc f hex hs, filterMap_snoc, ih, hf]
  cases he : ev e with
  | none => simp
  | some d =>
      rw [Option.toList_some, log_snoc g (P.exec hex) (P.own s e d s' hs he)]
      rfl

/-- What is logged can be transformed step by step. -/
theorem log_map {γ : Type} (f : σ → ε → Option β) (k : β → γ) (es : List ε) :
    M.log (fun s e => (f s e).map k) es = (M.log f es).map k := by
  have key : ∀ s, M.collect (fun s e => (f s e).map k) s es = (M.collect f s es).map k := by
    induction es with
    | nil => intro s; rfl
    | cons e rest ih =>
        intro s
        simp only [collect]
        cases M.step s e with
        | none => rfl
        | some s' =>
            simp only [ih, List.map_append]
            cases f s e <;> rfl
  exact key M.init

end Lib.Machine
