/-
What a log says about the order of things.

A step adds one entry to the log, or none.  For each of the notions here there is one
lemma that says what this does to it, which is the form an induction along a run wants.
-/
import Mathlib.Data.List.Basic

namespace Lib

variable {β : Type}

/-- How a log with one more entry can be split at an entry: there, or before. -/
theorem snoc_eq_append_cons {l A B : List β} {x y : β} (h : l ++ [y] = A ++ x :: B) :
    (l = A ∧ y = x ∧ B = []) ∨ ∃ C, B = C ++ [y] ∧ l = A ++ x :: C := by
  rcases List.eq_nil_or_concat B with rfl | ⟨C, z, rfl⟩
  · obtain ⟨hl, hy⟩ := List.append_inj' h rfl
    exact .inl ⟨hl, List.singleton_inj.mp hy, rfl⟩
  · rw [List.concat_eq_append, ← List.cons_append, ← List.append_assoc] at h
    obtain ⟨hl, hy⟩ := List.append_inj' h rfl
    exact .inr ⟨C, by rw [List.concat_eq_append, List.singleton_inj.mp hy], hl⟩

theorem getElem?_snoc {xs : List β} {i : Nat} {x : β} (y : β) (h : xs[i]? = some x) :
    (xs ++ [y])[i]? = some x := by
  obtain ⟨hlt, -⟩ := List.getElem?_eq_some_iff.mp h
  rw [List.getElem?_append_left hlt]
  exact h

theorem of_getElem?_snoc {xs : List β} {i : Nat} {x y : β} (h : (xs ++ [y])[i]? = some x) :
    xs[i]? = some x ∨ (i = xs.length ∧ y = x) := by
  obtain ⟨hlt, -⟩ := List.getElem?_eq_some_iff.mp h
  rw [List.length_append, List.length_singleton] at hlt
  by_cases hi : i < xs.length
  · rw [List.getElem?_append_left hi] at h
    exact .inl h
  · have hlast : i = xs.length := by omega
    rw [hlast, List.getElem?_concat_length] at h
    exact .inr ⟨hlast, Option.some.inj h⟩

/-! ### One entry after another -/

/-- Somewhere in the log there is an `a`, and later a `b`. -/
def Follows (l : List β) (a b : β) : Prop := [a, b].Sublist l

theorem follows_snoc {l : List β} {a b x : β} :
    Follows (l ++ [x]) a b ↔ Follows l a b ∨ (a ∈ l ∧ x = b) := by
  constructor
  · intro h
    obtain ⟨l₁, l₂, heq, h₁, h₂⟩ := List.sublist_append_iff.mp h
    rcases List.sublist_singleton.mp h₂ with rfl | rfl
    · rw [List.append_nil] at heq
      rw [← heq] at h₁
      exact .inl h₁
    · have hsplit : [a] ++ [b] = l₁ ++ [x] := heq
      obtain ⟨ha, hb⟩ := List.append_inj' hsplit rfl
      rw [← ha] at h₁
      exact .inr ⟨List.singleton_sublist.mp h₁, (List.singleton_inj.mp hb).symm⟩
  · rintro (h | ⟨ha, rfl⟩)
    · exact h.trans (List.sublist_append_left _ _)
    · exact (List.singleton_sublist.mpr ha).append (List.Sublist.refl [x])

theorem follows_append {l : List β} {a b : β} {o : Option β} :
    Follows (l ++ o.toList) a b ↔ Follows l a b ∨ (a ∈ l ∧ o = some b) := by
  cases o with
  | none => simp
  | some x => rw [Option.toList_some, follows_snoc, Option.some.injEq]

theorem Follows.append {l : List β} {a b : β} (h : Follows l a b) (o : Option β) :
    Follows (l ++ o.toList) a b := follows_append.mpr (.inl h)

theorem Follows.mem {l : List β} {a b : β} (h : Follows l a b) : a ∈ l :=
  h.subset List.mem_cons_self

/-! ### Every entry after those before it -/

/-- One entry at a time. -/
theorem forall_split_snoc {P : List β → β → Prop} {l : List β} {y : β} :
    (∀ A x B, l ++ [y] = A ++ x :: B → P A x) ↔
      (∀ A x B, l = A ++ x :: B → P A x) ∧ P l y := by
  constructor
  · intro h
    refine ⟨?_, h l y [] rfl⟩
    intro A x B hl
    exact h A x (B ++ [y]) (by rw [hl]; simp)
  · rintro ⟨hinit, hlast⟩ A x B hs
    rcases snoc_eq_append_cons hs with ⟨rfl, rfl, -⟩ | ⟨C, -, hl⟩
    · exact hlast
    · exact hinit A x C hl

/-- Each entry of the log is one that `P` allows after the entries before it. -/
def EachAfter (P : List β → β → Prop) (l : List β) : Prop :=
  ∀ A x B, l = A ++ x :: B → P A x

theorem EachAfter.nil {P : List β → β → Prop} : EachAfter P [] := by
  intro A x B h
  simp at h

theorem EachAfter.append {P : List β → β → Prop} {l : List β} {o : Option β}
    (h : EachAfter P l) (ho : ∀ y, o = some y → P l y) : EachAfter P (l ++ o.toList) := by
  cases o with
  | none =>
      rw [Option.toList_none, List.append_nil]
      exact h
  | some y => exact forall_split_snoc.mpr ⟨h, ho y rfl⟩

/-! ### Nothing of a kind since -/

/-- The log has an `a` with nothing after it that meets `P`. -/
def NoneSince (l : List β) (a : β) (P : β → Prop) : Prop :=
  ∃ A B, l = A ++ a :: B ∧ ∀ b ∈ B, ¬ P b

theorem not_noneSince_nil {a : β} {P : β → Prop} : ¬ NoneSince [] a P := by
  rintro ⟨A, B, h, -⟩
  simp at h

theorem NoneSince.of_append {l : List β} {a : β} {P : β → Prop} {o : Option β}
    (h : NoneSince (l ++ o.toList) a P) :
    o = some a ∨ (NoneSince l a P ∧ ∀ x, o = some x → ¬ P x) := by
  cases o with
  | none =>
      rw [Option.toList_none, List.append_nil] at h
      exact .inr ⟨h, by intro x hx; cases hx⟩
  | some x =>
      obtain ⟨A, B, hs, hB⟩ := h
      rcases snoc_eq_append_cons hs with ⟨-, rfl, -⟩ | ⟨C, rfl, hl⟩
      · exact .inl rfl
      · refine .inr ⟨⟨A, C, hl, fun b hb => hB b (List.mem_append_left _ hb)⟩, ?_⟩
        intro y hy
        rw [← Option.some.inj hy]
        exact hB x (by simp)

end Lib
