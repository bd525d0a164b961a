/-
Sets kept by a sequence of insertions and erasures.

After any sequence of updates an element is in the set exactly if the last update
that named it was an insertion.  `lastFor` finds that update.  A set of keys that stand
for the elements, kept by the same updates, holds the keys of the elements of the set.
-/
import Mathlib.Data.Finset.Basic
import Mathlib.Data.List.Induction

namespace Lib

/-- Insert or erase one element. -/
structure Update (α : Type) where
  isInsert : Bool
  key : α
deriving DecidableEq, Repr

namespace Update

variable {α : Type} [DecidableEq α]

def apply (s : Finset α) (u : Update α) : Finset α :=
  if u.isInsert then insert u.key s else s.erase u.key

/-- The set after a sequence of updates. -/
def applyAll (us : List (Update α)) : Finset α := us.foldl apply ∅

theorem applyAll_snoc (us : List (Update α)) (u : Update α) :
    applyAll (us ++ [u]) = apply (applyAll us) u := by
  unfold applyAll
  rw [List.foldl_append]
  rfl

/-- What the last update that names `x` does. -/
def lastFor (x : α) (us : List (Update α)) : Option Bool :=
  ((us.filter fun u => u.key = x).getLast?).map Update.isInsert

@[simp] theorem lastFor_nil (x : α) : lastFor x ([] : List (Update α)) = none := rfl

theorem lastFor_snoc (x : α) (us : List (Update α)) (u : Update α) :
    lastFor x (us ++ [u]) = if u.key = x then some u.isInsert else lastFor x us := by
  unfold lastFor
  by_cases h : u.key = x
  · rw [List.filter_append, if_pos h]
    simp [h]
  · rw [List.filter_append, if_neg h]
    simp [h]

/-- What comes later decides, if it names `x` at all. -/
theorem lastFor_append (x : α) (us vs : List (Update α)) :
    lastFor x (us ++ vs) = (lastFor x vs).or (lastFor x us) := by
  unfold lastFor
  rw [List.filter_append, List.getLast?_append]
  cases (vs.filter fun u => u.key = x).getLast? <;> rfl

theorem lastFor_eq_none_iff (x : α) (us : List (Update α)) :
    lastFor x us = none ↔ ∀ u ∈ us, u.key ≠ x := by
  unfold lastFor
  rw [Option.map_eq_none_iff, List.getLast?_eq_none_iff, List.filter_eq_nil_iff]
  simp

/-- The last update for `x`, of updates that come from elsewhere. -/
theorem lastFor_of_map {γ : Type} (g : γ → Update α) (x : α) (cs : List γ) :
    lastFor x (cs.map g) =
      ((cs.filter fun c => (g c).key = x).getLast?).map fun c => (g c).isInsert := by
  unfold lastFor
  rw [List.filter_map, List.getLast?_map, Option.map_map]
  rfl

/-- **The last update decides.** -/
theorem mem_applyAll_iff (x : α) (us : List (Update α)) :
    x ∈ applyAll us ↔ lastFor x us = some true := by
  induction us using List.reverseRecOn with
  | nil => simp [applyAll]
  | append_singleton us u ih =>
      rw [applyAll_snoc, lastFor_snoc]
      unfold apply
      by_cases hx : u.key = x
      · rw [if_pos hx, ← hx]
        cases u.isInsert <;> simp
      · rw [if_neg hx, ← ih]
        cases u.isInsert <;> simp [Ne.symm hx]

/-- Where nothing is erased, the set is what has been inserted. -/
theorem mem_applyAll_of_inserts {us : List (Update α)} (h : ∀ u ∈ us, u.isInsert = true) (x : α) :
    x ∈ applyAll us ↔ ∃ u ∈ us, u.key = x := by
  induction us using List.reverseRecOn with
  | nil => simp [applyAll]
  | append_singleton us u ih =>
      have hus := ih fun v hv => h v (List.mem_append_left _ hv)
      have hu : u.isInsert = true := h u (by simp)
      rw [applyAll_snoc, apply, if_pos hu, Finset.mem_insert, hus]
      simp [or_comm, eq_comm]

/-! ### Other keys for the same elements -/

variable {β : Type} [DecidableEq β]

/-- The same update, with its element under another key. -/
def map (f : α → β) (u : Update α) : Update β := { isInsert := u.isInsert, key := f u.key }

theorem lastFor_map {f : α → β} (hf : Function.Injective f) (x : α) (us : List (Update α)) :
    lastFor (f x) (us.map (map f)) = lastFor x us := by
  have hkey : ∀ u : Update α, (map f u).key = f x ↔ u.key = x := fun u => hf.eq_iff
  rw [lastFor_of_map]
  simp only [hkey]
  rfl

/-- **Keys that tell all elements apart keep the same set.** -/
theorem mem_applyAll_map {f : α → β} (hf : Function.Injective f) (x : α)
    (us : List (Update α)) : f x ∈ applyAll (us.map (map f)) ↔ x ∈ applyAll us := by
  rw [mem_applyAll_iff, mem_applyAll_iff, lastFor_map hf]

end Update

end Lib
