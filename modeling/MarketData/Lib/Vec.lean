/-
Vectors that keep room for more.

A vector has storage for `capacity` elements, of which it uses some.  `reserve` asks for
room, and `pushBack` uses it up and allocates new storage only when there is none left.
How much an implementation allocates is up to it, as long as it is enough (`Growth`), so
what is proved here holds for any.
-/
import Mathlib.Data.List.Basic

namespace Lib

/-- How much room an implementation makes for `n` elements, when asked to reserve it and
when a push finds none. -/
structure Growth where
  reserved : Nat → Nat
  pushed : Nat → Nat
  le_reserved : ∀ n, n ≤ reserved n
  le_pushed : ∀ n, n ≤ pushed n

/-- What is asked for, and twice what there was. -/
def Growth.doubling : Growth where
  reserved n := n
  pushed n := max 1 (2 * (n - 1))
  le_reserved := Nat.le_refl
  le_pushed := by
    intro n
    omega

/-- The elements, the room for them, and how often storage was allocated. -/
structure Vec (α : Type) where
  elems : List α
  capacity : Nat
  allocations : Nat
  le : elems.length ≤ capacity

namespace Vec

variable {α : Type}

def empty : Vec α where
  elems := []
  capacity := 0
  allocations := 0
  le := Nat.le_refl 0

def reserve (G : Growth) (v : Vec α) (n : Nat) : Vec α :=
  if h : n ≤ v.capacity then v
  else
    { elems := v.elems
      capacity := G.reserved n
      allocations := v.allocations + 1
      le := by
        have hle := v.le
        have hroom := G.le_reserved n
        omega }

def pushBack (G : Growth) (v : Vec α) (x : α) : Vec α :=
  if h : v.elems.length < v.capacity then
    { v with
      elems := v.elems ++ [x]
      le := by rw [List.length_append]; exact h }
  else
    { elems := v.elems ++ [x]
      capacity := G.pushed (v.elems.length + 1)
      allocations := v.allocations + 1
      le := by rw [List.length_append]; exact G.le_pushed _ }

variable {G : Growth} {v : Vec α}

@[simp] theorem elems_reserve (n : Nat) : (v.reserve G n).elems = v.elems := by
  unfold reserve
  split <;> rfl

@[simp] theorem elems_pushBack (x : α) : (v.pushBack G x).elems = v.elems ++ [x] := by
  unfold pushBack
  split <;> rfl

theorem le_capacity_reserve (n : Nat) : n ≤ (v.reserve G n).capacity := by
  unfold reserve
  split
  · assumption
  · exact G.le_reserved n

/-- The vector has room for `n`, and has not allocated since it was `v₀`. -/
structure Keeps (n : Nat) (v₀ v : Vec α) : Prop where
  room : n ≤ v.capacity
  allocations : v.allocations = v₀.allocations

theorem Keeps.reserve (n : Nat) : Keeps n (v.reserve G n) (v.reserve G n) :=
  ⟨le_capacity_reserve n, rfl⟩

/-- A push that finds room leaves the storage as it is. -/
theorem Keeps.pushBack {n : Nat} {v₀ : Vec α} (h : Keeps n v₀ v) (hlt : v.elems.length < n)
    (x : α) : Keeps n v₀ (v.pushBack G x) := by
  unfold Vec.pushBack
  rw [dif_pos (Nat.lt_of_lt_of_le hlt h.room)]
  exact ⟨h.room, h.allocations⟩

end Vec

end Lib
