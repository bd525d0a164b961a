/-
Ring buffers with free-running counters that wrap.

Two counters of `W` bits count everything ever taken out (`r`) and put in; they
are never reset, they wrap modulo `2 ^ W`, and an element's slot is its counter
modulo the ring size.  This is sound only because the ring size is a power of two
below `2 ^ W`: then it divides `2 ^ W`, so wrapping does not disturb the slot, and
a fill level can be told from the wrapped difference.

`RingSize` carries that condition.  `Filled` says what the slots hold while
elements come and go, including the two windows in which a slot and a counter
disagree: an element built but not yet counted (`hi` one past the end) and an
element destroyed but not yet uncounted (`lo = 1`).
-/
import Mathlib.Data.Nat.ModEq
import Mathlib.Data.List.Basic
import Mathlib.Logic.Function.Basic

namespace Lib

/-- A ring size that counters of `W` bits can address: a power of two below `2 ^ W`. -/
structure RingSize (W : Nat) where
  val : Nat
  pow : ∃ k, k < W ∧ val = 2 ^ k

namespace RingSize

variable {W : Nat} (N : RingSize W)

theorem val_pos : 0 < N.val := by
  obtain ⟨k, -, hk⟩ := N.pow
  rw [hk]
  exact Nat.two_pow_pos k

theorem val_lt : N.val < 2 ^ W := by
  obtain ⟨k, hlt, hk⟩ := N.pow
  rw [hk]
  exact Nat.pow_lt_pow_right (by omega) hlt

theorem val_dvd : N.val ∣ 2 ^ W := by
  obtain ⟨k, hlt, hk⟩ := N.pow
  rw [hk]
  exact Nat.pow_dvd_pow 2 (Nat.le_of_lt hlt)

/-- The slot of the `i`-th element after the one counter `r` stands at. -/
def slot (r : BitVec W) (i : Nat) : Nat := (r.toNat + i) % N.val

/-- Wrapping the counter does not change the slot. -/
theorem toNat_add_mod (r : BitVec W) (i : Nat) :
    (r + BitVec.ofNat W i).toNat % N.val = N.slot r i := by
  rw [BitVec.toNat_add, BitVec.toNat_ofNat, Nat.mod_mod_of_dvd _ N.val_dvd]
  have hmod : i % 2 ^ W ≡ i [MOD N.val] := Nat.mod_mod_of_dvd i N.val_dvd
  exact Nat.ModEq.add_left r.toNat hmod

@[simp] theorem slot_zero (r : BitVec W) : N.slot r 0 = r.toNat % N.val := rfl

theorem slot_succ (r : BitVec W) (i : Nat) : N.slot (r + 1) i = N.slot r (i + 1) := by
  have h := N.toNat_add_mod r 1
  unfold slot at h ⊢
  rw [show r.toNat + (i + 1) = (r.toNat + 1) + i by omega]
  exact Nat.ModEq.add_right i h

theorem slot_inj {r : BitVec W} {i j : Nat} (hi : i < N.val) (hj : j < N.val)
    (h : N.slot r i = N.slot r j) : i = j := by
  have hmod : i ≡ j [MOD N.val] := Nat.ModEq.add_left_cancel' r.toNat h
  rw [Nat.ModEq, Nat.mod_eq_of_lt hi, Nat.mod_eq_of_lt hj] at hmod
  exact hmod

/-- Every slot is reached within one turn. -/
theorem exists_slot (r : BitVec W) {j : Nat} (hj : j < N.val) : ∃ i < N.val, N.slot r i = j := by
  have ha : r.toNat % N.val < N.val := Nat.mod_lt _ N.val_pos
  unfold slot
  by_cases hle : r.toNat % N.val ≤ j
  · refine ⟨j - r.toNat % N.val, by omega, ?_⟩
    rw [← Nat.mod_add_mod, Nat.add_sub_cancel' hle, Nat.mod_eq_of_lt hj]
  · refine ⟨j + N.val - r.toNat % N.val, by omega, ?_⟩
    rw [← Nat.mod_add_mod, Nat.add_sub_cancel' (by omega), Nat.add_mod_right, Nat.mod_eq_of_lt hj]

/-- One turn later the slot is the same. -/
theorem slot_val (r : BitVec W) : N.slot r N.val = N.slot r 0 := by
  simp [slot]

/-! ### Telling a fill level from the wrapped difference -/

theorem add_sub_self (r : BitVec W) (n : Nat) :
    r + BitVec.ofNat W n - r = BitVec.ofNat W n := by
  rw [BitVec.add_comm, BitVec.add_sub_cancel]

theorem toNat_ofNat {n : Nat} (hn : n ≤ N.val) : (BitVec.ofNat W n).toNat = n := by
  rw [BitVec.toNat_ofNat]
  exact Nat.mod_eq_of_lt (Nat.lt_of_le_of_lt hn N.val_lt)

theorem ofNat_inj {n k : Nat} (hn : n ≤ N.val) (hk : k ≤ N.val) :
    BitVec.ofNat W n = BitVec.ofNat W k ↔ n = k := by
  refine ⟨fun h => ?_, fun h => by rw [h]⟩
  have := congrArg BitVec.toNat h
  rwa [N.toNat_ofNat hn, N.toNat_ofNat hk] at this

/-- The wrapped difference is the full ring exactly at a full ring. -/
theorem sub_eq_val_iff {r : BitVec W} {n : Nat} (hn : n ≤ N.val) :
    r + BitVec.ofNat W n - r = BitVec.ofNat W N.val ↔ n = N.val := by
  rw [add_sub_self, N.ofNat_inj hn (Nat.le_refl _)]

/-- If the counters are in order as numbers, none of them has wrapped in between. -/
theorem toNat_add_of_le {r : BitVec W} {n : Nat} (hn : n ≤ N.val)
    (h : r ≤ r + BitVec.ofNat W n) : (r + BitVec.ofNat W n).toNat = r.toNat + n := by
  have hlt := N.val_lt
  have hr := r.isLt
  have hle : r.toNat ≤ (r + BitVec.ofNat W n).toNat := h
  rw [BitVec.toNat_add, N.toNat_ofNat hn] at hle ⊢
  by_cases hwrap : r.toNat + n < 2 ^ W
  · exact Nat.mod_eq_of_lt hwrap
  · rw [Nat.mod_eq_sub_mod (by omega), Nat.mod_eq_of_lt (by omega)] at hle
    omega

/-- The counters agree exactly at an empty ring. -/
theorem eq_add_iff {r : BitVec W} {n : Nat} (hn : n ≤ N.val) :
    r = r + BitVec.ofNat W n ↔ n = 0 := by
  rw [← N.ofNat_inj hn (Nat.zero_le _)]
  constructor
  · intro h
    have hsub := congrArg (· - r) h
    simp only [add_sub_self, BitVec.sub_self] at hsub
    exact hsub.symm
  · intro h
    rw [h]
    exact (BitVec.add_zero r).symm

end RingSize

/-- Below another counter a counter does not wrap. -/
theorem toNat_succ_of_lt {W : Nat} {r w : BitVec W} (h : r < w) :
    (r + 1).toNat = r.toNat + 1 := by
  have hlt : r.toNat < w.toNat := h
  have hw : w.toNat < 2 ^ W := w.isLt
  have hone : (1 : BitVec W).toNat = 1 := by
    show (BitVec.ofNat W 1).toNat = 1
    rw [BitVec.toNat_ofNat]
    exact Nat.mod_eq_of_lt (by omega)
  rw [BitVec.toNat_add, hone]
  exact Nat.mod_eq_of_lt (by omega)

/-! ### What the slots hold -/

variable {W : Nat} {T : Type} {N : RingSize W} {data : Nat → Option T} {r : BitVec W}
  {xs : List T} {lo hi : Nat}

/-- From the slot of counter `r` on, the elements `xs` are in place from the
`lo`-th on, and every slot from the `hi`-th on is free. -/
structure Filled (N : RingSize W) (data : Nat → Option T) (r : BitVec W) (xs : List T)
    (lo hi : Nat) : Prop where
  live : ∀ i x, lo ≤ i → xs[i]? = some x → data (N.slot r i) = some x
  free : ∀ i, hi ≤ i → i < N.val → data (N.slot r i) = none

namespace Filled

theorem empty (N : RingSize W) (r : BitVec W) : Filled N (fun _ => none) r ([] : List T) 0 0 :=
  ⟨by simp, fun _ _ _ => rfl⟩

/-- Building an element in the first free slot leaves the others alone. -/
theorem construct (h : Filled N data r xs lo xs.length) (hlt : xs.length < N.val) (x : T) :
    Filled N (Function.update data (N.slot r xs.length) (some x)) r xs lo (xs.length + 1) := by
  refine ⟨fun i y hlo hy => ?_, fun i hhi hi => ?_⟩
  · have hilt : i < xs.length := (List.getElem?_eq_some_iff.mp hy).1
    rw [Function.update_of_ne]
    · exact h.live i y hlo hy
    · intro hs
      have := N.slot_inj (Nat.lt_trans hilt hlt) hlt hs
      omega
  · rw [Function.update_of_ne]
    · exact h.free i (by omega) hi
    · intro hs
      have := N.slot_inj hi hlt hs
      omega

/-- Counting the element that was built. -/
theorem publish {x : T} (h : Filled N data r xs lo (xs.length + 1))
    (hx : data (N.slot r xs.length) = some x) :
    Filled N data r (xs ++ [x]) lo (xs ++ [x]).length := by
  refine ⟨fun i y hlo hy => ?_, fun i hhi hi => h.free i (by simpa using hhi) hi⟩
  rcases Nat.lt_trichotomy i xs.length with hlt | heq | hgt
  · rw [List.getElem?_append_left hlt] at hy
    exact h.live i y hlo hy
  · subst heq
    rw [List.getElem?_concat_length] at hy
    rw [hx]
    exact hy
  · rw [List.getElem?_eq_none (by simp; omega)] at hy
    exact absurd hy (by simp)

/-- Destroying the first element leaves the others alone. -/
theorem destroy {x : T} (h : Filled N data r (x :: xs) 0 hi) (hhi : 0 < hi)
    (hle : (x :: xs).length ≤ N.val) :
    Filled N (Function.update data (N.slot r 0) none) r (x :: xs) 1 hi := by
  refine ⟨fun i y hlo hy => ?_, fun i hi' hi => ?_⟩
  · have hilt : i < (x :: xs).length := (List.getElem?_eq_some_iff.mp hy).1
    rw [Function.update_of_ne]
    · exact h.live i y (Nat.zero_le _) hy
    · intro hs
      have := N.slot_inj (by omega) N.val_pos hs
      omega
  · rw [Function.update_of_ne]
    · exact h.free i hi' hi
    · intro hs
      have := N.slot_inj hi N.val_pos hs
      omega

/-- No longer counting the element that was destroyed. -/
theorem retire {x : T} (h : Filled N data r (x :: xs) 1 (hi + 1))
    (hnone : data (N.slot r 0) = none) : Filled N data (r + 1) xs 0 hi := by
  refine ⟨fun i y _ hy => ?_, fun i hhi hi => ?_⟩
  · rw [N.slot_succ]
    exact h.live (i + 1) y (by omega) (by simpa using hy)
  · rw [N.slot_succ]
    by_cases hlast : i + 1 < N.val
    · exact h.free (i + 1) (by omega) hlast
    · rw [show i + 1 = N.val by omega, N.slot_val]
      exact hnone

/-! ### Reading the elements back -/

private theorem filterMap_range {f : Nat → Option T} :
    ∀ {xs : List T}, (∀ i x, xs[i]? = some x → f i = some x) →
      (List.range xs.length).filterMap f = xs := by
  intro xs
  induction xs generalizing f with
  | nil => intro _; rfl
  | cons x rest ih =>
      intro h
      have hx : f 0 = some x := h 0 x rfl
      have hrest : (List.range rest.length).filterMap (f ∘ Nat.succ) = rest :=
        ih fun i y hy => h (i + 1) y (by simpa using hy)
      rw [List.length_cons, List.range_succ_eq_map, List.filterMap_cons, hx, List.filterMap_map,
        hrest]

theorem elements (h : Filled N data r xs 0 hi) :
    ((List.range xs.length).filterMap fun i => data (N.slot r i)) = xs :=
  filterMap_range fun i x hx => h.live i x (Nat.zero_le i) hx

theorem elements_destroyed {x : T} (h : Filled N data r (x :: xs) 1 hi)
    (hnone : data (N.slot r 0) = none) :
    ((List.range (x :: xs).length).filterMap fun i => data (N.slot r i)) = xs := by
  rw [List.length_cons, List.range_succ_eq_map, List.filterMap_cons, hnone, List.filterMap_map]
  exact filterMap_range fun i y hy => h.live (i + 1) y (by omega) (by simpa using hy)

end Filled

end Lib
