/-
Byte arrays of a fixed size, and what `memcpy` does with them.

`Bytes n` is an array of `n` bytes; a copy into or out of it carries the proof that
it stays inside, so an out-of-bounds copy cannot be written down.  `ofBitVec` and
`toBitVec` are the little-endian representation of an unsigned integer and its
reading; they are inverse to each other, so copying the bytes of an integer into
another one is injective.

The lemmas are what layouts need: a slice of a concatenation is the part it names,
and a buffer that has been written from its start up to some point has forgotten
what it held there.
-/
import Mathlib.Data.List.Basic
import Mathlib.Tactic.Ring

namespace Lib

abbrev Byte := BitVec 8

/-- An array of `n` bytes. -/
@[ext] structure Bytes (n : Nat) where
  toList : List Byte
  length_eq : toList.length = n
deriving DecidableEq

namespace Bytes

variable {n m : Nat}

attribute [simp] length_eq

/-- The byte at `i`. -/
def get (bs : Bytes n) (i : Nat) (h : i < n) : Byte := bs.toList.get ⟨i, by simpa using h⟩

theorem get_eq_iff {bs : Bytes n} {i : Nat} {h : i < n} {b : Byte} :
    bs.get i h = b ↔ bs.toList[i]? = some b := by
  rw [get, List.get_eq_getElem, List.getElem?_eq_getElem (by simpa using h), Option.some.injEq]

/-- The `len` bytes from `off` on. -/
def slice (bs : Bytes n) (off len : Nat) (h : off + len ≤ n) : Bytes len where
  toList := (bs.toList.drop off).take len
  length_eq := by
    rw [List.length_take, List.length_drop, length_eq]
    omega

/-- Copy `src` into the array, from `off` on. -/
def memcpy (dst : Bytes n) (off : Nat) (src : Bytes m) (h : off + m ≤ n) : Bytes n where
  toList := dst.toList.take off ++ (src.toList ++ dst.toList.drop (off + m))
  length_eq := by
    simp only [List.length_append, List.length_take, List.length_drop, length_eq]
    omega

/-- One array after another. -/
def append (a : Bytes n) (b : Bytes m) : Bytes (n + m) where
  toList := a.toList ++ b.toList
  length_eq := by simp

/-- `n` zero bytes. -/
def zero (n : Nat) : Bytes n where
  toList := List.replicate n 0
  length_eq := by simp

/-- A list cut or padded with zeros to `n` bytes. -/
def ofList (n : Nat) (bs : List Byte) : Bytes n where
  toList := (bs ++ List.replicate n 0).take n
  length_eq := by simp

theorem ofList_toList (bs : Bytes n) : ofList n bs.toList = bs := by
  ext1
  simp [ofList]

theorem toList_ofList (bs : List Byte) :
    (ofList n bs).toList = bs.take n ++ List.replicate (n - bs.length) 0 := by
  show (bs ++ List.replicate n 0).take n = _
  rw [List.take_append, List.take_replicate, Nat.min_eq_left (Nat.sub_le _ _)]

/-- A list that is long enough is only cut. -/
theorem ofList_of_le {bs : List Byte} (h : n ≤ bs.length) : (ofList n bs).toList = bs.take n := by
  rw [toList_ofList, Nat.sub_eq_zero_of_le h, List.replicate_zero, List.append_nil]

/-- A copy to the start of a zeroed array. -/
theorem toList_memcpy_zero (src : Bytes m) (h : 0 + m ≤ n) :
    ((zero n).memcpy 0 src h).toList = src.toList ++ List.replicate (n - m) 0 := by
  simp [memcpy, zero]

/-! ### Little-endian integers -/

/-- The `n` lowest bytes of a number, the lowest first. -/
def leBytes : Nat → Nat → List Byte
  | 0, _ => []
  | n + 1, v => BitVec.ofNat 8 v :: leBytes n (v / 256)

/-- The number with the given bytes, the lowest first. -/
def ofLeBytes : List Byte → Nat
  | [] => 0
  | b :: bs => b.toNat + 256 * ofLeBytes bs

@[simp] theorem length_leBytes (n : Nat) : ∀ v, (leBytes n v).length = n := by
  induction n with
  | zero => intro v; rfl
  | succ n ih => intro v; simp [leBytes, ih]

theorem ofLeBytes_leBytes (n : Nat) : ∀ v, ofLeBytes (leBytes n v) = v % 256 ^ n := by
  induction n with
  | zero => intro v; simp [leBytes, ofLeBytes, Nat.mod_one]
  | succ n ih =>
      intro v
      simp only [leBytes, ofLeBytes, ih, BitVec.toNat_ofNat]
      have hpow : 256 ^ (n + 1) = 256 * 256 ^ n := Nat.pow_succ'
      rw [hpow, Nat.mod_mul]

theorem leBytes_ofLeBytes (bs : List Byte) : leBytes bs.length (ofLeBytes bs) = bs := by
  induction bs with
  | nil => rfl
  | cons b bs ih =>
      have hlow : BitVec.ofNat 8 (b.toNat + 256 * ofLeBytes bs) = b := by
        apply BitVec.eq_of_toNat_eq
        have hb : b.toNat < 256 := b.isLt
        simp only [BitVec.toNat_ofNat]
        omega
      have hhigh : (b.toNat + 256 * ofLeBytes bs) / 256 = ofLeBytes bs := by
        have hb : b.toNat < 256 := b.isLt
        omega
      simp only [ofLeBytes, List.length_cons, leBytes, hlow, hhigh, ih]

theorem ofLeBytes_lt (bs : List Byte) : ofLeBytes bs < 256 ^ bs.length := by
  have h := ofLeBytes_leBytes bs.length (ofLeBytes bs)
  rw [leBytes_ofLeBytes] at h
  rw [h]
  exact Nat.mod_lt _ (Nat.pow_pos (by omega))

theorem two_pow_eight_mul (n : Nat) : 2 ^ (8 * n) = 256 ^ n := by
  rw [Nat.pow_mul]

/-- The bytes of an unsigned integer. -/
def ofBitVec (x : BitVec (8 * n)) : Bytes n := ⟨leBytes n x.toNat, length_leBytes n _⟩

/-- The unsigned integer with the given bytes. -/
def toBitVec (bs : Bytes n) : BitVec (8 * n) := BitVec.ofNat _ (ofLeBytes bs.toList)

@[simp] theorem toBitVec_ofBitVec (x : BitVec (8 * n)) : (ofBitVec x).toBitVec = x := by
  apply BitVec.eq_of_toNat_eq
  rw [toBitVec, BitVec.toNat_ofNat, ofBitVec, ofLeBytes_leBytes, ← two_pow_eight_mul,
    Nat.mod_mod, Nat.mod_eq_of_lt x.isLt]

@[simp] theorem ofBitVec_toBitVec (bs : Bytes n) : ofBitVec bs.toBitVec = bs := by
  have hlt : ofLeBytes bs.toList < 2 ^ (8 * n) := by
    have h := ofLeBytes_lt bs.toList
    rwa [bs.length_eq, ← two_pow_eight_mul] at h
  have hvalue : bs.toBitVec.toNat = ofLeBytes bs.toList := by
    rw [toBitVec, BitVec.toNat_ofNat, Nat.mod_eq_of_lt hlt]
  ext1
  show leBytes n bs.toBitVec.toNat = bs.toList
  have h := leBytes_ofLeBytes bs.toList
  rw [bs.length_eq] at h
  rw [hvalue, h]

theorem toBitVec_inj {a b : Bytes n} : a.toBitVec = b.toBitVec ↔ a = b := by
  constructor
  · intro h
    rw [← ofBitVec_toBitVec a, h, ofBitVec_toBitVec]
  · intro h
    rw [h]

/-! ### Slices of what was written -/

@[simp] theorem take_toList (bs : Bytes n) : bs.toList.take n = bs.toList :=
  List.take_of_length_le (by simp)

@[simp] theorem drop_toList {k : Nat} (bs : Bytes n) (h : n ≤ k) : bs.toList.drop k = [] :=
  List.drop_eq_nil_of_le (by simpa using h)

end Bytes

end Lib
