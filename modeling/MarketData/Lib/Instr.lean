/-
Shared-memory code: atomic instructions and three memory models for them.

A thread is a program counter together with the instruction it executes next.
The instruction names the shared variable and the memory order, and says where
the thread goes on; it does not say what a load returns or when a store becomes
visible.  That is the memory model's part, and three are given here for the same
code:

* `sc`, where every access takes effect at once;
* `tso`, where each thread has a FIFO buffer of its own stores.  A load reads the
  thread's own buffered stores first, a store that is not sequentially consistent
  only enters the buffer, and `flush` moves the oldest entry to memory at any
  time.  A sequentially consistent store waits until the buffer is empty;
* `stale`, where an atomic load returns any value the variable has held, as long as it
  is not older than what the thread has loaded or stored there before.

`lib` is an atomic operation of a library object that guards itself with its own
lock.  It touches no shared variable and no buffer.
-/
import Mathlib.Logic.Function.Basic

namespace Lib

/-- The memory orders of the accesses; `nonatomic` is a plain read or write. -/
inductive MemoryOrder
  | nonatomic
  | relaxed
  | acquire
  | release
  | seqCst
deriving DecidableEq, Repr

/-- The next instruction of a thread, over variables `Loc` whose values have type
`V`, a library object `X` and program counters `P`. -/
inductive Instr (Loc : Type) (V : Loc → Type) (X P : Type)
  | load (l : Loc) (mo : MemoryOrder) (k : V l → P)
  | store (l : Loc) (v : V l) (mo : MemoryOrder) (k : P)
  | lib (f : X → X × P)
  | notify (k : P)
  /-- The thread does not move by itself: it has returned, or it is blocked. -/
  | halt

namespace Instr

variable {Loc : Type} {V : Loc → Type} {X P Q : Type}

/-- The same instruction inside a caller whose program counters wrap `P`. -/
def map (g : P → Q) : Instr Loc V X P → Instr Loc V X Q
  | load l mo k => load l mo fun v => g (k v)
  | store l v mo k => store l v mo (g k)
  | lib f => lib fun x => ((f x).1, g (f x).2)
  | notify k => notify (g k)
  | halt => halt

/-- A step that only moves the program counter. -/
def goto (k : P) : Instr Loc V X P := lib fun x => (x, k)

/-! ### Sequential consistency -/

/-- What one instruction leaves behind; `woken` records a notify. -/
structure Next (Loc : Type) (V : Loc → Type) (X P : Type) where
  mem : (l : Loc) → V l
  obj : X
  pc : P
  woken : Bool := false

variable [DecidableEq Loc]

/-- Execute an instruction with every access taking effect at once. -/
def sc (m : (l : Loc) → V l) (x : X) : Instr Loc V X P → Option (Next Loc V X P)
  | load l _ k => some { mem := m, obj := x, pc := k (m l) }
  | store l v _ k => some { mem := Function.update m l v, obj := x, pc := k }
  | lib f => some { mem := m, obj := (f x).1, pc := (f x).2 }
  | notify k => some { mem := m, obj := x, pc := k, woken := true }
  | halt => none

variable {m : (l : Loc) → V l} {x : X}

@[simp] theorem sc_load (l : Loc) (mo : MemoryOrder) (k : V l → P) :
    sc m x (load l mo k) = some { mem := m, obj := x, pc := k (m l) } := rfl

@[simp] theorem sc_store (l : Loc) (v : V l) (mo : MemoryOrder) (k : P) :
    sc m x (store l v mo k) = some { mem := Function.update m l v, obj := x, pc := k } := rfl

@[simp] theorem sc_lib (f : X → X × P) :
    sc m x (lib f : Instr Loc V X P) = some { mem := m, obj := (f x).1, pc := (f x).2 } := rfl

@[simp] theorem sc_goto (k : P) :
    sc m x (goto k : Instr Loc V X P) = some { mem := m, obj := x, pc := k } := rfl

@[simp] theorem sc_notify (k : P) :
    sc m x (notify k : Instr Loc V X P) = some { mem := m, obj := x, pc := k, woken := true } := rfl

@[simp] theorem sc_halt : sc m x (halt : Instr Loc V X P) = none := rfl

/-- Inside a caller an instruction does what it does alone. -/
theorem sc_map (g : P → Q) (i : Instr Loc V X P) :
    sc m x (i.map g) = (sc m x i).map fun n =>
      { mem := n.mem, obj := n.obj, pc := g n.pc, woken := n.woken } := by
  cases i <;> rfl

theorem sc_map_some {g : P → Q} {i : Instr Loc V X P} {n : Next Loc V X Q}
    (h : sc m x (i.map g) = some n) :
    ∃ n' : Next Loc V X P, sc m x i = some n' ∧ n.mem = n'.mem ∧ n.obj = n'.obj ∧
      n.pc = g n'.pc ∧ n.woken = n'.woken := by
  rw [sc_map, Option.map_eq_some_iff] at h
  obtain ⟨n', hn', rfl⟩ := h
  exact ⟨n', hn', rfl, rfl, rfl, rfl⟩

/-! ### Total store order -/

/-- The stores a thread has issued and memory has not seen, oldest first. -/
abbrev Buffer (Loc : Type) (V : Loc → Type) := List ((l : Loc) × V l)

/-- Memory with a buffer written over it: what the owner of the buffer reads. -/
def view (m : (l : Loc) → V l) (b : Buffer Loc V) : (l : Loc) → V l :=
  b.foldl (fun m e => Function.update m e.1 e.2) m

@[simp] theorem view_nil : view m ([] : Buffer Loc V) = m := rfl

/-- Flushing the oldest entry does not change what the owner reads. -/
theorem view_cons (e : (l : Loc) × V l) (b : Buffer Loc V) :
    view m (e :: b) = view (Function.update m e.1 e.2) b := rfl

/-- The owner reads a new entry at once. -/
theorem view_snoc (b : Buffer Loc V) (e : (l : Loc) × V l) :
    view m (b ++ [e]) = Function.update (view m b) e.1 e.2 := by
  unfold view
  rw [List.foldl_append]
  rfl

omit [DecidableEq Loc] in
/-- A variable that is not buffered stays so if another one is stored to. -/
theorem not_mem_snoc {b : Buffer Loc V} {e : (l : Loc) × V l} {l : Loc} (hb : ∀ d ∈ b, d.1 ≠ l)
    (he : e.1 ≠ l) : ∀ d ∈ b ++ [e], d.1 ≠ l := by
  intro d hd
  rcases List.mem_append.mp hd with hold | hnew
  · exact hb d hold
  · rw [List.mem_singleton.mp hnew]
    exact he

/-- What is not in the buffer is read from memory. -/
theorem view_of_not_mem {l : Loc} (b : Buffer Loc V) :
    ∀ {m : (l : Loc) → V l}, (∀ e ∈ b, e.1 ≠ l) → view m b l = m l := by
  induction b with
  | nil => intro m _; rfl
  | cons e rest ih =>
      intro m h
      rw [view_cons, ih (fun e' he' => h e' (List.mem_cons_of_mem _ he'))]
      exact Function.update_of_ne (h e List.mem_cons_self).symm _ _

/-- What the owner of a buffer reads from a variable depends on that variable alone. -/
theorem view_congr {l : Loc} (b : Buffer Loc V) :
    ∀ {m m' : (l : Loc) → V l}, m l = m' l → view m b l = view m' b l := by
  induction b with
  | nil => exact id
  | cons e rest ih =>
      intro m m' h
      rw [view_cons, view_cons]
      refine ih ?_
      by_cases he : l = e.1
      · subst he
        rw [Function.update_self, Function.update_self]
      · rw [Function.update_of_ne he, Function.update_of_ne he, h]

/-- A store to a variable that is not in the buffer may as well come after the buffer. -/
theorem view_update {e : (l : Loc) × V l} {b : Buffer Loc V} (hb : ∀ d ∈ b, d.1 ≠ e.1)
    (l : Loc) : view (Function.update m e.1 e.2) b l = Function.update (view m b) e.1 e.2 l := by
  by_cases hl : l = e.1
  · subst hl
    rw [view_of_not_mem b hb, Function.update_self, Function.update_self]
  · rw [Function.update_of_ne hl]
    exact view_congr b (Function.update_of_ne hl _ _)

/-- The oldest entry of a buffer reaches memory. -/
def flush (m : (l : Loc) → V l) : Buffer Loc V → Option (((l : Loc) → V l) × Buffer Loc V)
  | [] => none
  | e :: b => some (Function.update m e.1 e.2, b)

/-- What one instruction leaves behind when the thread has a store buffer. -/
structure NextTso (Loc : Type) (V : Loc → Type) (X P : Type) where
  mem : (l : Loc) → V l
  buf : Buffer Loc V
  obj : X
  pc : P
  woken : Bool := false

/-- Execute an instruction behind the store buffer `b`. -/
def tso (m : (l : Loc) → V l) (b : Buffer Loc V) (x : X) :
    Instr Loc V X P → Option (NextTso Loc V X P)
  | load l _ k => some { mem := m, buf := b, obj := x, pc := k (view m b l) }
  | store l v mo k =>
      if mo = .seqCst then
        if b.isEmpty then some { mem := Function.update m l v, buf := [], obj := x, pc := k }
        else none
      else some { mem := m, buf := b ++ [⟨l, v⟩], obj := x, pc := k }
  | lib f => some { mem := m, buf := b, obj := (f x).1, pc := (f x).2 }
  | notify k => some { mem := m, buf := b, obj := x, pc := k, woken := true }
  | halt => none

variable {b : Buffer Loc V}

@[simp] theorem tso_load (l : Loc) (mo : MemoryOrder) (k : V l → P) :
    tso m b x (load l mo k) = some { mem := m, buf := b, obj := x, pc := k (view m b l) } := rfl

@[simp] theorem tso_lib (f : X → X × P) :
    tso m b x (lib f : Instr Loc V X P) =
      some { mem := m, buf := b, obj := (f x).1, pc := (f x).2 } := rfl

@[simp] theorem tso_goto (k : P) :
    tso m b x (goto k : Instr Loc V X P) = some { mem := m, buf := b, obj := x, pc := k } := rfl

@[simp] theorem tso_notify (k : P) :
    tso m b x (notify k : Instr Loc V X P) =
      some { mem := m, buf := b, obj := x, pc := k, woken := true } := rfl

@[simp] theorem tso_halt : tso m b x (halt : Instr Loc V X P) = none := rfl

/-- A weaker store only enters the buffer. -/
theorem tso_store {l : Loc} {v : V l} {mo : MemoryOrder} {k : P} (h : mo ≠ .seqCst) :
    tso m b x (store l v mo k) = some { mem := m, buf := b ++ [⟨l, v⟩], obj := x, pc := k } :=
  if_neg h

/-- A sequentially consistent store finds the buffer empty. -/
theorem tso_store_seqCst {l : Loc} {v : V l} {k : P} {n : NextTso Loc V X P}
    (h : tso m b x (store l v .seqCst k) = some n) :
    b = [] ∧ n = { mem := Function.update m l v, buf := [], obj := x, pc := k } := by
  simp only [tso, if_true] at h
  split at h
  · rename_i hb
    exact ⟨by simpa using hb, (Option.some.inj h).symm⟩
  · simp at h

/-- Inside a caller an instruction does what it does alone. -/
theorem tso_map (g : P → Q) (i : Instr Loc V X P) :
    tso m b x (i.map g) = (tso m b x i).map fun n =>
      { mem := n.mem, buf := n.buf, obj := n.obj, pc := g n.pc, woken := n.woken } := by
  cases i with
  | store l v mo k =>
      simp only [map, tso]
      split
      · split <;> rfl
      · rfl
  | _ => rfl

/-! ### Coherent loads that may be stale

Every variable keeps the values it has held, oldest first, and every thread remembers
for each variable how far it has come.  The event of a step says which value an atomic
load returns.
-/

/-- What one instruction leaves behind when loads may be stale. -/
structure NextStale (Loc : Type) (V : Loc → Type) (X P : Type) where
  mem : (l : Loc) → V l
  past : (l : Loc) → List (V l)
  seen : Loc → Nat
  obj : X
  pc : P
  woken : Bool := false

/-- The `pick`-th value of a variable, if a thread that has come to `seen` may load it. -/
def mayLoad (m : (l : Loc) → V l) (past : (l : Loc) → List (V l)) (seen : Loc → Nat) (l : Loc)
    (pick : Nat) : Option (V l) :=
  if seen l ≤ pick then (past l ++ [m l])[pick]? else none

/-- Execute an instruction whose atomic load returns the `pick`-th value. -/
def stale (m : (l : Loc) → V l) (past : (l : Loc) → List (V l)) (seen : Loc → Nat) (x : X)
    (pick : Nat) : Instr Loc V X P → Option (NextStale Loc V X P)
  | load l mo k =>
      if mo = .nonatomic then
        some { mem := m, past := past, seen := seen, obj := x, pc := k (m l) }
      else
        (mayLoad m past seen l pick).map fun v =>
          { mem := m, past := past, seen := Function.update seen l pick, obj := x, pc := k v }
  | store l v _ k =>
      some { mem := Function.update m l v, past := Function.update past l (past l ++ [m l]),
             seen := Function.update seen l (past l ++ [m l]).length, obj := x, pc := k }
  | lib f => some { mem := m, past := past, seen := seen, obj := (f x).1, pc := (f x).2 }
  | notify k => some { mem := m, past := past, seen := seen, obj := x, pc := k, woken := true }
  | halt => none

variable {past : (l : Loc) → List (V l)} {seen : Loc → Nat} {pick : Nat}

omit [DecidableEq Loc] in
theorem mayLoad_eq_some_iff {l : Loc} {v : V l} : mayLoad m past seen l pick = some v ↔
    seen l ≤ pick ∧ (past l ++ [m l])[pick]? = some v := by
  unfold mayLoad
  rw [Option.ite_none_right_eq_some]

omit [DecidableEq Loc] in
/-- A thread that has seen all values of a variable loads the present one. -/
theorem mayLoad_own {l : Loc} {v : V l} (hseen : seen l = (past l).length)
    (h : mayLoad m past seen l pick = some v) : pick = seen l ∧ v = m l := by
  obtain ⟨hle, hv⟩ := mayLoad_eq_some_iff.mp h
  obtain ⟨hlt, -⟩ := List.getElem?_eq_some_iff.mp hv
  rw [List.length_append, List.length_singleton] at hlt
  have hpick : pick = (past l).length := by omega
  rw [hpick, List.getElem?_concat_length] at hv
  exact ⟨hpick.trans hseen.symm, (Option.some.inj hv).symm⟩

theorem stale_load {l : Loc} {mo : MemoryOrder} {k : V l → P} (h : mo ≠ .nonatomic) :
    stale m past seen x pick (load l mo k) = (mayLoad m past seen l pick).map fun v =>
      { mem := m, past := past, seen := Function.update seen l pick, obj := x, pc := k v } :=
  if_neg h

theorem stale_nonatomic (l : Loc) (k : V l → P) :
    stale m past seen x pick (load l .nonatomic k) =
      some { mem := m, past := past, seen := seen, obj := x, pc := k (m l) } := rfl

theorem stale_store (l : Loc) (v : V l) (mo : MemoryOrder) (k : P) :
    stale m past seen x pick (store l v mo k) =
      some { mem := Function.update m l v, past := Function.update past l (past l ++ [m l]),
             seen := Function.update seen l (past l ++ [m l]).length, obj := x, pc := k } := rfl

end Instr

end Lib
