/-
The bounded FIFO queue as an atomic object.

This is what a linearizable queue is measured against.  A producer and a consumer
call its operations; between call and return each operation takes effect in one
step, `act`, on a plain list.  The history a client sees is the sequence of calls
and returns, and an implementation is linearizable when every history of it is a
history of this object: the `act` steps are its linearization points.

`push` fails exactly on a full queue, `pop` exactly on an empty one, and either
side may ask `empty`.
-/
import MarketData.Lib.Machine

namespace Lib.BoundedQueue

/-- The two threads a queue of this kind serves. -/
inductive Side
  | producer
  | consumer
deriving DecidableEq, Repr

/-- What a client sees of a queue. -/
inductive Obs (T : Type)
  | callPush (item : T)
  | retPush (item : T) (ok : Bool)
  | callPop
  | retPop (res : Option T)
  | callEmpty (side : Side)
  | retEmpty (side : Side) (b : Bool)
deriving DecidableEq

/-- Where the producer stands in its current operation. -/
inductive Producer (T : Type)
  | idle
  | push (item : T)
  | pushed (item : T) (ok : Bool)
  | empty
  | emptied (b : Bool)

/-- Where the consumer stands in its current operation. -/
inductive Consumer (T : Type)
  | idle
  | pop
  | popped (res : Option T)
  | empty
  | emptied (b : Bool)

structure State (T : Type) where
  items : List T
  prod : Producer T
  cons : Consumer T

inductive Event (T : Type)
  | callPush (item : T)
  | callPop
  | callEmpty (side : Side)
  | act (side : Side)
  | ret (side : Side)

variable {T : Type}

/-- The pending operation of the producer takes effect. -/
def actProducer (n : Nat) (s : State T) : Option (State T) :=
  match s.prod with
  | .push x =>
      if s.items.length = n then some { s with prod := .pushed x false }
      else some { s with items := s.items ++ [x], prod := .pushed x true }
  | .empty => some { s with prod := .emptied s.items.isEmpty }
  | _ => none

/-- The pending operation of the consumer takes effect. -/
def actConsumer (s : State T) : Option (State T) :=
  match s.cons with
  | .pop =>
      match s.items with
      | [] => some { s with cons := .popped none }
      | x :: rest => some { s with items := rest, cons := .popped (some x) }
  | .empty => some { s with cons := .emptied s.items.isEmpty }
  | _ => none

def step (n : Nat) (s : State T) : Event T → Option (State T)
  | .callPush x =>
      match s.prod with
      | .idle => some { s with prod := .push x }
      | _ => none
  | .callPop =>
      match s.cons with
      | .idle => some { s with cons := .pop }
      | _ => none
  | .callEmpty .producer =>
      match s.prod with
      | .idle => some { s with prod := .empty }
      | _ => none
  | .callEmpty .consumer =>
      match s.cons with
      | .idle => some { s with cons := .empty }
      | _ => none
  | .act .producer => actProducer n s
  | .act .consumer => actConsumer s
  | .ret .producer =>
      match s.prod with
      | .pushed _ _ => some { s with prod := .idle }
      | .emptied _ => some { s with prod := .idle }
      | _ => none
  | .ret .consumer =>
      match s.cons with
      | .popped _ => some { s with cons := .idle }
      | .emptied _ => some { s with cons := .idle }
      | _ => none

/-- The queue of at most `n` items, empty at first. -/
def machine (T : Type) (n : Nat) : Machine (State T) (Event T) where
  init := { items := [], prod := .idle, cons := .idle }
  step := step n

/-- What the client sees of a step. -/
def obs (s : State T) : Event T → Option (Obs T)
  | .callPush x => some (.callPush x)
  | .callPop => some .callPop
  | .callEmpty side => some (.callEmpty side)
  | .act _ => none
  | .ret .producer =>
      match s.prod with
      | .pushed x ok => some (.retPush x ok)
      | .emptied b => some (.retEmpty .producer b)
      | _ => none
  | .ret .consumer =>
      match s.cons with
      | .popped res => some (.retPop res)
      | .emptied b => some (.retEmpty .consumer b)
      | _ => none

/-! ### First in, first out

Everything accepted is delivered in order, waiting, or on its way out; so what was
delivered is a prefix of what was accepted.
-/

/-- The items given to pushes that returned true. -/
def accepted (history : List (Obs T)) : List T :=
  history.filterMap fun o => match o with
    | .retPush x true => some x
    | _ => none

/-- The items pops returned. -/
def delivered (history : List (Obs T)) : List T :=
  history.filterMap fun o => match o with
    | .retPop res => res
    | _ => none

/-- The item of a push that has taken effect and not returned. -/
def Producer.published : Producer T → List T
  | .pushed x true => [x]
  | _ => []

/-- The item of a pop that has taken effect and not returned. -/
def Consumer.taken : Consumer T → List T
  | .popped res => res.toList
  | _ => []

/-- What `fifo` balances, for one step. -/
def Balanced (history : List (Obs T)) (s : State T) : Prop :=
  accepted history ++ s.prod.published = delivered history ++ s.cons.taken ++ s.items

theorem balanced_act {n : Nat} {history : List (Obs T)} {s s' : State T} {side : Side}
    (h : Balanced history s) (hs : step n s (.act side) = some s') : Balanced history s' := by
  unfold Balanced at h ⊢
  cases side with
  | producer =>
      simp only [step, actProducer] at hs
      split at hs
      · rename_i x hpush
        simp only [hpush, Producer.published, List.append_nil] at h
        split at hs
        · simp only [Option.some.injEq] at hs
          subst hs
          simpa [Producer.published] using h
        · simp only [Option.some.injEq] at hs
          subst hs
          simp only [Producer.published]
          rw [h]
          simp
      · rename_i hempty
        simp only [Option.some.injEq] at hs
        subst hs
        simp only [hempty, Producer.published] at h
        simpa [Producer.published] using h
      · simp at hs
  | consumer =>
      simp only [step, actConsumer] at hs
      split at hs
      · rename_i hpop
        simp only [hpop, Consumer.taken, List.append_nil] at h
        split at hs
        · rename_i hnil
          simp only [Option.some.injEq] at hs
          subst hs
          simpa [Consumer.taken, hnil] using h
        · rename_i x rest hcons
          simp only [Option.some.injEq] at hs
          subst hs
          simp only [Consumer.taken]
          rw [h, hcons]
          simp
      · rename_i hempty
        simp only [Option.some.injEq] at hs
        subst hs
        simp only [hempty, Consumer.taken] at h
        simpa [Consumer.taken] using h
      · simp at hs

theorem balanced_step {n : Nat} {history : List (Obs T)} {s s' : State T} {e : Event T}
    (h : Balanced history s) (hs : step n s e = some s') :
    Balanced (history ++ (obs s e).toList) s' := by
  cases e with
  | act side => simpa [obs] using balanced_act h hs
  | callPush x =>
      unfold Balanced at h ⊢
      simp only [step] at hs
      split at hs <;> simp only [Option.some.injEq, reduceCtorEq] at hs
      subst hs
      simp_all [obs, accepted, delivered, Producer.published]
  | callPop =>
      unfold Balanced at h ⊢
      simp only [step] at hs
      split at hs <;> simp only [Option.some.injEq, reduceCtorEq] at hs
      subst hs
      simp_all [obs, accepted, delivered, Consumer.taken]
  | callEmpty side =>
      unfold Balanced at h ⊢
      cases side <;> simp only [step] at hs <;> split at hs <;>
        simp only [Option.some.injEq, reduceCtorEq] at hs <;> subst hs <;>
        simp_all [obs, accepted, delivered, Producer.published, Consumer.taken]
  | ret side =>
      unfold Balanced at h ⊢
      cases side with
      | producer =>
          simp only [step] at hs
          split at hs
          · rename_i x ok hpushed
            simp only [Option.some.injEq] at hs
            subst hs
            cases ok <;> simp_all [obs, accepted, delivered, Producer.published]
          · simp only [Option.some.injEq] at hs
            subst hs
            simp_all [obs, accepted, delivered, Producer.published]
          · simp at hs
      | consumer =>
          simp only [step] at hs
          split at hs
          · rename_i res hpopped
            simp only [Option.some.injEq] at hs
            subst hs
            cases res <;> simp_all [obs, accepted, delivered, Consumer.taken]
          · simp only [Option.some.injEq] at hs
            subst hs
            simp_all [obs, accepted, delivered, Consumer.taken]
          · simp at hs

/-- **First in, first out**, over every run. -/
theorem fifo {n : Nat} {es : List (Event T)} {s : State T} (h : (machine T n).Exec es s) :
    Balanced ((machine T n).log obs es) s := by
  have hinit : Balanced ((machine T n).log obs []) (machine T n).init := rfl
  refine Machine.Exec.induction (P := fun es s => Balanced ((machine T n).log obs es) s) hinit ?_ h
  intro es s e s' hex hbal hs
  rw [Machine.log_snoc obs hex hs]
  exact balanced_step hbal hs

/-! ### An answer is the truth where it is given -/

/-- The producer's operation has taken effect. -/
def Producer.Answered : Producer T → Prop
  | .pushed _ _ => True
  | .emptied _ => True
  | _ => False

/-- The consumer's operation has taken effect. -/
def Consumer.Answered : Consumer T → Prop
  | .popped _ => True
  | .emptied _ => True
  | _ => False

theorem act_producer_answer {n : Nat} {s s' : State T} (hs : actProducer n s = some s') :
    s'.cons = s.cons ∧ (∀ x, s'.prod = .pushed x false → s'.items.length = n) ∧
      ∀ b, s'.prod = .emptied b → b = s'.items.isEmpty := by
  simp only [actProducer] at hs
  split at hs
  · split at hs
    · rename_i hfull
      simp only [Option.some.injEq] at hs
      subst hs
      exact ⟨rfl, fun _ _ => hfull, fun b hb => by simp at hb⟩
    · simp only [Option.some.injEq] at hs
      subst hs
      exact ⟨rfl, fun x hx => by simp at hx, fun b hb => by simp at hb⟩
  · simp only [Option.some.injEq] at hs
    subst hs
    refine ⟨rfl, fun x hx => by simp at hx, fun b hb => ?_⟩
    simp only [Producer.emptied.injEq] at hb
    exact hb.symm
  · simp at hs

theorem act_consumer_answer {s s' : State T} (hs : actConsumer s = some s') :
    s'.prod = s.prod ∧ (s'.cons = .popped none → s'.items = []) ∧
      ∀ b, s'.cons = .emptied b → b = s'.items.isEmpty := by
  simp only [actConsumer] at hs
  split at hs
  · split at hs
    · rename_i hnil
      simp only [Option.some.injEq] at hs
      subst hs
      exact ⟨rfl, fun _ => hnil, fun b hb => by simp at hb⟩
    · simp only [Option.some.injEq] at hs
      subst hs
      exact ⟨rfl, fun hx => by simp at hx, fun b hb => by simp at hb⟩
  · simp only [Option.some.injEq] at hs
    subst hs
    refine ⟨rfl, fun hx => by simp at hx, fun b hb => ?_⟩
    simp only [Consumer.emptied.injEq] at hb
    exact hb.symm
  · simp at hs

end Lib.BoundedQueue
