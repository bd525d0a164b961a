/-
The ZMQ receive loop and the boundaries of messages.

The loop reads frames in pairs and never asks whether a payload was the last frame, so
after a message of three frames, or after a call of `recv` that failed between two
frames, it takes whatever comes next for a topic.  It is `rcvmore` that keeps it in
step: a payload is read only if the topic was not the last frame of its message, and so
belongs to the same message (`Holding`), and at the first frame of a message the loop is
always reading a topic.

For a message of two frames that leaves two outcomes.  Its frames are taken for topic
and payload, or `recv` failed between them; then the second frame is read as a topic,
has no frame after it, and is dropped (`Progress`).
-/
import MarketData.FeedHandler.ZmqFeedHandler
import MarketData.Lib.History

namespace MarketData.ZmqFeedHandler

open Lib Machine IFeedHandler

/-- The frame is the one the stream has at its place. -/
def Frame.From (stream : List Multipart) (f : Frame) : Prop :=
  ∃ m, stream[f.message]? = some m ∧ m.frames[f.index]? = some f.bytes

/-- Topic and payload are neighbours in one message of the stream. -/
structure Handled.Together (stream : List Multipart) (h : Handled) : Prop where
  topic : h.topic.From stream
  payload : h.payload.From stream
  message : h.payload.message = h.topic.message
  index : h.payload.index = h.topic.index + 1

/-! ### The steps -/

/-- A step on the socket that returns a frame. -/
inductive Receives (s : State) : Frame → State → Prop
  | more {m : Multipart} {bytes : List Byte} (hm : s.stream[s.message]? = some m)
      (hbytes : m.frames[s.frame]? = some bytes) (hlen : s.frame + 1 < m.frames.length) :
      Receives s ⟨s.message, s.frame, bytes⟩ { s with frame := s.frame + 1, rcvmore := true }
  | last {m : Multipart} {bytes : List Byte} (hm : s.stream[s.message]? = some m)
      (hbytes : m.frames[s.frame]? = some bytes) (hlen : s.frame + 1 = m.frames.length) :
      Receives s ⟨s.message, s.frame, bytes⟩
        { s with message := s.message + 1, frame := 0, rcvmore := false }

theorem receives_of_recv {s s' : State} {f : Frame} (h : recv s = some (f, s')) :
    Receives s f s' := by
  unfold recv at h
  obtain ⟨m, hm, hmap⟩ := Option.bind_eq_some_iff.mp h
  obtain ⟨bytes, hbytes, hpair⟩ := Option.map_eq_some_iff.mp hmap
  obtain ⟨hf, hs'⟩ := Prod.mk.inj hpair
  obtain ⟨hlt, -⟩ := List.getElem?_eq_some_iff.mp hbytes
  by_cases hlen : s.frame + 1 < m.frames.length
  · rw [if_pos hlen] at hs'
    rw [← hf, ← hs']
    exact Receives.more hm hbytes hlen
  · rw [if_neg hlen] at hs'
    rw [← hf, ← hs']
    exact Receives.last hm hbytes (by omega)

theorem Receives.frame_eq {s s' : State} {f : Frame} (h : Receives s f s') :
    f.message = s.message ∧ f.index = s.frame ∧ f.From s.stream ∧ s'.stream = s.stream := by
  cases h with
  | more hm hbytes hlen => exact ⟨rfl, rfl, ⟨_, hm, hbytes⟩, rfl⟩
  | last hm hbytes hlen => exact ⟨rfl, rfl, ⟨_, hm, hbytes⟩, rfl⟩

/-- The topic an iteration has received and not yet done with. -/
def inHand : Option Pc → Option Frame
  | some (.getRcvmore topic) => some topic
  | some (.recvPayload topic) => some topic
  | _ => none

/-- Calls and steps that touch neither the socket nor a topic in hand. -/
def Idles (s s' : State) : Prop :=
  s'.stream = s.stream ∧ s'.message = s.message ∧ s'.frame = s.frame ∧ s'.rcvmore = s.rcvmore ∧
    (s'.thread = s.thread ∨ inHand s.thread = none ∧ inHand s'.thread = none)

/-- The steps of the machine, with what they show. -/
inductive Moves (s : State) : Event → Option Handled → Option Nat → State → Prop
  | idle {e : Event} {s' : State} (h : Idles s s') : Moves s e none none s'
  | arrive (m : Multipart) : Moves s (.arrive m) none none { s with stream := s.stream ++ [m] }
  | topic {now : BitVec 64} {f : Frame} {s' : State} (hpc : s.thread = some .recvTopic)
      (h : Receives s f s') : Moves s (.recv .frame now) none none (s'.goto (.getRcvmore f))
  | rcvmore {topic : Frame} (hpc : s.thread = some (.getRcvmore topic)) :
      Moves s .rcvmore none none
        (s.goto (if s.rcvmore then .recvPayload topic else .checkStop))
  | payload {now : BitVec 64} {topic f : Frame} {s' : State}
      (hpc : s.thread = some (.recvPayload topic)) (h : Receives s f s') :
      Moves s (.recv .frame now) (some ⟨topic, f, now⟩) none (s'.goto .checkStop)
  | interrupt {outcome : Outcome} {now : BitVec 64} {topic : Frame}
      (hpc : s.thread = some (.recvPayload topic)) (hout : outcome ≠ .frame) :
      Moves s (.recv outcome now) none (some topic.message) (s.goto (afterFailure outcome))

theorem inHand_afterFailure (s : State) (outcome : Outcome) :
    inHand (s.goto (afterFailure outcome)).thread = none := by
  cases outcome <;> rfl

theorem moves_of_step {s s' : State} {e : Event} (hs : step s e = some s') :
    Moves s e (handled s e) (interrupted s e) s' := by
  cases e with
  | start =>
      refine Moves.idle ?_
      rw [← Option.some.inj hs, start]
      cases hthread : s.thread with
      | some pc => exact ⟨rfl, rfl, rfl, rfl, Or.inl rfl⟩
      | none => exact ⟨rfl, rfl, rfl, rfl, Or.inr ⟨by rw [hthread]; rfl, rfl⟩⟩
  | requestStop =>
      refine Moves.idle ?_
      rw [← Option.some.inj hs, requestStop]
      cases hthread : s.thread with
      | some pc => exact ⟨rfl, rfl, rfl, rfl, Or.inl hthread.symm⟩
      | none => exact ⟨rfl, rfl, rfl, rfl, Or.inl rfl⟩
  | join =>
      refine Moves.idle ?_
      have hs : join s = some s' := hs
      unfold join at hs
      split at hs
      · rw [← Option.some.inj hs]
        exact ⟨rfl, rfl, rfl, rfl, Or.inl rfl⟩
      · next hpc =>
          rw [← Option.some.inj hs]
          exact ⟨rfl, rfl, rfl, rfl, Or.inr ⟨by rw [hpc]; rfl, rfl⟩⟩
      · exact absurd hs nofun
  | arrive m =>
      rw [← Option.some.inj hs]
      exact Moves.arrive m
  | checkStop =>
      refine Moves.idle ?_
      simp only [step] at hs
      split at hs
      · next hpc =>
          rw [← Option.some.inj hs]
          refine ⟨rfl, rfl, rfl, rfl, Or.inr ⟨by rw [hpc]; rfl, ?_⟩⟩
          cases s.stopRequested <;> rfl
      · exact absurd hs nofun
  | recv outcome now =>
      have hs : recvStep s outcome = some s' := hs
      unfold recvStep at hs
      split at hs
      · next hpc =>
          by_cases hout : outcome = .frame
          · rw [if_pos hout] at hs
            obtain ⟨⟨f, t⟩, hrecv, rfl⟩ := Option.map_eq_some_iff.mp hs
            rw [hout]
            simp only [handled, interrupted, hpc]
            exact Moves.topic hpc (receives_of_recv hrecv)
          · rw [if_neg hout] at hs
            rw [← Option.some.inj hs]
            have hshown : handled s (.recv outcome now) = none ∧
                interrupted s (.recv outcome now) = none := by
              cases outcome <;> simp [handled, interrupted, hpc]
            rw [hshown.1, hshown.2]
            exact Moves.idle ⟨rfl, rfl, rfl, rfl,
              Or.inr ⟨by rw [hpc]; rfl, inHand_afterFailure s outcome⟩⟩
      · next topic hpc =>
          by_cases hout : outcome = .frame
          · rw [if_pos hout] at hs
            obtain ⟨⟨f, t⟩, hrecv, rfl⟩ := Option.map_eq_some_iff.mp hs
            rw [hout]
            simp only [handled, interrupted, hpc, hrecv, if_true]
            exact Moves.payload hpc (receives_of_recv hrecv)
          · rw [if_neg hout] at hs
            rw [← Option.some.inj hs]
            have hshown : handled s (.recv outcome now) = none ∧
                interrupted s (.recv outcome now) = some topic.message := by
              cases outcome <;> simp_all [handled, interrupted]
            rw [hshown.1, hshown.2]
            exact Moves.interrupt hpc hout
      · exact absurd hs nofun
  | rcvmore =>
      simp only [step] at hs
      split at hs
      · next hpc =>
          rw [← Option.some.inj hs]
          exact Moves.rcvmore hpc
      · exact absurd hs nofun

/-- The stream changes by what arrives. -/
theorem Moves.stream_eq {s s' : State} {e : Event} {h? : Option Handled} {i? : Option Nat}
    (hm : Moves s e h? i? s') :
    s'.stream = s.stream ∨ ∃ m, e = .arrive m ∧ s'.stream = s.stream ++ [m] := by
  cases hm with
  | idle hidle => exact Or.inl hidle.1
  | arrive m => exact Or.inr ⟨m, rfl, rfl⟩
  | topic hpc hr => exact Or.inl hr.frame_eq.2.2.2
  | rcvmore hpc => exact Or.inl rfl
  | payload hpc hr => exact Or.inl hr.frame_eq.2.2.2
  | interrupt hpc hout => exact Or.inl rfl

/-! ### The loop keeps in step -/

/-- Where the loop stands in the stream. -/
structure InStep (s : State) : Prop where
  bound : s.message ≤ s.stream.length
  inside : s.frame ≠ 0 → ∃ m, s.stream[s.message]? = some m ∧ s.frame < m.frames.length
  flag : s.rcvmore = true ↔ s.frame ≠ 0
  payload : ∀ topic, s.thread = some (.recvPayload topic) → s.frame ≠ 0
  hold : ∀ topic, inHand s.thread = some topic → s.frame ≠ 0 →
    topic.message = s.message ∧ topic.index + 1 = s.frame ∧ topic.From s.stream

theorem inStep_initial : InStep State.initial :=
  ⟨Nat.le_refl _, fun h => absurd rfl h, by simp [State.initial], nofun, nofun⟩

theorem Frame.From.snoc {stream : List Multipart} {f : Frame} (h : f.From stream)
    (m : Multipart) : f.From (stream ++ [m]) := by
  obtain ⟨m', hm', hbytes⟩ := h
  exact ⟨m', getElem?_snoc m hm', hbytes⟩

/-- The socket after a frame, with the thread wherever it goes on. -/
theorem InStep.receives {s s' : State} {f : Frame} (h : InStep s) (hr : Receives s f s') {pc : Pc}
    (hpayload : ∀ topic, pc ≠ .recvPayload topic)
    (hhold : ∀ topic, inHand (some pc) = some topic → topic = f) : InStep (s'.goto pc) := by
  have hpay : ∀ topic, (s'.goto pc).thread = some (.recvPayload topic) → (s'.goto pc).frame ≠ 0 :=
    fun topic hpc => absurd (Option.some.inj hpc) (hpayload topic)
  cases hr with
  | @more m bytes hm hbytes hlen =>
      refine ⟨h.bound, fun _ => ⟨m, hm, hlen⟩, by simp [State.goto], hpay, ?_⟩
      intro topic htopic _
      rw [hhold topic htopic]
      exact ⟨rfl, rfl, m, hm, hbytes⟩
  | @last m bytes hm hbytes hlen =>
      obtain ⟨hlt, -⟩ := List.getElem?_eq_some_iff.mp hm
      exact ⟨hlt, fun hne => absurd rfl hne, by simp [State.goto], hpay,
        fun _ _ hne => absurd rfl hne⟩

theorem InStep.step {s s' : State} {e : Event} {h? : Option Handled} {i? : Option Nat}
    (h : InStep s) (hm : Moves s e h? i? s') : InStep s' := by
  cases hm with
  | idle hidle =>
      obtain ⟨hstream, hmessage, hframe, hflag, hthread⟩ := hidle
      refine ⟨?_, ?_, ?_, ?_, ?_⟩
      · rw [hstream, hmessage]
        exact h.bound
      · rw [hstream, hmessage, hframe]
        exact h.inside
      · rw [hflag, hframe]
        exact h.flag
      · rw [hframe]
        intro topic hpc
        rcases hthread with heq | ⟨-, hnone⟩
        · exact h.payload topic (heq ▸ hpc)
        · rw [hpc] at hnone
          exact absurd hnone nofun
      · rw [hstream, hmessage, hframe]
        intro topic htopic
        rcases hthread with heq | ⟨-, hnone⟩
        · exact h.hold topic (heq ▸ htopic)
        · rw [hnone] at htopic
          exact absurd htopic nofun
  | arrive m =>
      refine ⟨?_, ?_, h.flag, h.payload, ?_⟩
      · show s.message ≤ (s.stream ++ [m]).length
        rw [List.length_append]
        exact Nat.le_trans h.bound (Nat.le_add_right _ _)
      · intro hne
        obtain ⟨m', hm', hlt⟩ := h.inside hne
        exact ⟨m', getElem?_snoc m hm', hlt⟩
      · intro topic htopic hne
        obtain ⟨hmessage, hindex, hfrom⟩ := h.hold topic htopic hne
        exact ⟨hmessage, hindex, hfrom.snoc m⟩
  | topic hpc hr => exact h.receives hr nofun fun topic htopic => (Option.some.inj htopic).symm
  | rcvmore hpc =>
      by_cases hmore : s.rcvmore = true
      · rw [if_pos hmore]
        refine ⟨h.bound, h.inside, h.flag, fun _ _ => h.flag.mp hmore, ?_⟩
        intro topic htopic
        exact h.hold topic (by rw [hpc]; exact htopic)
      · rw [if_neg hmore]
        exact ⟨h.bound, h.inside, h.flag, nofun, nofun⟩
  | payload hpc hr => exact h.receives hr nofun nofun
  | @interrupt outcome now topic hpc hout =>
      have hnone := inHand_afterFailure s outcome
      refine ⟨h.bound, h.inside, h.flag, ?_, ?_⟩
      · intro topic hpc'
        rw [hpc'] at hnone
        exact absurd hnone nofun
      · intro topic htopic
        rw [hnone] at htopic
        exact absurd htopic nofun

/-- The frame that is taken for a payload comes right after the topic. -/
theorem InStep.together {s s' : State} {topic f : Frame} (h : InStep s)
    (hpc : s.thread = some (.recvPayload topic)) (hr : Receives s f s') (now : BitVec 64) :
    (⟨topic, f, now⟩ : Handled).Together s.stream := by
  obtain ⟨hmessage, hindex, hfrom⟩ := h.hold topic (by rw [hpc]; rfl) (h.payload topic hpc)
  obtain ⟨hfm, hfi, hff, -⟩ := hr.frame_eq
  exact ⟨hfrom, hff, hfm.trans hmessage.symm, hfi.trans hindex.symm⟩

/-! ### A message of two frames -/

/-- The iterations whose topic came from the message with number `j`. -/
def handledOf (j : Nat) (hs : List Handled) : List Handled :=
  hs.filter fun h => h.topic.message = j

/-- What has become of the messages so far. -/
structure Progress (s : State) (hs : List Handled) (interrupts : List Nat) : Prop where
  together : ∀ h ∈ hs, h.Together s.stream
  ahead : ∀ j, s.message < j ∨ s.message = j ∧ s.frame = 0 →
    handledOf j hs = [] ∧ j ∉ interrupts
  between : ∀ topic data, s.stream[s.message]? = some ⟨topic, [data]⟩ → s.frame = 1 →
    handledOf s.message hs = [] ∧
      (s.message ∉ interrupts ↔ inHand s.thread = some ⟨s.message, 0, topic⟩)
  behind : ∀ j topic data, s.stream[j]? = some ⟨topic, [data]⟩ → j < s.message →
    (j ∉ interrupts ∧ ∃ now, handledOf j hs = [⟨⟨j, 0, topic⟩, ⟨j, 1, data⟩, now⟩]) ∨
    (j ∈ interrupts ∧ handledOf j hs = [])

theorem progress_initial : Progress State.initial [] [] :=
  ⟨nofun, fun _ _ => ⟨rfl, nofun⟩, nofun, fun _ _ _ h => absurd h (by simp [State.initial])⟩

/-- A step that shows nothing and does not move on in the stream. -/
theorem Progress.stay {s s' : State} {hs : List Handled} {interrupts : List Nat}
    (h : Progress s hs interrupts) (hstream : s'.stream = s.stream)
    (hmessage : s'.message = s.message) (hframe : s'.frame = s.frame)
    (hhand : s.frame ≠ 0 → inHand s'.thread = inHand s.thread) : Progress s' hs interrupts := by
  refine ⟨?_, ?_, ?_, ?_⟩
  · rw [hstream]
    exact h.together
  · rw [hmessage, hframe]
    exact h.ahead
  · rw [hstream, hmessage, hframe]
    intro topic data hm hone
    rw [hhand (by omega)]
    exact h.between topic data hm hone
  · rw [hstream, hmessage]
    exact h.behind

theorem handledOf_snoc_other {j : Nat} {x : Handled} (h : x.topic.message ≠ j)
    (hs : List Handled) : handledOf j (hs ++ [x]) = handledOf j hs := by
  unfold handledOf
  rw [List.filter_append, List.filter_cons_of_neg (by simpa using h), List.filter_nil,
    List.append_nil]

theorem handledOf_snoc_self (x : Handled) (hs : List Handled) :
    handledOf x.topic.message (hs ++ [x]) = handledOf x.topic.message hs ++ [x] := by
  unfold handledOf
  rw [List.filter_append, List.filter_cons_of_pos (by simp), List.filter_nil]

/-- A topic: the first frame of a message is in hand, a later one was left behind. -/
theorem Progress.topic {s s' : State} {hs : List Handled} {interrupts : List Nat} {f : Frame}
    (h : Progress s hs interrupts) (hpc : s.thread = some .recvTopic) (hr : Receives s f s') :
    Progress (s'.goto (.getRcvmore f)) hs interrupts := by
  cases hr with
  | @more m bytes hm hbytes hlen =>
      refine ⟨h.together, ?_, ?_, h.behind⟩
      · intro j hj
        rcases hj with hlt | ⟨-, hzero⟩
        · exact h.ahead j (Or.inl hlt)
        · exact absurd hzero (Nat.succ_ne_zero _)
      · intro topic data htwo hone
        have hzero : s.frame = 0 := Nat.succ.inj hone
        obtain ⟨hnone, hnot⟩ := h.ahead s.message (Or.inr ⟨rfl, hzero⟩)
        have hm' : m = ⟨topic, [data]⟩ := Option.some.inj (hm.symm.trans htwo)
        rw [hm', hzero] at hbytes
        refine ⟨hnone, fun _ => ?_, fun _ => hnot⟩
        show some (⟨s.message, s.frame, bytes⟩ : Frame) = some ⟨s.message, 0, topic⟩
        have htopic : topic = bytes := Option.some.inj hbytes
        rw [hzero, htopic]
  | @last m bytes hm hbytes hlen =>
      refine ⟨h.together, ?_, fun _ _ _ hone => absurd hone Nat.zero_ne_one, ?_⟩
      · intro j hj
        refine h.ahead j (Or.inl ?_)
        rcases hj with hlt | ⟨heq, -⟩
        · exact Nat.lt_of_succ_lt hlt
        · exact Nat.lt_of_succ_le (Nat.le_of_eq heq)
      · intro j topic data htwo hj
        rcases Nat.lt_succ_iff_lt_or_eq.mp hj with hlt | heq
        · exact h.behind j topic data htwo hlt
        · rw [heq] at htwo ⊢
          have hm' : m = ⟨topic, [data]⟩ := Option.some.inj (hm.symm.trans htwo)
          rw [hm'] at hlen
          obtain ⟨hnone, hiff⟩ := h.between topic data htwo (Nat.succ.inj hlen)
          refine Or.inr ⟨?_, hnone⟩
          by_contra hnot
          rw [hiff, hpc] at hnot
          exact absurd hnot nofun

/-- A payload: the frames of a message of two frames have found each other. -/
theorem Progress.payload {s s' : State} {hs : List Handled} {interrupts : List Nat}
    {topic f : Frame} {now : BitVec 64} (h : Progress s hs interrupts) (hin : InStep s)
    (hpc : s.thread = some (.recvPayload topic)) (hr : Receives s f s') :
    Progress (s'.goto .checkStop) (hs ++ [⟨topic, f, now⟩]) interrupts := by
  have hne := hin.payload topic hpc
  obtain ⟨hmessage, hindex, hfrom⟩ := hin.hold topic (by rw [hpc]; rfl) hne
  have hall : ∀ x ∈ hs ++ [(⟨topic, f, now⟩ : Handled)], x.Together s.stream := by
    rw [List.forall_mem_append, List.forall_mem_singleton]
    exact ⟨h.together, hin.together hpc hr now⟩
  have hother : ∀ j, s.message ≠ j → handledOf j (hs ++ [⟨topic, f, now⟩]) = handledOf j hs :=
    fun j hj => handledOf_snoc_other (x := ⟨topic, f, now⟩) (by rw [hmessage]; exact hj) hs
  cases hr with
  | @more m bytes hm hbytes hlen =>
      refine ⟨hall, ?_, ?_, ?_⟩
      · intro j hj
        rcases hj with hlt | ⟨-, hzero⟩
        · rw [hother j (Nat.ne_of_lt hlt)]
          exact h.ahead j (Or.inl hlt)
        · exact absurd hzero (Nat.succ_ne_zero _)
      · intro t d _ hone
        exact absurd (Nat.succ.inj hone) hne
      · intro j t d htwo hj
        rw [hother j (Nat.ne_of_gt hj)]
        exact h.behind j t d htwo hj
  | @last m bytes hm hbytes hlen =>
      refine ⟨hall, ?_, fun _ _ _ hone => absurd hone Nat.zero_ne_one, ?_⟩
      · intro j hj
        have hlt : s.message < j := by
          rcases hj with hlt | ⟨heq, -⟩
          · exact Nat.lt_of_succ_lt hlt
          · exact Nat.lt_of_succ_le (Nat.le_of_eq heq)
        rw [hother j (Nat.ne_of_lt hlt)]
        exact h.ahead j (Or.inl hlt)
      · intro j t d htwo hj
        rcases Nat.lt_succ_iff_lt_or_eq.mp hj with hlt | heq
        · rw [hother j (Nat.ne_of_gt hlt)]
          exact h.behind j t d htwo hlt
        · rw [heq] at htwo ⊢
          have hm' : m = ⟨t, [d]⟩ := Option.some.inj (hm.symm.trans htwo)
          rw [hm'] at hlen hbytes hm
          have hone : s.frame = 1 := Nat.succ.inj hlen
          obtain ⟨hnone, hiff⟩ := h.between t d hm hone
          have htopic : topic = ⟨s.message, 0, t⟩ := by
            obtain ⟨m₁, hm₁, hb⟩ := hfrom
            have hzero : topic.index = 0 := by omega
            rw [hmessage, hm, Option.some.injEq] at hm₁
            rw [← hm₁, hzero] at hb
            obtain ⟨tm, ti, tb⟩ := topic
            simp only at hmessage hzero hb
            rw [hmessage, hzero, ← Option.some.inj hb]
          rw [hone] at hbytes
          refine Or.inl ⟨hiff.mpr (by rw [hpc, htopic]; rfl), now, ?_⟩
          have hself := handledOf_snoc_self ⟨topic, ⟨s.message, s.frame, bytes⟩, now⟩ hs
          rw [show topic.message = s.message from hmessage, hnone, List.nil_append] at hself
          rw [hself, htopic, hone, ← Option.some.inj hbytes]

/-- A call of `recv` that fails with a topic in hand. -/
theorem Progress.interrupt {s : State} {hs : List Handled} {interrupts : List Nat} {topic : Frame}
    {outcome : Outcome} (h : Progress s hs interrupts) (hin : InStep s)
    (hpc : s.thread = some (.recvPayload topic)) :
    Progress (s.goto (afterFailure outcome)) hs (interrupts ++ [topic.message]) := by
  have hne := hin.payload topic hpc
  obtain ⟨hmessage, -, -⟩ := hin.hold topic (by rw [hpc]; rfl) hne
  rw [hmessage]
  have hmem : ∀ j, j ≠ s.message → (j ∈ interrupts ++ [s.message] ↔ j ∈ interrupts) := by
    intro j hj
    simp [hj]
  refine ⟨h.together, ?_, ?_, ?_⟩
  · intro j hj
    rcases hj with hlt | ⟨-, hzero⟩
    · rw [hmem j (Nat.ne_of_gt hlt)]
      exact h.ahead j (Or.inl hlt)
    · exact absurd hzero hne
  · intro t d htwo hone
    refine ⟨(h.between t d htwo hone).1, ?_⟩
    rw [inHand_afterFailure]
    simp [State.goto]
  · intro j t d htwo hj
    rw [hmem j (Nat.ne_of_lt hj)]
    exact h.behind j t d htwo hj

theorem Progress.step {s s' : State} {e : Event} {h? : Option Handled} {i? : Option Nat}
    {hs : List Handled} {interrupts : List Nat} (h : Progress s hs interrupts) (hin : InStep s)
    (hm : Moves s e h? i? s') : Progress s' (hs ++ h?.toList) (interrupts ++ i?.toList) := by
  cases hm with
  | idle hidle =>
      obtain ⟨hstream, hmessage, hframe, -, hthread⟩ := hidle
      rw [Option.toList_none, Option.toList_none, List.append_nil, List.append_nil]
      refine h.stay hstream hmessage hframe fun _ => ?_
      rcases hthread with heq | ⟨hnone, hnone'⟩
      · rw [heq]
      · rw [hnone, hnone']
  | arrive m =>
      rw [Option.toList_none, Option.toList_none, List.append_nil, List.append_nil]
      have hold : ∀ j m', j < s.stream.length → (s.stream ++ [m])[j]? = some m' →
          s.stream[j]? = some m' := by
        intro j m' hj hm'
        rwa [List.getElem?_append_left hj] at hm'
      refine ⟨?_, h.ahead, ?_, ?_⟩
      · intro x hx
        have hx := h.together x hx
        exact ⟨hx.topic.snoc m, hx.payload.snoc m, hx.message, hx.index⟩
      · intro topic data htwo hone
        have hone : s.frame = 1 := hone
        obtain ⟨m', hm', -⟩ := hin.inside (by omega)
        obtain ⟨hlt, -⟩ := List.getElem?_eq_some_iff.mp hm'
        exact h.between topic data (hold _ _ hlt htwo) hone
      · intro j topic data htwo hj
        exact h.behind j topic data (hold _ _ (Nat.lt_of_lt_of_le hj hin.bound) htwo) hj
  | topic hpc hr =>
      rw [Option.toList_none, Option.toList_none, List.append_nil, List.append_nil]
      exact h.topic hpc hr
  | rcvmore hpc =>
      rw [Option.toList_none, Option.toList_none, List.append_nil, List.append_nil]
      refine h.stay rfl rfl rfl fun hne => ?_
      rw [if_pos (hin.flag.mpr hne), hpc]
      rfl
  | payload hpc hr =>
      rw [Option.toList_none, List.append_nil]
      exact h.payload hin hpc hr
  | interrupt hpc hout =>
      rw [Option.toList_none, List.append_nil]
      exact h.interrupt hin hpc

theorem progress_of_exec {es : List Event} {s : State} (h : machine.Exec es s) :
    InStep s ∧ Progress s (machine.log handled es) (machine.log interrupted es) := by
  refine Exec.induction (P := fun es s => InStep s ∧
    Progress s (machine.log handled es) (machine.log interrupted es))
    ⟨inStep_initial, progress_initial⟩ ?_ h
  rintro es s e s' hex ⟨hin, hprogress⟩ hs
  have hm := moves_of_step hs
  rw [log_snoc handled hex hs, log_snoc interrupted hex hs]
  exact ⟨hin.step hm, hprogress.step hin hm⟩

/-! ### Main result -/

/-- The calls with which a message of two frames is received when nothing else is. -/
def aloneRun (topic data : List Byte) (now : BitVec 64) : List Event :=
  [.arrive ⟨topic, [data]⟩, .start, .checkStop, .recv .frame now, .rcvmore, .recv .frame now]

theorem deliveriesOf_aloneRun (cb : Callbacks) (topic data : List Byte) (now : BitVec 64) :
    deliveriesOf cb 0 (aloneRun topic data now) = (handle cb now topic data).toList := by
  have hlog : machine.log handled (aloneRun topic data now) =
      [⟨⟨0, 0, topic⟩, ⟨0, 1, data⟩, now⟩] := rfl
  unfold deliveriesOf
  rw [hlog]
  simp only [decide_true, List.filter_cons_of_pos, List.filter_nil]
  cases hd : handle cb now topic data <;> simp [Handled.deliver, hd]

/-- When two frames are delivered. -/
theorem handle_isSome_iff (cb : Callbacks) (now : BitVec 64) (topic data : List Byte) :
    (handle cb now topic data).isSome = true ↔
      (topic.head? = some (byteOf 'Q') ∧ data.length = sizeofQuote ∧ cb.onQuote = true) ∨
      (topic.head? = some (byteOf 'T') ∧ data.length = sizeofTrade ∧ cb.onTrade = true) := by
  cases topic with
  | nil => simp [handle]
  | cons type rest =>
      have hQT : byteOf 'Q' ≠ byteOf 'T' := by decide
      simp only [handle]
      by_cases hq : type = byteOf 'Q' ∧ data.length = sizeofQuote
      · have ht : type ≠ byteOf 'T' := by
          rw [hq.1]
          exact hQT
        rw [dif_pos hq]
        cases hcb : cb.onQuote <;> simp [deliverToClient, hcb, hq.1, hq.2, hQT]
      · rw [dif_neg hq]
        by_cases ht : type = byteOf 'T' ∧ data.length = sizeofTrade
        · rw [dif_pos ht]
          cases hcb : cb.onTrade <;> simp [deliverToClient, hcb, ht.1, ht.2, hQT.symm]
        · rw [dif_neg ht]
          simp only [List.head?_cons, Option.some.injEq, Option.isSome_none, Bool.false_eq_true,
            false_iff, not_or]
          exact ⟨fun h => hq ⟨h.1, h.2.1⟩, fun h => ht ⟨h.1, h.2.1⟩⟩

/--
**The receive loop keeps to message boundaries.**  For every stream of messages and
every pattern of calls of `recv` that fail: a topic and its payload are neighbouring
frames of one message; a message of two frames that has been received, and in whose
middle no call failed, is delivered exactly as if it were alone, which its first byte
and the payload's length decide; and one in whose middle a call failed is not delivered.
-/
theorem frames_stay_together (cb : Callbacks) {es : List Event} {s : State}
    (h : machine.Exec es s) :
    (∀ x ∈ machine.log handled es, x.Together s.stream) ∧
    ∀ j topic data, s.stream[j]? = some ⟨topic, [data]⟩ → j < s.message →
      (j ∉ machine.log interrupted es → ∃ now,
        deliveriesOf cb j es = deliveriesOf cb 0 (aloneRun topic data now) ∧
        (deliveriesOf cb j es ≠ [] ↔
          (topic.head? = some (byteOf 'Q') ∧ data.length = sizeofQuote ∧ cb.onQuote = true) ∨
          (topic.head? = some (byteOf 'T') ∧ data.length = sizeofTrade ∧ cb.onTrade = true))) ∧
      (j ∈ machine.log interrupted es → deliveriesOf cb j es = []) := by
  obtain ⟨-, hprogress⟩ := progress_of_exec h
  refine ⟨hprogress.together, ?_⟩
  intro j topic data htwo hj
  have hof : deliveriesOf cb j es =
      (handledOf j (machine.log handled es)).filterMap (Handled.deliver cb) := rfl
  rcases hprogress.behind j topic data htwo hj with ⟨hnot, now, hone⟩ | ⟨hmem, hnone⟩
  · refine ⟨fun _ => ⟨now, ?_⟩, fun hmem => absurd hmem hnot⟩
    have hdeliver : deliveriesOf cb j es = (handle cb now topic data).toList := by
      rw [hof, hone]
      cases hd : handle cb now topic data <;> simp [Handled.deliver, hd]
    rw [hdeliver, deliveriesOf_aloneRun, ← handle_isSome_iff cb now]
    refine ⟨rfl, ?_⟩
    cases handle cb now topic data <;> simp
  · refine ⟨fun hnot => absurd hmem hnot, fun _ => ?_⟩
    rw [hof, hnone]
    rfl

/-- A message of three frames, one of two frames in whose middle `recv` times out, and
one of two frames that is a quote. -/
def threeMessages : List Event :=
  [.arrive ⟨[byteOf 'Q'], [[], [byteOf 'T']]⟩, .arrive ⟨[byteOf 'T'], [List.replicate 40 0]⟩,
    .arrive ⟨[byteOf 'Q'], [List.replicate 48 0]⟩, .start]

/-- An iteration in which both calls of `recv` bring a frame. -/
def wholeIteration : List Event := [.checkStop, .recv .frame 1, .rcvmore, .recv .frame 2]

/-- An iteration whose topic is the last frame of its message. -/
def shortIteration : List Event := [.checkStop, .recv .frame 3, .rcvmore]

/-- An iteration whose payload does not come in time. -/
def lateIteration : List Event := [.checkStop, .recv .frame 4, .rcvmore, .recv .timeout 5]

def boundaryRun : List Event :=
  threeMessages ++ wholeIteration ++ shortIteration ++ lateIteration ++ shortIteration ++
    wholeIteration

theorem boundaryRun_goes : (machine.run machine.init boundaryRun).isSome = true := by
  decide +kernel

theorem frames_stay_together_boundaryRun :
    1 ∈ machine.log interrupted boundaryRun ∧ 2 ∉ machine.log interrupted boundaryRun ∧
    deliveriesOf Callbacks.both 1 boundaryRun = [] ∧
    ∃ now, deliveriesOf Callbacks.both 2 boundaryRun =
      deliveriesOf Callbacks.both 0 (aloneRun [byteOf 'Q'] (List.replicate 48 0) now) := by
  have htogether := (frames_stay_together Callbacks.both (exec_final boundaryRun_goes)).2
  have hinterrupted : 1 ∈ machine.log interrupted boundaryRun := by decide +kernel
  have hwhole : 2 ∉ machine.log interrupted boundaryRun := by decide +kernel
  refine ⟨hinterrupted, hwhole, ?_, ?_⟩
  · exact (htogether 1 [byteOf 'T'] (List.replicate 40 0) (by decide +kernel)
      (by decide +kernel)).2 hinterrupted
  · obtain ⟨now, heq, -⟩ := (htogether 2 [byteOf 'Q'] (List.replicate 48 0) (by decide +kernel)
      (by decide +kernel)).1 hwhole
    exact ⟨now, heq⟩

end MarketData.ZmqFeedHandler
