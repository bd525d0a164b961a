/-
One producer, one consumer, and stop requests that reach the thread they are meant for.

The queue may only be used by one thread that pushes and one that pops.  Nothing in the
queue enforces this; it follows from `start` and `stop`, as long as one thread makes the
calls.  `Owned` says why: every thread that has not finished is the thread of the
`jthread` of its component, the member or the one that `start` is about to move there.

Stop requests are followed through the log.  `History` says that the stop state of the
current thread has been requested exactly if a `stop` of the component made its request
after the thread was created.  For the generator this rests on two things: `start`
replaces `stop_source_` only while there is no thread, and it does so before the new
thread exists, so that it makes no difference when the thread fetches its token.
-/
import MarketData.Lib.History
import MarketData.Lifecycle

namespace MarketData

open Lib

namespace Lifecycle

/-! ### What a step can do -/

/-- The steps, with what is seen of each. -/
inductive Moves (s : State) : Option Act → State → Prop
  | setRate (r : BitVec 32) : Moves s none { s with messagesPerSec := r }
  | callStart (c : Component) : s.control = none → Moves s none (s.goto (some (.startTest c)))
  | returnStart (c : Component) :
      s.control = some (.startTest c) → Moves s none (s.goto none)
  | decideGenerator : s.control = some (.startTest .generator) → s.jthread .generator = none →
      Moves s none (s.goto (some .newStopSource))
  | decideSpawn (c : Component) : s.control = some (.startTest c) → s.jthread c = none →
      c ≠ .generator → Moves s none (s.goto (some (.spawn c)))
  | newStopSource : s.control = some .newStopSource → Moves s none (newStopSource s)
  | spawn (c : Component) : s.control = some (.spawn c) →
      Moves s (some (.created c s.threads.length)) (spawn s c)
  | assign (c : Component) (j : Jthread) : s.control = some (.assign c j) →
      Moves s none (assign s c j)
  | callStop (c : Component) : s.control = none →
      Moves s (some (.stopCalled c)) (s.goto (some (.stopTest c)))
  | nothingToStop (c : Component) : s.control = some (.stopTest c) → s.jthread c = none →
      Moves s (some (.stopReturned c)) (s.goto none)
  | decideStop (c : Component) : s.control = some (.stopTest c) →
      Moves s none (s.goto (some (.requestStop c)))
  | requestStop (c : Component) (j : Jthread) : s.control = some (.requestStop c) →
      s.jthread c = some j →
      Moves s (some (.stopRequested c)) ((s.request (source s c j)).goto (some (.join c)))
  | join (c : Component) (j : Jthread) (th : Thread) : s.control = some (.join c) →
      s.jthread c = some j → s.threads[j.thread]? = some th → th.pc = .finished →
      Moves s (some (.stopReturned c))
        { s with jthread := Function.update s.jthread c none, control := none }
  | worker (t : Nat) (th : Thread) (pc : Pc) : s.threads[t]? = some th → th.pc ≠ .finished →
      Moves s (workerAct s t th)
        { s with threads := s.threads.set t { th with token := some (th.stopState s), pc := pc } }

theorem moves_startTest {s : State} {c : Component} (hpc : s.control = some (.startTest c)) :
    Moves s none (startTest s c) := by
  unfold startTest
  by_cases hr : c = .generator ∧ s.messagesPerSec = 0
  · rw [if_pos hr]
    exact .returnStart c hpc
  · rw [if_neg hr]
    cases hj : s.jthread c with
    | some j => exact .returnStart c hpc
    | none =>
        by_cases hc : c = .generator
        · subst hc
          exact .decideGenerator hpc hj
        · rw [if_neg hc]
          exact .decideSpawn c hpc hj hc

theorem moves_stopTest {s : State} {c : Component} (hpc : s.control = some (.stopTest c)) :
    Moves s (controlAct s (.stopTest c)) (stopTest s c) := by
  cases hj : s.jthread c with
  | none =>
      simp only [controlAct, stopTest, hj, if_true]
      exact .nothingToStop c hpc hj
  | some j =>
      simp only [controlAct, stopTest, hj, reduceCtorEq, if_false]
      exact .decideStop c hpc

theorem moves_join {s s' : State} {c : Component} (hpc : s.control = some (.join c))
    (h : join s c = some s') : Moves s (some (.stopReturned c)) s' := by
  obtain ⟨j, hj, h⟩ := Option.bind_eq_some_iff.mp h
  cases hth : s.threads[j.thread]? with
  | none => simp [hth] at h
  | some th =>
      rw [hth, Option.map_some] at h
      split at h
      · next hfin =>
          rw [← Option.some.inj h]
          exact .join c j th hpc hj hth (Option.some.inj hfin)
      · cases h

theorem moves_control {s s' : State} {pc : Control} (hpc : s.control = some pc)
    (h : controlStep s pc = some s') : Moves s (controlAct s pc) s' := by
  cases pc with
  | startTest c => exact Option.some.inj h ▸ moves_startTest hpc
  | newStopSource => exact Option.some.inj h ▸ .newStopSource hpc
  | spawn c => exact Option.some.inj h ▸ .spawn c hpc
  | assign c j => exact Option.some.inj h ▸ .assign c j hpc
  | stopTest c => exact Option.some.inj h ▸ moves_stopTest hpc
  | requestStop c =>
      obtain ⟨j, hj, rfl⟩ := Option.map_eq_some_iff.mp h
      exact .requestStop c j hpc hj
  | join c => exact moves_join hpc h

/-- A thread that has finished takes no step. -/
theorem loop_finished (c : Component) (stopRequested outcome : Bool) :
    loop c stopRequested outcome .finished = none := by
  cases c <;> rfl

theorem moves_worker {s s' : State} {t : Nat} {outcome : Bool}
    (h : workerStep s t outcome = some s') : Moves s ((s.threads[t]?).bind (workerAct s t)) s' := by
  obtain ⟨th, hth, h⟩ := Option.bind_eq_some_iff.mp h
  obtain ⟨th', hstep, rfl⟩ := Option.map_eq_some_iff.mp h
  obtain ⟨pc, hpc, rfl⟩ := Option.map_eq_some_iff.mp hstep
  rw [hth, Option.bind_some]
  refine .worker t th pc hth fun hfin => ?_
  rw [hfin, loop_finished] at hpc
  cases hpc

theorem moves_of_step {s s' : State} {e : Event} (h : step s e = some s') :
    Moves s (act s e) s' := by
  cases e with
  | setRate r =>
      obtain ⟨-, h⟩ := Option.ite_none_right_eq_some.mp h
      rw [← Option.some.inj h]
      by_cases hr : r < 1
      · rw [if_pos hr]
        exact .setRate s.messagesPerSec
      · rw [if_neg hr]
        exact .setRate r
  | start c =>
      obtain ⟨hpc, h⟩ := Option.ite_none_right_eq_some.mp h
      exact Option.some.inj h ▸ .callStart c hpc
  | stop c =>
      obtain ⟨hpc, h⟩ := Option.ite_none_right_eq_some.mp h
      exact Option.some.inj h ▸ .callStop c hpc
  | control =>
      obtain ⟨pc, hpc, h⟩ := Option.bind_eq_some_iff.mp h
      show Moves s (s.control.bind (controlAct s)) s'
      rw [hpc]
      exact moves_control hpc h
  | worker t outcome => exact moves_worker h

/-! ### Every thread has its place -/

/-- The `jthread` of a component: the member, or the one on its way there. -/
def State.current (s : State) (c : Component) : Option Jthread :=
  match s.control with
  | some (.assign c' j) => if c' = c then some j else s.jthread c
  | _ => s.jthread c

/-- No `jthread` is on its way into a member. -/
def Settled : Option Control → Prop
  | some (.assign _ _) => False
  | _ => True

theorem current_of_settled {s : State} (h : Settled s.control) (c : Component) :
    s.current c = s.jthread c := by
  unfold State.current
  split
  · next hpc =>
      rw [hpc] at h
      exact h.elim
  · rfl

theorem current_goto {s : State} {pc : Option Control} (hs : Settled s.control)
    (hpc : Settled pc) : (s.goto pc).current = s.current := by
  funext c
  rw [current_of_settled hs]
  exact current_of_settled (s := s.goto pc) hpc c

theorem current_of_assign {s : State} {c : Component} {j : Jthread}
    (h : s.control = some (.assign c j)) :
    s.current = Function.update s.jthread c (some j) := by
  funext c'
  simp only [State.current, h, Function.update_apply, eq_comm (a := c)]

/-- The component for which `start` is about to create a thread. -/
def starting : Option Control → Option Component
  | some .newStopSource => some .generator
  | some (.spawn c) => some c
  | _ => none

/-- The token of a thread, if it has one, is that of the stop state which `stop` uses. -/
def HasToken (s : State) (th : Thread) : Component → Jthread → Prop
  | .generator, _ => th.token.getD s.stopSource = s.stopSource
  | _, j => th.token = some j.source

theorem HasToken.stopState {s : State} {th : Thread} {c : Component} {j : Jthread}
    (h : HasToken s th c j) : th.stopState s = source s c j := by
  cases c with
  | generator => exact h
  | disseminator => exact congrArg (Option.getD · s.stopSource) h
  | feedHandler => exact congrArg (Option.getD · s.stopSource) h

/-- The stop states that are in use, and for what. -/
inductive Uses (s : State) : Component → Nat → Prop
  | stopSource : Uses s .generator s.stopSource
  | jthread (c : Component) (j : Jthread) : c ≠ .generator → s.current c = some j →
      Uses s c j.source

theorem source_congr {s s' : State} {c : Component} {j : Jthread}
    (h : s'.stopSource = s.stopSource) : source s' c j = source s c j := by
  cases c with
  | generator => exact h
  | disseminator => rfl
  | feedHandler => rfl

theorem stopRequested_congr {s s' : State} (hreq : s'.stopRequested = s.stopRequested)
    (hsrc : s'.stopSource = s.stopSource) (c : Component) (j : Jthread) :
    s'.stopRequested[source s' c j]? = s.stopRequested[source s c j]? := by
  rw [hreq, source_congr hsrc]

theorem uses_source {s : State} {c : Component} {j : Jthread} (h : s.current c = some j) :
    Uses s c (source s c j) := by
  cases c with
  | generator => exact .stopSource
  | disseminator => exact .jthread _ j (by decide) h
  | feedHandler => exact .jthread _ j (by decide) h

/-- `live` and `thread` tie the threads to the `jthread`s; the rest keeps the stop states
of the three components apart. -/
structure Owned (s : State) : Prop where
  live : ∀ c t, Live s c t → ∃ j, s.current c = some j ∧ j.thread = t
  thread : ∀ c j, s.current c = some j →
    ∃ th, s.threads[j.thread]? = some th ∧ th.component = c ∧ HasToken s th c j
  none_of_starting : ∀ c, starting s.control = some c → s.jthread c = none
  new_stopSource : s.control = some (.spawn .generator) →
    s.stopRequested[s.stopSource]? = some false
  uses_lt : ∀ c k, Uses s c k → k < s.stopRequested.length
  uses_apart : ∀ c c' k, Uses s c k → Uses s c' k → c = c'

theorem uses_initial {c : Component} {k : Nat} (h : Uses State.initial c k) :
    c = .generator ∧ k = 0 := by
  cases h with
  | stopSource => exact ⟨rfl, rfl⟩
  | jthread c j _ hj => cases hj

theorem Owned.initial : Owned State.initial where
  live := by rintro c t ⟨th, hth, -⟩; cases hth
  thread := by intro c j h; cases h
  none_of_starting := by intro c h; cases h
  new_stopSource := by intro h; cases h
  uses_lt := by
    intro c k h
    rw [(uses_initial h).2]
    decide
  uses_apart := by
    intro c c' k h h'
    rw [(uses_initial h).1, (uses_initial h').1]

/-- A component may take up a stop state that has just been made. -/
theorem Owned.uses_fresh {s s' : State} (h : Owned s) (d : Component)
    (huses : ∀ c k, Uses s' c k → Uses s c k ∨ (c = d ∧ k = s.stopRequested.length)) :
    (∀ c k, Uses s' c k → k < s.stopRequested.length + 1) ∧
      ∀ c c' k, Uses s' c k → Uses s' c' k → c = c' := by
  refine ⟨fun c k hk => ?_, fun c c' k hk hk' => ?_⟩
  · rcases huses c k hk with hk | ⟨-, rfl⟩
    · exact Nat.lt_succ_of_lt (h.uses_lt c k hk)
    · exact Nat.lt_succ_self _
  · rcases huses c k hk with hk | ⟨rfl, rfl⟩
    · rcases huses c' k hk' with hk' | ⟨-, rfl⟩
      · exact h.uses_apart c c' k hk hk'
      · exact absurd (h.uses_lt c _ hk) (Nat.lt_irrefl _)
    · rcases huses c' _ hk' with hk' | ⟨rfl, -⟩
      · exact absurd (h.uses_lt c' _ hk') (Nat.lt_irrefl _)
      · rfl

theorem Uses.congr {s s' : State} {c : Component} {k : Nat} (h : Uses s' c k)
    (hcur : ∀ c j, s'.current c = some j → s.current c = some j)
    (hsrc : s'.stopSource = s.stopSource) : Uses s c k := by
  cases h with
  | stopSource =>
      rw [hsrc]
      exact .stopSource
  | jthread c j hc hj => exact .jthread c j hc (hcur c j hj)

theorem HasToken.congr {s s' : State} {th : Thread} {c : Component} {j : Jthread}
    (h : HasToken s th c j) (hsrc : s'.stopSource = s.stopSource) : HasToken s' th c j := by
  cases c with
  | generator =>
      show th.token.getD s'.stopSource = s'.stopSource
      rw [hsrc]
      exact h
  | disseminator => exact h
  | feedHandler => exact h

/-! ### The steps of the controlling thread -/

/-- A step that changes neither the threads nor which `jthread`s there are. -/
theorem Owned.congr {s s' : State} (h : Owned s) (hcur : s'.current = s.current)
    (hthreads : s'.threads = s.threads) (hsrc : s'.stopSource = s.stopSource)
    (hlen : s'.stopRequested.length = s.stopRequested.length)
    (hnone : ∀ c, starting s'.control = some c → s'.jthread c = none)
    (hnew : s'.control = some (.spawn .generator) →
      s'.stopRequested[s'.stopSource]? = some false) : Owned s' := by
  have huses : ∀ {c k}, Uses s' c k → Uses s c k := fun hk =>
    hk.congr (fun c j hj => hcur ▸ hj) hsrc
  refine ⟨?_, ?_, hnone, hnew, ?_, ?_⟩
  · rintro c t ⟨th, hth, hlive⟩
    rw [hthreads] at hth
    rw [hcur]
    exact h.live c t ⟨th, hth, hlive⟩
  · intro c j hj
    rw [hcur] at hj
    obtain ⟨th, hth, hc, htok⟩ := h.thread c j hj
    exact ⟨th, by rw [hthreads]; exact hth, hc, htok.congr hsrc⟩
  · intro c k hk
    rw [hlen]
    exact h.uses_lt c k (huses hk)
  · intro c c' k hk hk'
    exact h.uses_apart c c' k (huses hk) (huses hk')

/-- A step inside a call that changes nothing but the place in it. -/
theorem Owned.goto {s : State} {pc : Option Control} (h : Owned s) (hs : Settled s.control)
    (hpc : Settled pc) (hnone : ∀ c, starting pc = some c → s.jthread c = none)
    (hnew : pc ≠ some (.spawn .generator)) : Owned (s.goto pc) := by
  exact h.congr (current_goto hs hpc) rfl rfl rfl hnone fun hp => absurd hp hnew

theorem Owned.goto_idle {s : State} {pc : Option Control} (h : Owned s) (hs : Settled s.control)
    (hpc : Settled pc) (hidle : starting pc = none) : Owned (s.goto pc) := by
  refine h.goto hs hpc ?_ ?_
  · intro c hc
    rw [hidle] at hc
    cases hc
  · intro hspawn
    rw [hspawn] at hidle
    cases hidle

theorem Owned.assign {s : State} {c : Component} {j : Jthread} (h : Owned s)
    (hpc : s.control = some (.assign c j)) : Owned (assign s c j) := by
  refine h.congr ?_ rfl rfl rfl ?_ ?_
  · rw [current_of_assign hpc]
    rfl
  · intro c' hc'
    cases hc'
  · intro hp
    cases hp

theorem Owned.requestStop {s : State} {c : Component} (h : Owned s) (k : Nat)
    (hpc : s.control = some (.requestStop c)) :
    Owned ((s.request k).goto (some (.join c))) := by
  refine h.congr (funext fun c' => ?_) rfl rfl List.length_set ?_ ?_
  · rw [current_of_settled (s := s) (by rw [hpc]; trivial)]
    rfl
  · intro c' hc'
    cases hc'
  · intro hp
    cases hp

/-- The generator has no thread that could still fetch its token from `stop_source_`. -/
theorem Owned.newStopSource {s : State} (h : Owned s) (hpc : s.control = some .newStopSource) :
    Owned (newStopSource s) := by
  have hcur : ∀ c, (Lifecycle.newStopSource s).current c = s.current c := by
    intro c
    rw [current_of_settled (s := s) (by rw [hpc]; trivial)]
    rfl
  have hnone : s.jthread .generator = none := h.none_of_starting _ (by rw [hpc]; rfl)
  have huses := h.uses_fresh .generator fun c k (hk : Uses (Lifecycle.newStopSource s) c k) => by
    cases hk with
    | stopSource => exact .inr ⟨rfl, rfl⟩
    | jthread c j hc hj => exact .inl (.jthread c j hc (hcur c ▸ hj))
  refine ⟨?_, ?_, ?_, ?_, ?_, huses.2⟩
  · intro c t ht
    rw [hcur]
    exact h.live c t ht
  · intro c j hj
    rw [hcur] at hj
    obtain ⟨th, hth, hc, htok⟩ := h.thread c j hj
    refine ⟨th, hth, hc, ?_⟩
    cases c with
    | generator =>
        rw [current_of_settled (by rw [hpc]; trivial), hnone] at hj
        cases hj
    | disseminator => exact htok
    | feedHandler => exact htok
  · rintro c hc
    cases hc
    exact hnone
  · intro _
    exact List.getElem?_concat_length
  · intro c k hk
    show k < (s.stopRequested ++ [false]).length
    rw [List.length_append]
    exact huses.1 c k hk

theorem current_spawn {s : State} {c : Component} (hs : Settled s.control) :
    (spawn s c).current = Function.update s.current c
      (some { thread := s.threads.length, source := s.stopRequested.length }) := by
  rw [current_of_assign (s := spawn s c) rfl, show s.current = s.jthread from
    funext (current_of_settled hs)]
  rfl

theorem of_current_spawn {s : State} {c c' : Component} {j : Jthread} (hs : Settled s.control)
    (hj : (spawn s c).current c' = some j) :
    (c' = c ∧ j = { thread := s.threads.length, source := s.stopRequested.length }) ∨
      (c' ≠ c ∧ s.current c' = some j) := by
  rw [current_spawn hs] at hj
  by_cases hc : c' = c
  · subst hc
    rw [Function.update_self] at hj
    exact .inl ⟨rfl, (Option.some.inj hj).symm⟩
  · rw [Function.update_of_ne hc] at hj
    exact .inr ⟨hc, hj⟩

/-- There was no thread of the component, so the new one is its only one. -/
theorem Owned.spawn {s : State} {c : Component} (h : Owned s)
    (hpc : s.control = some (.spawn c)) : Owned (spawn s c) := by
  have hs : Settled s.control := by rw [hpc]; trivial
  have hnone : s.current c = none := by
    rw [current_of_settled hs]
    exact h.none_of_starting c (by rw [hpc]; rfl)
  have huses := h.uses_fresh c fun c' k (hk : Uses (Lifecycle.spawn s c) c' k) => by
    cases hk with
    | stopSource => exact .inl .stopSource
    | jthread c' j hc hj =>
        rcases of_current_spawn hs hj with ⟨rfl, rfl⟩ | ⟨-, hj⟩
        · exact .inr ⟨rfl, rfl⟩
        · exact .inl (.jthread c' j hc hj)
  refine ⟨?_, ?_, ?_, ?_, ?_, huses.2⟩
  · rintro c' t ⟨th, hth, rfl, hlive⟩
    rw [current_spawn hs]
    rcases of_getElem?_snoc hth with hth | ⟨rfl, rfl⟩
    · obtain ⟨j, hj, hjt⟩ := h.live th.component t ⟨th, hth, rfl, hlive⟩
      have hc : th.component ≠ c := by
        intro hc
        rw [hc, hnone] at hj
        cases hj
      exact ⟨j, by rw [Function.update_of_ne hc, hj], hjt⟩
    · exact ⟨_, Function.update_self .., rfl⟩
  · intro c' j hj
    rcases of_current_spawn hs hj with ⟨rfl, rfl⟩ | ⟨-, hj⟩
    · refine ⟨_, List.getElem?_concat_length, rfl, ?_⟩
      cases c' <;> rfl
    · obtain ⟨th, hth, hc', htok⟩ := h.thread c' j hj
      exact ⟨th, getElem?_snoc _ hth, hc', htok.congr rfl⟩
  · intro c' hc'
    cases hc'
  · intro hp
    cases hp
  · intro c' k hk
    show k < (s.stopRequested ++ [false]).length
    rw [List.length_append]
    exact huses.1 c' k hk

/-- A new thread has a stop state of which nobody has requested a stop. -/
theorem Owned.spawn_not_requested {s : State} {c : Component} (h : Owned s)
    (hpc : s.control = some (.spawn c)) :
    (Lifecycle.spawn s c).stopRequested[source (Lifecycle.spawn s c) c
      { thread := s.threads.length, source := s.stopRequested.length }]? = some false := by
  cases c with
  | generator => exact getElem?_snoc false (h.new_stopSource hpc)
  | disseminator => exact List.getElem?_concat_length
  | feedHandler => exact List.getElem?_concat_length

/-- The thread that is joined has finished, and it was the last one of its component. -/
theorem Owned.join {s : State} {c : Component} {j : Jthread} {th : Thread} (h : Owned s)
    (hpc : s.control = some (.join c)) (hj : s.jthread c = some j)
    (hth : s.threads[j.thread]? = some th) (hfin : th.pc = .finished) :
    Owned { s with jthread := Function.update s.jthread c none, control := none } := by
  have hs : ∀ c', s.current c' = s.jthread c' := current_of_settled (by rw [hpc]; trivial)
  have hcur : ∀ c' j', Function.update s.jthread c none c' = some j' →
      s.current c' = some j' := by
    intro c' j' hj'
    by_cases hc : c' = c
    · rw [hc, Function.update_self] at hj'
      cases hj'
    · rw [Function.update_of_ne hc] at hj'
      rw [hs, hj']
  refine ⟨?_, ?_, ?_, ?_, ?_, ?_⟩
  · rintro c' t ⟨th', hth', hc', hlive⟩
    obtain ⟨j', hj', rfl⟩ := h.live c' t ⟨th', hth', hc', hlive⟩
    refine ⟨j', ?_, rfl⟩
    show Function.update s.jthread c none c' = some j'
    rw [hs] at hj'
    by_cases hc : c' = c
    · subst hc
      rw [hj, Option.some.injEq] at hj'
      rw [← hj', hth, Option.some.injEq] at hth'
      exact absurd (hth' ▸ hfin) hlive
    · rw [Function.update_of_ne hc, hj']
  · intro c' j' hj'
    obtain ⟨th', hth', hc', htok⟩ := h.thread c' j' (hcur c' j' hj')
    exact ⟨th', hth', hc', htok.congr rfl⟩
  · intro c' hc'
    cases hc'
  · intro hp
    cases hp
  · intro c' k hk
    exact h.uses_lt c' k (hk.congr hcur rfl)
  · intro c' c'' k hk hk'
    exact h.uses_apart c' c'' k (hk.congr hcur rfl) (hk'.congr hcur rfl)

/-! ### The steps of the workers -/

theorem HasToken.fetched {s : State} {th : Thread} {c : Component} {j : Jthread}
    (h : HasToken s th c j) (pc : Pc) :
    HasToken s { th with token := some (th.stopState s), pc := pc } c j := by
  cases c with
  | generator => exact h.stopState
  | disseminator => exact congrArg some h.stopState
  | feedHandler => exact congrArg some h.stopState

theorem Owned.worker {s : State} {t : Nat} {th : Thread} (h : Owned s)
    (hth : s.threads[t]? = some th) (hlive : th.pc ≠ .finished) (pc : Pc) :
    Owned { s with
      threads := s.threads.set t { th with token := some (th.stopState s), pc := pc } } := by
  obtain ⟨hlt, -⟩ := List.getElem?_eq_some_iff.mp hth
  refine ⟨?_, ?_, h.none_of_starting, h.new_stopSource, ?_, ?_⟩
  · rintro c u ⟨th', hth', hc, hlive'⟩
    refine h.live c u ?_
    by_cases hu : t = u
    · subst hu
      rw [show (s.threads.set t _)[t]? = _ from List.getElem?_set_self hlt,
        Option.some.injEq] at hth'
      rw [← hth'] at hc
      exact ⟨th, hth, hc, hlive⟩
    · rw [show (s.threads.set t _)[u]? = _ from List.getElem?_set_ne hu] at hth'
      exact ⟨th', hth', hc, hlive'⟩
  · intro c j hj
    obtain ⟨th', hth', hc, htok⟩ := h.thread c j hj
    by_cases hu : t = j.thread
    · subst hu
      rw [hth, Option.some.injEq] at hth'
      subst hth'
      exact ⟨_, List.getElem?_set_self hlt, hc, (htok.fetched pc).congr rfl⟩
    · exact ⟨th', (List.getElem?_set_ne hu).trans hth', hc, htok.congr rfl⟩
  · intro c k hk
    exact h.uses_lt c k (hk.congr (fun _ _ hj => hj) rfl)
  · intro c c' k hk hk'
    exact h.uses_apart c c' k (hk.congr (fun _ _ hj => hj) rfl) (hk'.congr (fun _ _ hj => hj) rfl)

/-- **Every step keeps the threads with their `jthread`s.** -/
theorem Owned.step {s s' : State} {o : Option Act} (h : Owned s) (hm : Moves s o s') :
    Owned s' := by
  cases hm with
  | setRate r => exact h.congr rfl rfl rfl rfl h.none_of_starting h.new_stopSource
  | callStart c hpc => exact h.goto_idle (by rw [hpc]; trivial) trivial rfl
  | returnStart c hpc => exact h.goto_idle (by rw [hpc]; trivial) trivial rfl
  | decideGenerator hpc hj =>
      refine h.goto (by rw [hpc]; trivial) trivial ?_ (by simp)
      intro c' hc'
      cases hc'
      exact hj
  | decideSpawn c hpc hj hc =>
      refine h.goto (by rw [hpc]; trivial) trivial ?_ (by simpa using hc)
      intro c' hc'
      cases hc'
      exact hj
  | newStopSource hpc => exact h.newStopSource hpc
  | spawn c hpc => exact h.spawn hpc
  | assign c j hpc => exact h.assign hpc
  | callStop c hpc => exact h.goto_idle (by rw [hpc]; trivial) trivial rfl
  | nothingToStop c hpc hj => exact h.goto_idle (by rw [hpc]; trivial) trivial rfl
  | decideStop c hpc => exact h.goto_idle (by rw [hpc]; trivial) trivial rfl
  | requestStop c j hpc hj => exact h.requestStop _ hpc
  | join c j th hpc hj hth hfin => exact h.join hpc hj hth hfin
  | worker t th pc hth hlive => exact h.worker hth hlive pc

/-! ### What the log says -/

/-- The component whose `stop` is under way. -/
def stopping : Option Control → Option Component
  | some (.stopTest c) => some c
  | some (.requestStop c) => some c
  | some (.join c) => some c
  | _ => none

/-- A thread sees a stop request exactly if one was made after it was created, and then
`stop` was called after it was created. -/
def Truthful (before : List Act) : Act → Prop
  | .tested c t seen =>
      (seen = true ↔ Follows before (.created c t) (.stopRequested c)) ∧
        (seen = true → Follows before (.created c t) (.stopCalled c))
  | _ => True

/-- The log of a run, and the state it ends in. -/
structure History (l : List Act) (s : State) : Prop where
  created : ∀ c j, s.current c = some j → .created c j.thread ∈ l
  created_lt : ∀ c t, .created c t ∈ l → t < s.threads.length
  requested : ∀ c j, s.current c = some j →
    (s.stopRequested[source s c j]? = some true ↔
      Follows l (.created c j.thread) (.stopRequested c))
  called : ∀ c t, stopping s.control = some c → .created c t ∈ l →
    Follows l (.created c t) (.stopCalled c)
  called_of_requested : ∀ c t, Follows l (.created c t) (.stopRequested c) →
    Follows l (.created c t) (.stopCalled c)
  joining : ∀ c j, s.control = some (.join c) → s.current c = some j →
    Follows l (.created c j.thread) (.stopRequested c)
  returned : ∀ c, NoneSince l (.stopReturned c) (fun a => ∃ t, a = .created c t) →
    s.current c = none
  tested : EachAfter Truthful l

theorem History.initial : History [] State.initial where
  created := by intro c j h; cases h
  created_lt := by intro c t h; cases h
  requested := by intro c j h; cases h
  called := by intro c t _ h; cases h
  called_of_requested := by intro c t h; cases h.mem
  joining := by intro c j h; cases h
  returned := by intro c h; exact absurd h not_noneSince_nil
  tested := EachAfter.nil

/-- A step that neither creates a thread nor requests a stop. -/
theorem History.step_of {l : List Act} {s s' : State} {o : Option Act} (h : History l s)
    (hcur : ∀ c j, s'.current c = some j → s.current c = some j)
    (hthreads : s'.threads.length = s.threads.length)
    (hreq : ∀ c j, s'.current c = some j →
      s'.stopRequested[source s' c j]? = s.stopRequested[source s c j]?)
    (hstop : ∀ c, stopping s'.control = some c →
      stopping s.control = some c ∨ o = some (.stopCalled c))
    (hjoin : ∀ c, s'.control = some (.join c) → s.control = some (.join c))
    (hcreate : ∀ c t, o ≠ some (.created c t)) (hrequest : ∀ c, o ≠ some (.stopRequested c))
    (hret : ∀ c, o = some (.stopReturned c) → s'.current c = none)
    (htest : ∀ a, o = some a → Truthful l a) : History (l ++ o.toList) s' := by
  have hmem : ∀ {c t}, Act.created c t ∈ l ++ o.toList → Act.created c t ∈ l := by
    intro c t hm
    rcases List.mem_append.mp hm with hm | hm
    · exact hm
    · exact absurd (Option.mem_toList.mp hm) (hcreate c t)
  have hfollows : ∀ {a c}, Follows (l ++ o.toList) a (.stopRequested c) ↔
      Follows l a (.stopRequested c) := by
    intro a c
    rw [follows_append]
    exact or_iff_left fun hx => hrequest c hx.2
  refine ⟨?_, ?_, ?_, ?_, ?_, ?_, ?_, h.tested.append htest⟩
  · intro c j hj
    exact List.mem_append_left _ (h.created c j (hcur c j hj))
  · intro c t hm
    rw [hthreads]
    exact h.created_lt c t (hmem hm)
  · intro c j hj
    rw [hreq c j hj, hfollows]
    exact h.requested c j (hcur c j hj)
  · intro c t hc hm
    rcases hstop c hc with hc | ho
    · exact (h.called c t hc (hmem hm)).append o
    · exact follows_append.mpr (.inr ⟨hmem hm, ho⟩)
  · intro c t hf
    exact (h.called_of_requested c t (hfollows.mp hf)).append o
  · intro c j hc hj
    exact (h.joining c j (hjoin c hc) (hcur c j hj)).append o
  · intro c hn
    rcases hn.of_append with ho | ⟨hn, -⟩
    · exact hret c ho
    · cases hj : s'.current c with
      | none => rfl
      | some j =>
          have hnone := h.returned c hn
          rw [hcur c j hj] at hnone
          cases hnone

/-- Such a step that shows nothing. -/
theorem History.quiet {l : List Act} {s s' : State} (h : History l s)
    (hcur : s'.current = s.current) (hthreads : s'.threads = s.threads)
    (hreq : ∀ c j, s.current c = some j →
      s'.stopRequested[source s' c j]? = s.stopRequested[source s c j]?)
    (hstop : ∀ c, stopping s'.control = some c → stopping s.control = some c)
    (hjoin : ∀ c, s'.control = some (.join c) → s.control = some (.join c)) :
    History (l ++ (none : Option Act).toList) s' := by
  refine h.step_of (fun c j hj => hcur ▸ hj) (congrArg List.length hthreads) ?_
    (fun c hc => .inl (hstop c hc)) hjoin (fun _ _ => nofun) (fun _ => nofun) (fun _ => nofun)
    (fun _ => nofun)
  intro c j hj
  rw [hcur] at hj
  exact hreq c j hj

/-- One that moves the controlling thread on. -/
theorem History.goto {l : List Act} {s : State} {pc : Option Control} (h : History l s)
    (hs : Settled s.control) (hpc : Settled pc)
    (hstop : ∀ c, stopping pc = some c → stopping s.control = some c)
    (hjoin : ∀ c, pc ≠ some (.join c)) :
    History (l ++ (none : Option Act).toList) (s.goto pc) :=
  h.quiet (current_goto hs hpc) rfl (fun _ _ _ => rfl) hstop fun c hc => absurd hc (hjoin c)

theorem History.assign {l : List Act} {s : State} {c : Component} {j : Jthread}
    (h : History l s) (hpc : s.control = some (.assign c j)) :
    History (l ++ (none : Option Act).toList) (assign s c j) := by
  refine h.quiet ?_ rfl (fun c j _ => stopRequested_congr rfl rfl c j) ?_ ?_
  · rw [current_of_assign hpc]
    rfl
  · intro c' hc'
    cases hc'
  · intro c' hc'
    cases hc'

/-- Nobody reads the old `stop_source_` any more. -/
theorem History.newStopSource {l : List Act} {s : State} (h : History l s) (ho : Owned s)
    (hpc : s.control = some .newStopSource) :
    History (l ++ (none : Option Act).toList) (newStopSource s) := by
  have hcur : ∀ c, s.current c = s.jthread c := current_of_settled (by rw [hpc]; trivial)
  refine h.quiet (funext fun c => (hcur c).symm) rfl ?_ ?_ ?_
  · intro c j hj
    have hlt : source s c j < s.stopRequested.length := ho.uses_lt _ _ (uses_source hj)
    cases c with
    | generator =>
        rw [hcur, ho.none_of_starting .generator (by rw [hpc]; rfl)] at hj
        cases hj
    | disseminator => exact List.getElem?_append_left hlt
    | feedHandler => exact List.getElem?_append_left hlt
  · intro c hc
    cases hc
  · intro c hc
    cases hc

theorem History.callStop {l : List Act} {s : State} (h : History l s) (c : Component)
    (hpc : s.control = none) :
    History (l ++ (some (Act.stopCalled c)).toList) (s.goto (some (.stopTest c))) := by
  have hcur : (s.goto (some (.stopTest c))).current = s.current :=
    current_goto (by rw [hpc]; trivial) trivial
  refine h.step_of (fun _ _ hj => hcur ▸ hj) rfl (fun _ _ _ => rfl) ?_ (fun _ => nofun)
    (fun _ _ => nofun) (fun _ => nofun) (fun _ => nofun) ?_
  · intro c' hc'
    cases hc'
    exact .inr rfl
  · intro a ha
    cases ha
    trivial

theorem History.nothingToStop {l : List Act} {s : State} {c : Component} (h : History l s)
    (hpc : s.control = some (.stopTest c)) (hj : s.jthread c = none) :
    History (l ++ (some (Act.stopReturned c)).toList) (s.goto none) := by
  have hcur : (s.goto none).current = s.current := current_goto (by rw [hpc]; trivial) trivial
  refine h.step_of (fun _ _ hj => hcur ▸ hj) rfl (fun _ _ _ => rfl) (fun _ => nofun)
    (fun _ => nofun) (fun _ _ => nofun) (fun _ => nofun) ?_ ?_
  · intro c' hc'
    cases hc'
    exact hj
  · intro a ha
    cases ha
    trivial

theorem History.spawn {l : List Act} {s : State} {c : Component} (h : History l s)
    (ho : Owned s) (hpc : s.control = some (.spawn c)) :
    History (l ++ (some (Act.created c s.threads.length)).toList) (spawn s c) := by
  have hs : Settled s.control := by rw [hpc]; trivial
  have hnew : Act.created c s.threads.length ∉ l := fun hm =>
    Nat.lt_irrefl _ (h.created_lt c _ hm)
  have hfollows : ∀ {a c'}, Follows (l ++ [.created c s.threads.length]) a (.stopRequested c') ↔
      Follows l a (.stopRequested c') := by
    intro a c'
    rw [follows_snoc]
    exact or_iff_left fun hx => nomatch hx.2
  refine ⟨?_, ?_, ?_, ?_, ?_, ?_, ?_, h.tested.append fun a ha => ?_⟩
  · intro c' j hj
    rcases of_current_spawn hs hj with ⟨rfl, rfl⟩ | ⟨-, hj⟩
    · simp
    · exact List.mem_append_left _ (h.created c' j hj)
  · intro c' t hm
    show t < (s.threads ++ [_]).length
    rw [List.length_append]
    rcases List.mem_append.mp hm with hm | hm
    · exact Nat.lt_succ_of_lt (h.created_lt c' t hm)
    · rw [Option.toList_some, List.mem_singleton, Act.created.injEq] at hm
      rw [hm.2]
      exact Nat.lt_succ_self _
  · intro c' j hj
    rw [Option.toList_some, hfollows]
    rcases of_current_spawn hs hj with ⟨rfl, rfl⟩ | ⟨-, hj⟩
    · refine iff_of_false ?_ fun hf => hnew hf.mem
      rw [ho.spawn_not_requested hpc]
      simp
    · have hsrc : source (Lifecycle.spawn s c) c' j = source s c' j := source_congr rfl
      rw [← h.requested c' j hj, hsrc,
        show (Lifecycle.spawn s c).stopRequested = s.stopRequested ++ [false] from rfl,
        List.getElem?_append_left (ho.uses_lt _ _ (uses_source hj))]
  · intro c' t hc'
    cases hc'
  · intro c' t hf
    exact (h.called_of_requested c' t (hfollows.mp hf)).append _
  · intro c' j hc'
    cases hc'
  · intro c' hn
    rcases hn.of_append with ho | ⟨hn, hc⟩
    · cases ho
    · have hne : c' ≠ c := fun hcc => hc _ rfl ⟨_, by rw [hcc]⟩
      rw [current_spawn hs, Function.update_of_ne hne]
      exact h.returned c' hn
  · rw [← Option.some.inj ha]
    trivial

theorem History.requestStop {l : List Act} {s : State} {c : Component} {j : Jthread}
    (h : History l s) (ho : Owned s) (hpc : s.control = some (.requestStop c))
    (hj : s.jthread c = some j) :
    History (l ++ (some (Act.stopRequested c)).toList)
      ((s.request (source s c j)).goto (some (.join c))) := by
  have hs : Settled s.control := by rw [hpc]; trivial
  rw [← current_of_settled hs] at hj
  have hcur : ∀ c', s.jthread c' = s.current c' := fun c' => (current_of_settled hs c').symm
  have hmem : ∀ {c' t}, Act.created c' t ∈ l ++ (some (Act.stopRequested c)).toList →
      Act.created c' t ∈ l := by
    intro c' t hm
    simpa using hm
  refine ⟨?_, ?_, ?_, ?_, ?_, ?_, ?_, h.tested.append fun a ha => ?_⟩
  · intro c' j' hj'
    exact List.mem_append_left _ (h.created c' j' ((hcur c').symm.trans hj'))
  · intro c' t hm
    exact h.created_lt c' t (hmem hm)
  · intro c' j' hj'
    replace hj' : s.current c' = some j' := (hcur c').symm.trans hj'
    rw [follows_append]
    have hsrc : source ((s.request (source s c j)).goto (some (.join c))) c' j' =
        source s c' j' := source_congr rfl
    rw [hsrc, show ((s.request (source s c j)).goto (some (.join c))).stopRequested =
      s.stopRequested.set (source s c j) true from rfl]
    by_cases hc : c' = c
    · subst hc
      rw [hj, Option.some.injEq] at hj'
      subst hj'
      refine iff_of_true ?_ (.inr ⟨h.created c' j hj, rfl⟩)
      exact List.getElem?_set_self (ho.uses_lt _ _ (uses_source hj))
    · have hne : source s c j ≠ source s c' j' := by
        intro heq
        have huses := uses_source hj'
        rw [← heq] at huses
        exact hc (ho.uses_apart c' c _ huses (uses_source hj))
      rw [List.getElem?_set_ne hne, h.requested c' j' hj']
      refine (or_iff_left fun hx => hc ?_).symm
      cases hx.2
      rfl
  · intro c' t hc' hm
    cases hc'
    exact (h.called c t (by rw [hpc]; rfl) (hmem hm)).append _
  · intro c' t hf
    rcases follows_append.mp hf with hf | ⟨hm, hx⟩
    · exact (h.called_of_requested c' t hf).append _
    · cases hx
      exact (h.called c t (by rw [hpc]; rfl) hm).append _
  · intro c' j' hc' hj'
    cases hc'
    exact follows_append.mpr (.inr ⟨h.created c j' ((hcur c).symm.trans hj'), rfl⟩)
  · intro c' hn
    rcases hn.of_append with hx | ⟨hn, -⟩
    · cases hx
    · exact (hcur c').trans (h.returned c' hn)
  · rw [← Option.some.inj ha]
    trivial

theorem History.join {l : List Act} {s : State} {c : Component} (h : History l s)
    (hpc : s.control = some (.join c)) :
    History (l ++ (some (Act.stopReturned c)).toList)
      { s with jthread := Function.update s.jthread c none, control := none } := by
  have hcur : ∀ c', s.current c' = s.jthread c' := current_of_settled (by rw [hpc]; trivial)
  refine h.step_of ?_ rfl (fun c j _ => stopRequested_congr rfl rfl c j) ?_ ?_ ?_ ?_ ?_ ?_
  · intro c' j' (hj' : Function.update s.jthread c none c' = some j')
    by_cases hc : c' = c
    · rw [hc, Function.update_self] at hj'
      cases hj'
    · rw [Function.update_of_ne hc] at hj'
      rw [hcur, hj']
  · intro c' hc'
    cases hc'
  · intro c' hc'
    cases hc'
  · intro c' t ht
    cases ht
  · intro c' ht
    cases ht
  · intro c' ht
    cases ht
    exact Function.update_self ..
  · intro a ha
    rw [← Option.some.inj ha]
    trivial

/-- A test of the stop token tells the truth. -/
theorem History.truthful {l : List Act} {s : State} {t : Nat} {th : Thread} {a : Act}
    (h : History l s) (ho : Owned s) (hth : s.threads[t]? = some th) (hlive : th.pc ≠ .finished)
    (ha : workerAct s t th = some a) : Truthful l a := by
  obtain ⟨-, ha⟩ := Option.ite_none_right_eq_some.mp ha
  rw [← Option.some.inj ha]
  obtain ⟨j, hj, rfl⟩ := ho.live th.component t ⟨th, hth, rfl, hlive⟩
  obtain ⟨th', hth', -, htok⟩ := ho.thread th.component j hj
  rw [hth, Option.some.injEq] at hth'
  subst hth'
  have hseen : th.seesStop s = true ↔
      Follows l (.created th.component j.thread) (.stopRequested th.component) := by
    rw [← h.requested _ j hj, ← htok.stopState, Thread.seesStop]
    cases s.stopRequested[th.stopState s]? with
    | none => simp
    | some b => simp
  exact ⟨hseen, fun hs => h.called_of_requested _ _ (hseen.mp hs)⟩

theorem workerAct_eq {s : State} {t : Nat} {th : Thread} {a : Act}
    (h : workerAct s t th = some a) : a = .tested th.component t (th.seesStop s) := by
  obtain ⟨-, h⟩ := Option.ite_none_right_eq_some.mp h
  exact (Option.some.inj h).symm

theorem History.worker {l : List Act} {s : State} {t : Nat} {th : Thread} (h : History l s)
    (ho : Owned s) (hth : s.threads[t]? = some th) (hlive : th.pc ≠ .finished) (pc : Pc) :
    History (l ++ (workerAct s t th).toList)
      { s with
        threads := s.threads.set t { th with token := some (th.stopState s), pc := pc } } := by
  refine h.step_of (fun _ _ hj => hj) List.length_set
    (fun c j _ => stopRequested_congr rfl rfl c j) (fun _ hc => .inl hc) (fun _ hc => hc) ?_ ?_ ?_
    fun a ha => h.truthful ho hth hlive ha
  · intro c u hu
    cases workerAct_eq hu
  · intro c hu
    cases workerAct_eq hu
  · intro c hu
    cases workerAct_eq hu

theorem History.step {l : List Act} {s s' : State} {o : Option Act} (h : History l s)
    (ho : Owned s) (hm : Moves s o s') : History (l ++ o.toList) s' := by
  cases hm with
  | setRate r => exact h.quiet rfl rfl (fun _ _ _ => rfl) (fun _ hc => hc) fun _ hc => hc
  | callStart c hpc => exact h.goto (by rw [hpc]; trivial) trivial nofun nofun
  | returnStart c hpc => exact h.goto (by rw [hpc]; trivial) trivial nofun nofun
  | decideGenerator hpc hj => exact h.goto (by rw [hpc]; trivial) trivial nofun nofun
  | decideSpawn c hpc hj hc => exact h.goto (by rw [hpc]; trivial) trivial nofun nofun
  | newStopSource hpc => exact h.newStopSource ho hpc
  | spawn c hpc => exact h.spawn ho hpc
  | assign c j hpc => exact h.assign hpc
  | callStop c hpc => exact h.callStop c hpc
  | nothingToStop c hpc hj => exact h.nothingToStop hpc hj
  | decideStop c hpc =>
      refine h.goto (by rw [hpc]; trivial) trivial ?_ nofun
      intro c' hc'
      rw [hpc]
      exact hc'
  | requestStop c j hpc hj => exact h.requestStop ho hpc hj
  | join c j th hpc hj hth hfin => exact h.join hpc
  | worker t th pc hth hlive => exact h.worker ho hth hlive pc

/-! ### Every run -/

/-- The threads and the log of a run: at any time, and for every sequence of calls. -/
theorem owned_of_exec {es : List Event} {s : State} (h : machine.Exec es s) :
    Owned s ∧ History (machine.log act es) s := by
  refine Machine.Exec.induction (M := machine)
    (P := fun es s => Owned s ∧ History (machine.log act es) s)
    ⟨Owned.initial, History.initial⟩ ?_ h
  intro es s e s' hex ih hs
  have hm : Moves s (act s e) s' := moves_of_step hs
  rw [Machine.log_snoc act hex hs]
  exact ⟨ih.1.step hm, ih.2.step ih.1 hm⟩

/-- What the queue and the owners of the threads rely on, after a run with the log `l`:
one thread can push and one can pop; when a `stop` has returned, no thread of the
component is left until a `start` creates one; a thread that sees a stop request was
created before `stop` was called, a stop request that was made is seen at every later
test, and while `stop` waits for a thread, it has made a request to it. -/
structure Disciplined (l : List Act) (s : State) : Prop where
  push_unique : ∀ t u, CanPush s t → CanPush s u → t = u
  pop_unique : ∀ t u, CanPop s t → CanPop s u → t = u
  stopped : ∀ c A B, l = A ++ .stopReturned c :: B → (∀ t, .created c t ∉ B) → ∀ t, ¬ Live s c t
  not_stopped_early : ∀ c t A B, l = A ++ .tested c t true :: B →
    Follows A (.created c t) (.stopCalled c)
  not_missed : ∀ c t seen A B, l = A ++ .tested c t seen :: B →
    Follows A (.created c t) (.stopRequested c) → seen = true
  requested_of_join : ∀ c t, s.control = some (.join c) → Live s c t →
    Follows l (.created c t) (.stopRequested c)

theorem Owned.live_unique {s : State} (h : Owned s) {c : Component} {t u : Nat}
    (ht : Live s c t) (hu : Live s c u) : t = u := by
  obtain ⟨j, hj, rfl⟩ := h.live c t ht
  obtain ⟨j', hj', rfl⟩ := h.live c u hu
  rw [hj, Option.some.injEq] at hj'
  rw [hj']

/-- **`start` and `stop` keep the queue's discipline.** -/
theorem lifecycle_disciplined {es : List Event} {s : State} (h : machine.Exec es s) :
    Disciplined (machine.log act es) s := by
  obtain ⟨ho, hh⟩ := owned_of_exec h
  refine ⟨fun t u => ho.live_unique, fun t u => ho.live_unique, ?_, ?_, ?_, ?_⟩
  · intro c A B hl hB t ht
    have hnone : s.current c = none := hh.returned c ⟨A, B, hl, by
      rintro b hb ⟨u, rfl⟩
      exact hB u hb⟩
    obtain ⟨j, hj, -⟩ := ho.live c t ht
    rw [hnone] at hj
    cases hj
  · intro c t A B hl
    exact (hh.tested A _ B hl).2 rfl
  · intro c t seen A B hl hf
    exact (hh.tested A _ B hl).1.mpr hf
  · intro c t hpc ht
    obtain ⟨j, hj, rfl⟩ := ho.live c t ht
    exact hh.joining c j hpc hj

/-- The generator is stopped before its thread has fetched its token, and started again;
the first thread ends at its first test, the second goes on. -/
def stopBeforeFetch : List Event :=
  [.setRate 1000, .start .generator, .control, .control, .control, .control,
    .stop .generator, .control, .control, .worker 0 true, .worker 0 true, .control,
    .start .generator, .control, .control, .control, .worker 1 true, .worker 1 true, .control]

theorem stopBeforeFetch_goes : (machine.run machine.init stopBeforeFetch).isSome = true := by
  decide +kernel

theorem lifecycle_disciplined_stopBeforeFetch :
    machine.log act stopBeforeFetch =
      [.created .generator 0, .stopCalled .generator, .stopRequested .generator,
        .tested .generator 0 true, .stopReturned .generator, .created .generator 1,
        .tested .generator 1 false] ∧
      Disciplined (machine.log act stopBeforeFetch)
        (machine.final stopBeforeFetch stopBeforeFetch_goes) :=
  ⟨by decide +kernel, lifecycle_disciplined (Machine.exec_final stopBeforeFetch_goes)⟩

end Lifecycle

end MarketData
