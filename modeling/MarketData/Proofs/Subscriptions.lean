/-
From the calls of the client to the subscriptions of the receive loop.

A command is accepted where the client stores `write_`, and drained where the loop
applies it.  `exists_queued` says where the accepted commands are at any time: drained,
in the loop's hand, or in the queue, in this order.  The subscriptions are what the
drained commands make of the empty set, so once everything is drained they are what
the accepted commands make of it.

A push that finds the queue full loses its command, since nobody looks at the result.
`Room` says of one step that it is not such a push.  In runs all of whose steps have
room every call is accepted, so the last call decides; `update_lost` is a run of 129
calls before the session starts, the last of which is lost.
-/
import MarketData.FeedHandler.UdpFeedHandler
import MarketData.Proofs.CustomSpscQueue

namespace MarketData

open Lib

/-- A command as an update of a set of ids. -/
def SubCommand.update (cmd : SubCommand) : Update (BitVec 64) where
  isInsert := cmd.isSubscribe
  key := cmd.symbolId

namespace UdpFeedHandler

variable {W : Nat} {N : Capacity W} {s s' : State W} {e : Event}

/-! ### The steps -/

/-- What each event does, and when it can happen. -/
inductive Moves (N : Capacity W) (s : State W) : Event → State W → Prop
  | call (c : Call) (hidle : s.client = none) :
      Moves N s (.call c) { s with client := some (.loadWrite (command c)) }
  | client {p : PushPc SubCommand W} {n : Instr.Next Loc (Cell SubCommand W) Unit _}
      (hp : s.client = some p) (hn : (p.code N).sc s.commandQueue () = some n) :
      Moves N s .client { s with commandQueue := n.mem, client := some n.pc }
  | ret {cmd : SubCommand} {ok : Bool} (hp : s.client = some (.done cmd ok)) :
      Moves N s .ret { s with client := none }
  | start (buffer : Bytes receiveBufferSize) (hr : s.receiver = none) :
      Moves N s (.start buffer) ({ s with stopRequested := false }.withReceiver
        { pc := .checkStop, buffer := buffer, subscriptions := ∅ })
  | requestStop {r : Receiver W} (hr : s.receiver = some r) :
      Moves N s .requestStop { s with stopRequested := true }
  | join {r : Receiver W} (hr : s.receiver = some r) (hpc : r.pc = .finished) :
      Moves N s .join { s with receiver := none }
  | test {r : Receiver W} (hr : s.receiver = some r) (hpc : r.pc = .checkStop) :
      Moves N s .loop (s.withReceiver
        { r with pc := if s.stopRequested then .finished else .drain .loadRead })
  | pop {r : Receiver W} {p : PopPc SubCommand W}
      {n : Instr.Next Loc (Cell SubCommand W) Unit _} (hr : s.receiver = some r)
      (hpc : r.pc = .drain p) (hn : (p.code N).sc s.commandQueue () = some n) :
      Moves N s .loop
        ({ s with commandQueue := n.mem }.withReceiver { r with pc := .drain n.pc })
  | apply {r : Receiver W} {cmd : SubCommand} (hr : s.receiver = some r)
      (hpc : r.pc = .drain (.done (some cmd))) :
      Moves N s .loop (s.withReceiver
        { r with pc := .drain .loadRead, subscriptions := applyCommand r.subscriptions cmd })
  | drainEnds {r : Receiver W} (hr : s.receiver = some r) (hpc : r.pc = .drain (.done none)) :
      Moves N s .loop (s.withReceiver { r with pc := .receive })
  | recv {r : Receiver W} (res : Recv) (now : BitVec 64) (hr : s.receiver = some r)
      (hpc : r.pc = .receive) :
      Moves N s (.recv res now) (s.withReceiver
        { r with pc := .checkStop, buffer := (recvfrom r.buffer res).1 })

theorem moves_of_stepLoop {r : Receiver W} (hr : s.receiver = some r)
    (h : stepLoop N s r = some s') : Moves N s .loop s' := by
  unfold stepLoop at h
  split at h
  · next hpc => exact Option.some.inj h ▸ Moves.test hr hpc
  · next cmd hpc => exact Option.some.inj h ▸ Moves.apply hr hpc
  · next hpc => exact Option.some.inj h ▸ Moves.drainEnds hr hpc
  · next p _ _ hpc =>
      obtain ⟨n, hn, rfl⟩ := Option.map_eq_some_iff.mp h
      exact Moves.pop hr hpc hn
  · exact absurd h (by simp)
  · exact absurd h (by simp)

theorem moves_of_step (h : step N s e = some s') : Moves N s e s' := by
  cases e with
  | call c =>
      simp only [step] at h
      split at h
      · next hidle => exact Option.some.inj h ▸ Moves.call c hidle
      · exact absurd h (by simp)
  | client =>
      obtain ⟨p, hp, hstep⟩ := Option.bind_eq_some_iff.mp h
      obtain ⟨n, hn, rfl⟩ := Option.map_eq_some_iff.mp hstep
      exact Moves.client hp hn
  | ret =>
      simp only [step] at h
      split at h
      · next hp => exact Option.some.inj h ▸ Moves.ret hp
      · exact absurd h (by simp)
  | start buffer =>
      simp only [step] at h
      split at h
      · next hr => exact Option.some.inj h ▸ Moves.start buffer hr
      · exact absurd h (by simp)
  | requestStop =>
      obtain ⟨r, hr, rfl⟩ := Option.map_eq_some_iff.mp h
      exact Moves.requestStop hr
  | join =>
      simp only [step] at h
      split at h
      · next hpc =>
          obtain ⟨r, hr, hfin⟩ := Option.map_eq_some_iff.mp hpc
          exact Option.some.inj h ▸ Moves.join hr hfin
      · exact absurd h (by simp)
  | loop =>
      obtain ⟨r, hr, hstep⟩ := Option.bind_eq_some_iff.mp h
      exact moves_of_stepLoop hr hstep
  | recv res now =>
      obtain ⟨r, hr, hstep⟩ := Option.bind_eq_some_iff.mp h
      unfold stepRecv at hstep
      split at hstep
      · next hpc => exact Option.some.inj hstep ▸ Moves.recv res now hr hpc
      · exact absurd hstep (by simp)

/-! ### Where the commands are -/

/-- The pop the receive loop is in. -/
def inPop (s : State W) : Option (PopPc SubCommand W) :=
  match s.receiver.map Receiver.pc with
  | some (.drain p) => some p
  | _ => none

/-- The command the loop has popped and not applied. -/
def inHand (s : State W) : List SubCommand :=
  match inPop s with
  | some p => p.taken
  | none => []

theorem inPop_of_drain {r : Receiver W} {p : PopPc SubCommand W} (hr : s.receiver = some r)
    (hpc : r.pc = .drain p) : inPop s = some p := by
  unfold inPop
  rw [hr, Option.map_some, hpc]

theorem inPop_of_not_drain (h : ∀ p, s.receiver.map Receiver.pc ≠ some (.drain p)) :
    inPop s = none := by
  unfold inPop
  split
  · next p hp => exact absurd hp (h p)
  · rfl

theorem inHand_of_inPop {p : PopPc SubCommand W} (h : inPop s = some p) : inHand s = p.taken := by
  unfold inHand
  rw [h]

theorem inHand_of_none (h : inPop s = none) : inHand s = [] := by
  unfold inHand
  rw [h]

/-- What a step of the client puts into the queue. -/
theorem accepted_client {p : PushPc SubCommand W} (hp : s.client = some p) :
    (accepted s .client).toList = p.accepts := by
  unfold accepted
  rw [hp]
  cases p <;> rfl

/-- A step of the loop that finds no command in hand drains nothing. -/
theorem drained_loop (h : inHand s = []) : drained s .loop = none := by
  simp only [drained]
  split
  · next cmd hcmd =>
      obtain ⟨r, hr, hpc⟩ := Option.map_eq_some_iff.mp hcmd
      rw [inHand_of_inPop (inPop_of_drain hr hpc)] at h
      simp [PopPc.taken] at h
  · rfl

/-- A step of a thread that is outside `pop`, and of no other, moves no command. -/
theorem flow_outside {xs : List SubCommand}
    (hq : QueueInv N s.commandQueue s.client (inPop s) xs) (hout : inPop s = none)
    (hout' : inPop s' = none) (hmem : s'.commandQueue = s.commandQueue)
    (hclient : s'.client = s.client) :
    ∃ xs', QueueInv N s'.commandQueue s'.client (inPop s') xs' ∧
      inHand s ++ xs ++ [] = inHand s' ++ xs' := by
  refine ⟨xs, ?_, ?_⟩
  · rw [hmem, hclient, hout', ← hout]
    exact hq
  · rw [inHand_of_none hout, inHand_of_none hout', List.append_nil]

/-- **One step moves commands in order**, from the client's store to the loop that
applies them. -/
theorem Moves.flow {xs : List SubCommand} (h : Moves N s e s')
    (hq : QueueInv N s.commandQueue s.client (inPop s) xs) :
    ∃ xs', QueueInv N s'.commandQueue s'.client (inPop s') xs' ∧
      inHand s ++ xs ++ (accepted s e).toList = (drained s e).toList ++ (inHand s' ++ xs') := by
  cases h with
  | call c hidle =>
      rw [hidle] at hq
      exact ⟨xs, hq.set_prod rfl trivial, List.append_nil _⟩
  | client hp hn =>
      rw [hp] at hq
      refine ⟨_, hq.push_step hn, ?_⟩
      rw [accepted_client hp]
      exact List.append_assoc _ _ _
  | ret hp =>
      rw [hp] at hq
      exact ⟨xs, hq.set_prod rfl trivial, List.append_nil _⟩
  | start buffer hr => exact flow_outside hq (inPop_of_not_drain (by simp [hr])) rfl rfl rfl
  | requestStop hr => exact ⟨xs, hq, List.append_nil _⟩
  | join hr hpc =>
      exact flow_outside hq (inPop_of_not_drain (by simp [hr, hpc])) rfl rfl rfl
  | test hr hpc =>
      have hout : inPop s = none := inPop_of_not_drain (by simp [hr, hpc])
      have hin : inHand s = [] := inHand_of_none hout
      rw [hout] at hq
      rw [drained_loop hin, hin]
      by_cases hstop : s.stopRequested = true
      · rw [if_pos hstop]
        exact ⟨xs, hq, List.append_nil _⟩
      · rw [if_neg hstop]
        exact ⟨xs, hq.set_cons rfl trivial, List.append_nil _⟩
  | @pop r p n hr hpc hn =>
      have hin := inPop_of_drain hr hpc
      have hnone : inHand s = [] := (inHand_of_inPop hin).trans (PopPc.taken_of_access hn)
      rw [hin] at hq
      obtain ⟨xs', hxs, hq'⟩ := hq.pop_step hn
      refine ⟨xs', hq', ?_⟩
      have htaken : n.pc.taken = p.retires := by
        rw [PopPc.taken_step hn, PopPc.taken_of_access hn, List.nil_append]
      rw [drained_loop hnone, hnone, hxs]
      show p.retires ++ xs' ++ [] = n.pc.taken ++ xs'
      rw [htaken, List.append_nil]
  | @apply r cmd hr hpc =>
      have hin := inPop_of_drain hr hpc
      rw [hin] at hq
      refine ⟨xs, hq.set_cons rfl trivial, ?_⟩
      have hdrained : drained s .loop = some cmd := by
        unfold drained
        rw [hr, Option.map_some, hpc]
      rw [inHand_of_inPop hin, hdrained]
      exact List.append_nil _
  | drainEnds hr hpc =>
      have hin := inPop_of_drain hr hpc
      have hnone : inHand s = [] := inHand_of_inPop hin
      rw [hin] at hq
      refine ⟨xs, hq.set_cons rfl trivial, ?_⟩
      rw [drained_loop hnone, hnone]
      exact List.append_nil _
  | recv res now hr hpc =>
      exact flow_outside hq (inPop_of_not_drain (by simp [hr, hpc])) rfl rfl rfl

/-- **Where the accepted commands are**: drained, in the loop's hand, or in the queue. -/
theorem exists_queued {es : List Event} (h : (machine N).Exec es s) :
    ∃ xs, QueueInv N s.commandQueue s.client (inPop s) xs ∧
      (machine N).log accepted es = (machine N).log drained es ++ (inHand s ++ xs) := by
  refine Machine.Exec.induction (P := fun es s => ∃ xs,
    QueueInv N s.commandQueue s.client (inPop s) xs ∧
      (machine N).log accepted es = (machine N).log drained es ++ (inHand s ++ xs))
    ⟨[], QueueInv.initial, rfl⟩ ?_ h
  intro es s e s' hex ih hs
  obtain ⟨xs, hq, heq⟩ := ih
  obtain ⟨xs', hq', hflow⟩ := (moves_of_step hs).flow hq
  refine ⟨xs', hq', ?_⟩
  rw [Machine.log_snoc accepted hex hs, Machine.log_snoc drained hex hs, heq, List.append_assoc,
    hflow, List.append_assoc]

/-! ### What the drained commands make of the subscriptions -/

def Event.isStart : Event → Bool
  | .start _ => true
  | _ => false

/-- How many sessions a run starts. -/
def starts (es : List Event) : Nat := es.countP Event.isStart

theorem starts_snoc (es : List Event) (e : Event) :
    starts (es ++ [e]) = starts es + if e.isStart then 1 else 0 := by
  unfold starts
  rw [List.countP_append, List.countP_singleton]

/-- A session begins with no subscriptions, and then they change by what is drained. -/
theorem Moves.subscriptions (h : Moves N s e s') {r' : Receiver W} (hr' : s'.receiver = some r') :
    (e.isStart = true ∧ s.receiver = none ∧ r'.subscriptions = ∅) ∨
      (e.isStart = false ∧ ∃ r, s.receiver = some r ∧
        r'.subscriptions = (drained s e).toList.foldl applyCommand r.subscriptions) := by
  cases h with
  | start buffer hr =>
      cases Option.some.inj hr'
      exact Or.inl ⟨rfl, hr, rfl⟩
  | join hr hpc => exact absurd hr' (by simp)
  | test hr hpc =>
      cases Option.some.inj hr'
      refine Or.inr ⟨rfl, _, hr, ?_⟩
      rw [drained_loop (inHand_of_none (inPop_of_not_drain (by simp [hr, hpc])))]
      rfl
  | pop hr hpc hn =>
      cases Option.some.inj hr'
      refine Or.inr ⟨rfl, _, hr, ?_⟩
      rw [drained_loop ((inHand_of_inPop (inPop_of_drain hr hpc)).trans (PopPc.taken_of_access hn))]
      rfl
  | apply hr hpc =>
      cases Option.some.inj hr'
      refine Or.inr ⟨rfl, _, hr, ?_⟩
      unfold drained
      rw [hr, Option.map_some, hpc]
      rfl
  | drainEnds hr hpc =>
      cases Option.some.inj hr'
      refine Or.inr ⟨rfl, _, hr, ?_⟩
      rw [drained_loop (inHand_of_inPop (inPop_of_drain hr hpc))]
      rfl
  | recv res now hr hpc =>
      cases Option.some.inj hr'
      exact Or.inr ⟨rfl, _, hr, rfl⟩
  | _ => exact Or.inr ⟨rfl, r', hr', rfl⟩

/-- Nothing is drained without a session. -/
theorem drained_of_no_receiver (h : s.receiver = none) : drained s e = none := by
  cases e with
  | loop => exact drained_loop (inHand_of_none (inPop_of_not_drain (by simp [h])))
  | _ => rfl

/-- What the commands drained along a run make of the empty set. -/
def drainedSet (N : Capacity W) (es : List Event) : Finset (BitVec 64) :=
  Update.applyAll (((machine N).log drained es).map SubCommand.update)

theorem drainedSet_snoc {es : List Event} (hex : (machine N).Exec es s)
    (hs : (machine N).step s e = some s') :
    drainedSet N (es ++ [e]) = (drained s e).toList.foldl applyCommand (drainedSet N es) := by
  unfold drainedSet
  rw [Machine.log_snoc drained hex hs]
  cases drained s e with
  | none => simp
  | some cmd =>
      rw [Option.toList_some, List.map_append, List.map_singleton, Update.applyAll_snoc]
      rfl

/-- In the first session the subscriptions are what has been drained. -/
theorem subscriptions_eq {es : List Event} (h : (machine N).Exec es s) :
    starts es ≤ 1 → (starts es = 0 → s.receiver = none ∧ (machine N).log drained es = []) ∧
      ∀ r, s.receiver = some r → r.subscriptions = drainedSet N es := by
  refine Machine.Exec.induction (P := fun es s => starts es ≤ 1 →
    (starts es = 0 → s.receiver = none ∧ (machine N).log drained es = []) ∧
      ∀ r, s.receiver = some r → r.subscriptions = drainedSet N es)
    (fun _ => ⟨fun _ => ⟨rfl, rfl⟩, fun r hr => absurd hr (by simp [machine])⟩) ?_ h
  intro es s e s' hex ih hs hone
  rw [starts_snoc] at hone ⊢
  obtain ⟨hbefore, hduring⟩ := ih (by omega)
  constructor
  · intro hzero
    obtain ⟨hnone, hlog⟩ := hbefore (by omega)
    refine ⟨?_, ?_⟩
    · rcases hr' : s'.receiver with _ | r'
      · rfl
      · rcases (moves_of_step hs).subscriptions hr' with ⟨hstart, -, -⟩ | ⟨-, r, hr, -⟩
        · rw [if_pos hstart] at hzero
          omega
        · exact absurd (hnone.symm.trans hr) (by simp)
    · rw [Machine.log_snoc drained hex hs, hlog, drained_of_no_receiver hnone]
      rfl
  · intro r' hr'
    rw [drainedSet_snoc hex hs]
    rcases (moves_of_step hs).subscriptions hr' with ⟨hstart, hnone, hempty⟩ | ⟨-, r, hr, hsubs⟩
    · rw [if_pos hstart] at hone
      obtain ⟨-, hlog⟩ := hbefore (by omega)
      rw [drained_of_no_receiver hnone, hempty]
      unfold drainedSet
      rw [hlog]
      rfl
    · rw [hsubs, hduring r hr]

/-! ### From the calls to the accepted commands -/

/-- The client's next access decides whether the queue is full. -/
def atFullTest (s : State W) : Event → Bool
  | .client =>
      match s.client with
      | some (.loadRead _ _) => true
      | _ => false
  | _ => false

/-- The queue has room when a push decides whether it is full. -/
def Room (N : Capacity W) (s : State W) (e : Event) : Prop :=
  atFullTest s e = true → held s.commandQueue < N.val

instance (N : Capacity W) (s : State W) (e : Event) : Decidable (Room N s e) :=
  inferInstanceAs (Decidable (_ → _))

/-- The command of a call that has not been accepted yet. -/
def inCall (s : State W) : List SubCommand :=
  match s.client with
  | some p => p.pending
  | none => []

/-- The client is not in a push that has failed. -/
def NotRefused (s : State W) : Prop := ∀ cmd, s.client ≠ some (.done cmd false)

/-- With room, a push does not fail. -/
theorem notRefused_of_room {p : PushPc SubCommand W} {xs : List SubCommand}
    {n : Instr.Next Loc (Cell SubCommand W) Unit (PushPc SubCommand W)}
    (hp : s.client = some p) (hn : (p.code N).sc s.commandQueue () = some n)
    (hroom : Room N s .client) (hq : QueueInv N s.commandQueue s.client (inPop s) xs)
    (cmd : SubCommand) : n.pc ≠ .done cmd false := by
  intro hpc
  obtain ⟨cmd', w, rfl⟩ := PushPc.loadRead_of_fails hn hpc
  have hlt : held s.commandQueue < N.val := hroom (by unfold atFullTest; rw [hp])
  rw [hp] at hq
  obtain ⟨-, hfull⟩ := hq.push_fails hn hpc
  rw [hq.held_eq] at hlt
  omega

/-- **One step, with room, moves calls on** and refuses none. -/
theorem Moves.calls {xs : List SubCommand} (h : Moves N s e s') (hroom : Room N s e)
    (hq : QueueInv N s.commandQueue s.client (inPop s) xs) (hok : NotRefused s) :
    NotRefused s' ∧
      inCall s ++ (called s e).toList.map command = (accepted s e).toList ++ inCall s' := by
  cases h with
  | call c hidle =>
      refine ⟨fun cmd => by simp, ?_⟩
      unfold inCall
      rw [hidle]
      rfl
  | @client p n hp hn =>
      refine ⟨fun cmd hc => notRefused_of_room hp hn hroom hq cmd (Option.some.inj hc), ?_⟩
      rw [accepted_client hp]
      unfold inCall
      rw [hp]
      exact (List.append_nil _).trans (PushPc.pending_step hn)
  | @ret cmd ok hp =>
      refine ⟨fun cmd => by simp, ?_⟩
      have htrue : ok = true := by
        cases ok with
        | true => rfl
        | false => exact absurd hp (hok cmd)
      unfold inCall
      rw [hp, htrue]
      rfl
  | pop hr hpc hn => exact ⟨hok, List.append_nil _⟩
  | _ => exact ⟨hok, List.append_nil _⟩

/-- With room at every full test, every call has been accepted or is being made. -/
theorem calls_eq {es : List Event} (h : (machine N).Exec es s)
    (hroom : (machine N).Along (Room N) es) :
    NotRefused s ∧ ((machine N).log called es).map command =
      (machine N).log accepted es ++ inCall s := by
  have key : (machine N).Along (Room N) es → NotRefused s ∧
      ((machine N).log called es).map command = (machine N).log accepted es ++ inCall s := by
    refine Machine.Exec.induction (P := fun es s => (machine N).Along (Room N) es →
      NotRefused s ∧ ((machine N).log called es).map command =
        (machine N).log accepted es ++ inCall s)
      (fun _ => ⟨fun cmd => by simp [machine], rfl⟩) ?_ h
    intro es s e s' hex ih hs hal
    obtain ⟨hok, heq⟩ := ih hal.init
    obtain ⟨xs, hq, -⟩ := exists_queued hex
    obtain ⟨hok', hmove⟩ := (moves_of_step hs).calls (hal.last hex) hq hok
    refine ⟨hok', ?_⟩
    rw [Machine.log_snoc called hex hs, Machine.log_snoc accepted hex hs, List.map_append, heq,
      List.append_assoc, hmove, List.append_assoc]
  exact key hroom

/-! ### Main result -/

/-- The queue is empty, and no popped command is still to be applied. -/
def Drained (s : State W) : Prop := held s.commandQueue = 0 ∧ inHand s = []

/-- With room, an idle client and an empty queue, every call has been drained. -/
theorem calls_drained {es : List Event} (h : (machine N).Exec es s)
    (hroom : (machine N).Along (Room N) es) (hclient : s.client = none) (hdrained : Drained s) :
    ((machine N).log called es).map command = (machine N).log drained es := by
  obtain ⟨xs, hq, haccepted⟩ := exists_queued h
  obtain ⟨-, hcalls⟩ := calls_eq h hroom
  have hxs : xs = [] := by
    rw [← List.length_eq_zero_iff, ← hq.held_eq]
    exact hdrained.1
  have hidle : inCall s = [] := by
    unfold inCall
    rw [hclient]
  rw [hcalls, hidle, List.append_nil, haccepted, hxs, hdrained.2, List.append_nil, List.append_nil]

/-- Whether the last call for an id was a subscribe. -/
def lastCall (id : BitVec 64) (calls : List Call) : Option Bool :=
  ((calls.filter fun c => packSymbol c.symbol = id).getLast?).map Call.isSubscribe

theorem lastFor_commands (id : BitVec 64) (calls : List Call) :
    Update.lastFor id ((calls.map command).map SubCommand.update) = lastCall id calls := by
  rw [List.map_map, Update.lastFor_of_map]
  rfl

/-- **No update is lost while the command queue has room.**  In every run with one
session in which no push meets a full queue: once the client has returned from all
its calls and the loop has drained the queue, an id is subscribed exactly if the last
call for it was a subscribe. -/
theorem no_update_lost (N : Capacity W) (es : List Event) (s : State W) (r : Receiver W)
    (h : (machine N).Exec es s) (hone : starts es ≤ 1) (hroom : (machine N).Along (Room N) es)
    (hclient : s.client = none) (hr : s.receiver = some r) (hdrained : Drained s)
    (id : BitVec 64) :
    id ∈ r.subscriptions ↔ lastCall id ((machine N).log called es) = some true := by
  rw [(subscriptions_eq h hone).2 r hr, drainedSet, Update.mem_applyAll_iff,
    ← calls_drained h hroom hclient hdrained, lastFor_commands]

/-! ### Runs -/

def subscribe (symbol : List Byte) : Call := { isSubscribe := true, symbol := symbol }

def unsubscribe (symbol : List Byte) : Call := { isSubscribe := false, symbol := symbol }

/-- A call whose push succeeds. -/
def wholeCall (c : Call) : List Event := .call c :: List.replicate 4 .client ++ [.ret]

/-- A call whose push finds the queue full. -/
def refusedCall (c : Call) : List Event := .call c :: List.replicate 2 .client ++ [.ret]

/-- The loop pops a command and applies it. -/
def applyOne : List Event := List.replicate 6 .loop

/-- The loop finds the queue empty. -/
def findEmpty : List Event := List.replicate 3 .loop

/-- Two calls before the session, one during it, with a failed receive between them. -/
def drainedRun : List Event :=
  wholeCall (subscribe [65]) ++ wholeCall (subscribe [66]) ++ [.start (Bytes.zero _), .loop] ++
    applyOne ++ applyOne ++ findEmpty ++ [.recv .fail 0] ++ wholeCall (unsubscribe [65]) ++
    [.loop] ++ applyOne ++ findEmpty

theorem drainedRun_goes :
    ((machine slots128).run (machine slots128).init drainedRun).isSome = true := by
  decide +kernel

theorem no_update_lost_drainedRun : ∃ s r, (machine slots128).Exec drainedRun s ∧
    s.receiver = some r ∧ ∀ id, id ∈ r.subscriptions ↔
      lastCall id ((machine slots128).log called drainedRun) = some true :=
  ⟨(machine slots128).final drainedRun drainedRun_goes,
    ((machine slots128).final drainedRun drainedRun_goes).receiver.get (by decide +kernel),
    Machine.exec_final drainedRun_goes, (Option.some_get _).symm,
    no_update_lost slots128 drainedRun _ _ (Machine.exec_final drainedRun_goes) (by decide)
      (Machine.along_of_alongFrom (by decide +kernel)) (by decide +kernel)
      (Option.some_get _).symm ⟨by decide +kernel, by decide +kernel⟩⟩

/-- 128 subscribe calls fill the queue before the session starts, and one more is
refused. -/
def burst : List Event :=
  (List.replicate 128 (wholeCall (subscribe [65]))).flatten ++ refusedCall (subscribe [66])

/-- The session starts and drains the queue. -/
def drainAll : List Event :=
  [.start (Bytes.zero _), .loop] ++ (List.replicate 128 applyOne).flatten ++ findEmpty

/-- The client is outside `subscribe`, the queue is drained and `symbol` is not
subscribed. -/
def lacks (symbol : List Byte) (s : State W) : Bool :=
  s.client.isNone && (decide (held s.commandQueue = 0) && (inHand s).isEmpty) &&
    s.receiver.any fun r => decide (packSymbol symbol ∉ r.subscriptions)

theorem burst_lacks :
    ((machine slots128).run (machine slots128).init (burst ++ drainAll)).any (lacks [66]) =
      true := by
  decide +kernel

/-- **The 129th of 129 calls is lost.**  All have returned and the queue is drained,
and an id whose only call was a subscribe is not subscribed. -/
theorem update_lost : ∃ s r, (machine slots128).Exec (burst ++ drainAll) s ∧
    starts (burst ++ drainAll) ≤ 1 ∧ s.client = none ∧ s.receiver = some r ∧ Drained s ∧
    packSymbol [66] ∉ r.subscriptions ∧
    lastCall (packSymbol [66]) ((machine slots128).log called (burst ++ drainAll)) = some true := by
  obtain ⟨s, hs, hlacks⟩ := (Option.any_eq_true _ _).mp burst_lacks
  simp only [lacks, Bool.and_eq_true, Option.isNone_iff_eq_none, decide_eq_true_eq,
    List.isEmpty_iff] at hlacks
  obtain ⟨⟨hclient, hdrained⟩, hreceiver⟩ := hlacks
  obtain ⟨r, hr, hsub⟩ := (Option.any_eq_true _ _).mp hreceiver
  refine ⟨s, r, hs, by decide +kernel, hclient, hr, hdrained, by simpa using hsub, ?_⟩
  rw [Machine.log_eq_filterMap (g := called (machine slots128).init)
    (fun _ e => by cases e <;> rfl) hs]
  decide +kernel

end UdpFeedHandler

end MarketData
