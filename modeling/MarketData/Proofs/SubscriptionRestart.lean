/-
Subscriptions across a stop and a restart.

The commands wait in a member, the set they are applied to is a local of the receive
loop.  So a session starts with nothing of what an earlier session had subscribed to,
and with everything that no earlier session has popped.  What an earlier session drained
is lost, unless a later command names the same id again.

The commands of a run are cut in two by the latest `start`: those drained before it and
those drained since (`session_subscriptions`).  Once everything is drained the two
together are the commands of all the calls, so the subscriptions are right exactly if no
subscription of the first part goes unnamed in the second.
-/
import MarketData.Proofs.Subscriptions

namespace MarketData

open Lib Machine

namespace UdpFeedHandler

variable {W : Nat} {N : Capacity W} {s t : State W}

/-! ### One session -/

/-- The commands drained in a session make its subscriptions. -/
theorem session_subscriptions {r₀ : Receiver W} (hr₀ : t.receiver = some r₀) {mid : List Event} :
    ∀ {s : State W} {r : Receiver W}, (∀ e ∈ mid, e.isStart = false) →
      (machine N).run t mid = some s → s.receiver = some r →
      r.subscriptions =
        ((machine N).collect drained t mid).foldl applyCommand r₀.subscriptions := by
  induction mid using List.reverseRecOn with
  | nil =>
      intro s r _ hrun hr
      rw [← Option.some.inj hrun, hr₀, Option.some.injEq] at hr
      rw [hr]
      rfl
  | append_singleton mid e ih =>
      intro s' r' hmid hrun hr'
      obtain ⟨s, hs, hstep⟩ := run_snoc_some.mp hrun
      rw [collect_snoc drained hs hstep, List.foldl_append]
      rcases (moves_of_step hstep).subscriptions hr' with ⟨hstart, -, -⟩ | ⟨-, r, hr, hsubs⟩
      · rw [hmid e (by simp)] at hstart
        exact absurd hstart nofun
      · rw [hsubs, ih (fun x hx => hmid x (by simp [hx])) hs hr]

/-- A session that is running has been started. -/
theorem exists_latest_start {es : List Event} (h : (machine N).Exec es s) :
    s.receiver ≠ none → ∃ pre buffer mid, es = pre ++ .start buffer :: mid ∧
      ∀ e ∈ mid, e.isStart = false := by
  refine Exec.induction (P := fun es s => s.receiver ≠ none → ∃ pre buffer mid,
    es = pre ++ .start buffer :: mid ∧ ∀ e ∈ mid, e.isStart = false)
    (fun hne => absurd rfl hne) ?_ h
  intro es s e s' _ ih hs hne
  obtain ⟨r', hr'⟩ := Option.ne_none_iff_exists'.mp hne
  rcases (moves_of_step hs).subscriptions hr' with ⟨hstart, -, -⟩ | ⟨hnot, r, hr, -⟩
  · cases e with
    | start buffer => exact ⟨es, buffer, [], rfl, nofun⟩
    | _ => exact absurd hstart nofun
  · obtain ⟨pre, buffer, mid, hes, hmid⟩ := ih (by rw [hr]; exact nofun)
    refine ⟨pre, buffer, mid ++ [e], by rw [hes]; simp, ?_⟩
    rw [List.forall_mem_append, List.forall_mem_singleton]
    exact ⟨hmid, hnot⟩

theorem foldl_applyCommand (cmds : List SubCommand) :
    cmds.foldl applyCommand ∅ = Update.applyAll (cmds.map SubCommand.update) := by
  unfold Update.applyAll
  rw [List.foldl_map]
  rfl

/-! ### The whole history -/

/-- The later updates alone give what all of them give, if they name every element that
the earlier ones insert. -/
theorem later_updates_iff {earlier later : List (Update (BitVec 64))} :
    (∀ id, id ∈ Update.applyAll later ↔ Update.lastFor id (earlier ++ later) = some true) ↔
      ∀ id, Update.lastFor id earlier = some true → ∃ u ∈ later, u.key = id := by
  refine forall_congr' fun id => ?_
  rw [Update.mem_applyAll_iff, Update.lastFor_append]
  cases hlater : Update.lastFor id later with
  | none =>
      rw [Update.lastFor_eq_none_iff] at hlater
      have hnone : ¬ ∃ u ∈ later, u.key = id := by
        rintro ⟨u, hu, hkey⟩
        exact hlater u hu hkey
      simp [hnone]
  | some b =>
      have hsome : ∃ u ∈ later, u.key = id := by
        by_contra hno
        rw [(Update.lastFor_eq_none_iff id later).mpr
          fun u hu hkey => hno ⟨u, hu, hkey⟩] at hlater
        cases hlater
      simp [hsome]

/--
**Subscriptions survive a restart exactly if they are named again.**  For every run in
which no push meets a full command queue, and in every state of it with a session
running, the client outside its calls and the command queue drained: the subscriptions
are the ids whose last call over the whole history was a subscribe, if and only if every
id whose last command popped before the latest `start` was a subscribe has a command
popped since.
-/
theorem subscriptions_survive_iff (N : Capacity W) (es : List Event) (s : State W)
    (r : Receiver W) (h : (machine N).Exec es s) (hroom : (machine N).Along (Room N) es)
    (hclient : s.client = none) (hr : s.receiver = some r) (hdrained : Drained s) :
    ∃ pre buffer mid, es = pre ++ .start buffer :: mid ∧ (∀ e ∈ mid, e.isStart = false) ∧
      ((∀ id, id ∈ r.subscriptions ↔ lastCall id ((machine N).log called es) = some true) ↔
        ∀ id, lastCall id (((machine N).log called es).take
            ((machine N).log drained pre).length) = some true →
          ∃ c ∈ ((machine N).log called es).drop ((machine N).log drained pre).length,
            packSymbol c.symbol = id) := by
  obtain ⟨pre, buffer, mid, hes, hmid⟩ := exists_latest_start h (by rw [hr]; exact nofun)
  refine ⟨pre, buffer, mid, hes, hmid, ?_⟩
  rw [hes] at h hroom
  have hall := calls_drained h hroom hclient hdrained
  rw [hes]
  generalize (machine N).log called (pre ++ .start buffer :: mid) = calls at hall ⊢
  -- the drained commands fall into those before the latest start and those since
  obtain ⟨t, ht, hrest⟩ := h.split
  obtain ⟨t', hstart, hmidrun⟩ := run_cons_some.mp hrest
  have ht' : ∃ r₀, t'.receiver = some r₀ ∧ r₀.subscriptions = ∅ ∧
      drained t (.start buffer) = none := by
    have hmove : Moves N t (.start buffer) t' := moves_of_step hstart
    cases hmove with
    | start _ _ => exact ⟨_, rfl, rfl, rfl⟩
  obtain ⟨r₀, hr₀, hempty, hnone⟩ := ht'
  have hsplit : (machine N).log drained (pre ++ .start buffer :: mid) =
      (machine N).log drained pre ++ (machine N).collect drained t' mid := by
    rw [log_append drained ht]
    simp only [collect, hstart, hnone]
    rfl
  rw [hsplit] at hall
  have hearlier : (calls.take ((machine N).log drained pre).length).map command =
      (machine N).log drained pre := by
    rw [List.map_take, hall, List.take_left]
  have hlater : (calls.drop ((machine N).log drained pre).length).map command =
      (machine N).collect drained t' mid := by
    rw [List.map_drop, hall, List.drop_left]
  have hsubs := session_subscriptions hr₀ hmid hmidrun hr
  rw [hempty, foldl_applyCommand] at hsubs
  simp only [← lastFor_commands]
  rw [hearlier, hall, List.map_append, hsubs, later_updates_iff]
  refine forall_congr' fun id => imp_congr_right fun _ => ?_
  rw [← hlater]
  simp only [List.mem_map, exists_exists_and_eq_and]
  exact Iff.rfl

/-! ### Runs -/

/-- The session is asked to stop while it is at `recvfrom`, and joined. -/
def stopSession : List Event := [.requestStop, .recv .fail 0, .loop, .join]

/-- A session drains one subscription; the next one is started after it. -/
def restartRun : List Event :=
  wholeCall (subscribe [65]) ++ [.start (Bytes.zero _), .loop] ++ applyOne ++ findEmpty ++
    stopSession ++ [.start (Bytes.zero _), .loop] ++ findEmpty

theorem restartRun_goes :
    ((machine slots128).run (machine slots128).init restartRun).isSome = true := by
  decide +kernel

/-- The same with the subscription repeated after the restart. -/
def renewedRun : List Event :=
  restartRun ++ [.recv .fail 0] ++ wholeCall (subscribe [65]) ++ [.loop] ++ applyOne ++ findEmpty

theorem renewedRun_goes :
    ((machine slots128).run (machine slots128).init renewedRun).isSome = true := by
  decide +kernel

theorem subscriptions_survive_iff_renewedRun : ∃ s r, (machine slots128).Exec renewedRun s ∧
    s.receiver = some r ∧ ∃ pre buffer mid, renewedRun = pre ++ .start buffer :: mid ∧
      (∀ e ∈ mid, e.isStart = false) ∧
      ((∀ id, id ∈ r.subscriptions ↔
          lastCall id ((machine slots128).log called renewedRun) = some true) ↔
        ∀ id, lastCall id (((machine slots128).log called renewedRun).take
            ((machine slots128).log drained pre).length) = some true →
          ∃ c ∈ ((machine slots128).log called renewedRun).drop
            ((machine slots128).log drained pre).length, packSymbol c.symbol = id) :=
  ⟨(machine slots128).final renewedRun renewedRun_goes,
    ((machine slots128).final renewedRun renewedRun_goes).receiver.get (by decide +kernel),
    exec_final renewedRun_goes, (Option.some_get _).symm,
    subscriptions_survive_iff slots128 renewedRun _ _ (exec_final renewedRun_goes)
      (along_of_alongFrom (by decide +kernel)) (by decide +kernel) (Option.some_get _).symm
      ⟨by decide +kernel, by decide +kernel⟩⟩

/-- **A restart forgets.**  The only call was a subscribe, it was accepted, and the
session that runs after the restart has drained its queue and does not have the id. -/
theorem restart_forgets : ∃ s r, (machine slots128).Exec restartRun s ∧
    (machine slots128).Along (Room slots128) restartRun ∧ s.client = none ∧
    s.receiver = some r ∧ Drained s ∧ packSymbol [65] ∉ r.subscriptions ∧
    lastCall (packSymbol [65]) ((machine slots128).log called restartRun) = some true :=
  ⟨(machine slots128).final restartRun restartRun_goes,
    ((machine slots128).final restartRun restartRun_goes).receiver.get (by decide +kernel),
    exec_final restartRun_goes, along_of_alongFrom (by decide +kernel), by decide +kernel,
    (Option.some_get _).symm, ⟨by decide +kernel, by decide +kernel⟩, by decide +kernel,
    by decide +kernel⟩

end UdpFeedHandler

end MarketData
