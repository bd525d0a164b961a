/-
The generator against its configured rate.

The loop keeps a schedule: `next_time` starts at the first reading of the clock and
moves on by `interval_` with every message, whether the message waited for room or not.
So after `n` messages the clock has reached the start plus `n - 1` intervals, however
the readings and the retries fell, and the rate is exact up to the interval.

`set_rate` rounds the interval down to whole nanoseconds.  The bound of one message per
`1 / r` seconds therefore holds exactly for the rates that divide a second's nanoseconds;
for any other rate the second message already comes too early, and above 10⁹ a second
the interval is zero.
-/
import MarketData.Proofs.PipelineSteps
import MarketData.Utils.SpinSpscQueue
import MarketData.Utils.WaitableSpscQueue

namespace MarketData

namespace Pipeline

open Lib Machine BaseGenerator

variable {W : Nat} {Q : QueueCode MarketDataMsg W}

/-- Observer: the reading of the clock that a step of `generation_loop` takes. -/
def reading (s : State Q) : Event → Option Nat
  | .generator now _ =>
      match s.generator.thread with
      | some .begin => some now
      | some (.readClock _) => some now
      | some (.generate _) => some now
      | _ => none
  | _ => none

/-- Observer: the message that a step generates. -/
def generatedMsg (s : State Q) (e : Event) : Option MarketDataMsg :=
  match mark s e with
  | some (.generated msg) => some msg
  | _ => none

/-- Neither a new rate nor the end of the session. -/
def duringSession : Event → Bool
  | .setRate _ => false
  | .joinGenerator => false
  | _ => true

/-- In every session at the rate `r`, once the clock has read nothing later than `T`
nanoseconds after the session's first reading, no more than `r * T / 10⁹ + 1` messages
have been generated. -/
def WithinRate (Q : QueueCode MarketDataMsg W) (r : BitVec 32) : Prop :=
  ∀ pre s mid s' first T, (machine Q).Exec pre s → s.generator.messagesPerSec = r →
    s.generator.thread = none → (∀ e ∈ mid, duringSession e = true) →
    (machine Q).run s (.startGenerator :: mid) = some s' →
    ((machine Q).collect reading s (.startGenerator :: mid)).Pairwise (· ≤ ·) →
    ((machine Q).collect reading s (.startGenerator :: mid)).head? = some first →
    (∀ now ∈ (machine Q).collect reading s (.startGenerator :: mid), now ≤ first + T) →
    ((machine Q).collect generatedMsg s (.startGenerator :: mid)).length ≤
      r.toNat * T / 1000000000 + 1

/-! ### The interval belongs to the rate -/

/-- A generator with a rate has the interval that `set_rate` computed for it. -/
def Rated (g : BaseGenerator.State) : Prop :=
  g.messagesPerSec ≠ 0 → g.interval = 1000000000 / g.messagesPerSec.toNat

theorem Moves.goto_eq {g g' : BaseGenerator.State} {q q' : MarketDataQueue.State Q} {now : Nat}
    {msg : MarketDataMsg} (h : BaseGenerator.Moves g q now msg g' q') : ∃ pc, g' = g.goto pc := by
  cases h <;> exact ⟨_, rfl⟩

theorem rated_of_step {s s' : State Q} {e : Event} (h : Rated s.generator)
    (hs : step s e = some s') : Rated s'.generator := by
  cases moves_of_step hs with
  | setRate r =>
      show Rated (afterCall s.generator (BaseGenerator.setRate s.generator r))
      unfold BaseGenerator.setRate
      by_cases hr : r < 1
      · rw [if_pos hr]
        exact h
      · rw [if_neg hr]
        exact fun _ => rfl
  | startGenerator =>
      rcases start_cases s.generator with ⟨-, -, hstart⟩ | ⟨-, hstart⟩ <;> rw [hstart] <;>
        exact h
  | requestStopGenerator =>
      rcases requestStop_cases s.generator with ⟨-, hstop⟩ | ⟨_, -, hstop⟩ <;>
        rw [hstop] <;> exact h
  | joinGenerator hg =>
      rcases join_cases hg with heq | ⟨-, heq⟩ <;> rw [heq] <;> exact h
  | generator hg =>
      obtain ⟨pc, heq⟩ := Moves.goto_eq hg
      rw [heq]
      exact h
  | access | startDisseminator | joinDisseminator | idle | disseminator => exact h

theorem rated_of_exec {es : List Event} {s : State Q} (h : (machine Q).Exec es s) :
    Rated s.generator := by
  refine Exec.induction (P := fun _ s => Rated s.generator) ?_ ?_ h
  · intro hrate
    exact absurd rfl hrate
  · intro es s e s' _ ih hs
    exact rated_of_step ih hs

/-! ### The schedule -/

/-- Where the schedule stands after `n` messages, from the first to the last reading. -/
structure OnSchedule (interval n first last : Nat) : Prop where
  ordered : first ≤ last
  reached : first + n * interval ≤ last + interval

/-- `next_time` of the thread's place. -/
def Scheduled (interval n first last : Nat) : Pc → Prop
  | .begin => False
  | .checkStop nextTime => nextTime = first + n * interval
  | .readClock nextTime => nextTime = first + n * interval
  | .generate nextTime => nextTime = first + n * interval ∧ nextTime ≤ last
  | .retry nextTime _ => nextTime + interval = first + n * interval
  | .pushing nextTime _ => nextTime + interval = first + n * interval
  | .finished => True

/-- A session under way: nothing read yet, or a schedule from the first reading. -/
inductive Paced (interval : Nat) (readings : List Nat) (n : Nat) : Option Pc → Prop
  | begin (hr : readings = []) (hn : n = 0) : Paced interval readings n (some .begin)
  | running {pc : Pc} {first last : Nat} (hfirst : readings.head? = some first)
      (hlast : readings.getLast? = some last) (hon : OnSchedule interval n first last)
      (hpc : Scheduled interval n first last pc) : Paced interval readings n (some pc)

/-- A reading moves the last one on. -/
theorem OnSchedule.later {interval n first last now : Nat} (h : OnSchedule interval n first last)
    (hnow : last ≤ now) : OnSchedule interval n first now :=
  ⟨Nat.le_trans h.ordered hnow, Nat.le_trans h.reached (Nat.add_le_add_right hnow _)⟩

theorem last_le_of_pairwise {readings : List Nat} {now last : Nat}
    (hsorted : (readings ++ [now]).Pairwise (· ≤ ·)) (hlast : readings.getLast? = some last) :
    last ≤ now :=
  (List.pairwise_append.mp hsorted).2.2 last (List.mem_of_getLast? hlast) now (by simp)

theorem head?_snoc {readings : List Nat} {first : Nat} (now : Nat)
    (h : readings.head? = some first) : (readings ++ [now]).head? = some first := by
  rw [List.head?_append, h]
  rfl

/-- The places at which the loop neither reads the clock nor makes a message. -/
def quiet : Pc → Bool
  | .checkStop _ => true
  | .retry _ _ => true
  | .pushing _ _ => true
  | _ => false

theorem unseen_of_quiet {s : State Q} {pc : Pc} (hpc : s.generator.thread = some pc)
    (hquiet : quiet pc = true) (now : Nat) (msg : MarketDataMsg) :
    reading s (.generator now msg) = none ∧ generatedMsg s (.generator now msg) = none := by
  cases pc with
  | checkStop nextTime => simp [reading, generatedMsg, mark, loopMark, hpc]
  | retry nextTime m => cases hstop : s.generator.stopRequested <;>
      simp [reading, generatedMsg, mark, loopMark, hpc, hstop]
  | pushing nextTime m => simp [reading, generatedMsg, mark, loopMark, hpc]
  | _ => exact absurd hquiet (by simp [quiet])

/-- A quiet step that goes on where the schedule allows. -/
theorem Paced.quiet {s : State Q} {pc pc' : Pc} {now n : Nat} {msg : MarketDataMsg}
    {readings : List Nat} (h : Paced s.generator.interval readings n s.generator.thread)
    (hpc : s.generator.thread = some pc) (hquiet : quiet pc = true)
    (hnext : ∀ first last, Scheduled s.generator.interval n first last pc →
      Scheduled s.generator.interval n first last pc') :
    Paced s.generator.interval (readings ++ (reading s (.generator now msg)).toList)
      (n + (generatedMsg s (.generator now msg)).toList.length) (some pc') := by
  obtain ⟨hread, hmsg⟩ := unseen_of_quiet hpc hquiet now msg
  rw [hread, hmsg, Option.toList_none, Option.toList_none, List.append_nil, List.length_nil,
    Nat.add_zero]
  rw [hpc] at h
  cases h with
  | begin => exact absurd hquiet (by simp [Pipeline.quiet])
  | running hfirst hlast hon hsched =>
      exact Paced.running hfirst hlast hon (hnext _ _ hsched)

/-- What one step of the loop does to the schedule. -/
theorem Paced.loop {s : State Q} {g' : BaseGenerator.State} {q' : MarketDataQueue.State Q}
    {now n : Nat} {msg : MarketDataMsg} {readings : List Nat}
    (h : Paced s.generator.interval readings n s.generator.thread)
    (hmove : BaseGenerator.Moves s.generator s.queue now msg g' q')
    (hsorted : (readings ++ (reading s (.generator now msg)).toList).Pairwise (· ≤ ·)) :
    Paced s.generator.interval (readings ++ (reading s (.generator now msg)).toList)
      (n + (generatedMsg s (.generator now msg)).toList.length) g'.thread := by
  cases hmove with
  | begin hpc =>
      have hread : reading s (.generator now msg) = some now := by simp [reading, hpc]
      have hmsg : generatedMsg s (.generator now msg) = none := by
        simp [generatedMsg, mark, loopMark, hpc]
      rw [hread, hmsg, Option.toList_some, Option.toList_none, List.length_nil, Nat.add_zero]
      rw [hpc] at h
      cases h with
      | begin hr hn =>
          rw [hr, hn]
          exact Paced.running rfl rfl ⟨Nat.le_refl _, by simp⟩ (by simp [Scheduled])
      | running _ _ _ hfalse => exact absurd hfalse id
  | @test nextTime hpc =>
      refine h.quiet hpc rfl fun first last hsched => ?_
      by_cases hstop : s.generator.stopRequested = true
      · rw [if_pos hstop]
        trivial
      · rw [if_neg hstop]
        exact hsched
  | @clock nextTime hpc =>
      have hread : reading s (.generator now msg) = some now := by simp [reading, hpc]
      have hmsg : generatedMsg s (.generator now msg) = none := by
        simp [generatedMsg, mark, loopMark, hpc]
      rw [hread, Option.toList_some] at hsorted
      rw [hread, hmsg, Option.toList_some]
      rw [hpc] at h
      cases h with
      | running hfirst hlast hon hsched =>
          have hle := last_le_of_pairwise hsorted hlast
          refine Paced.running (head?_snoc now hfirst) (by simp) (hon.later hle) ?_
          by_cases hdue : nextTime ≤ now
          · rw [if_pos hdue]
            exact ⟨hsched, hdue⟩
          · rw [if_neg hdue]
            exact hsched
  | @generate nextTime hpc =>
      have hread : reading s (.generator now msg) = some now := by simp [reading, hpc]
      have hmsg : generatedMsg s (.generator now msg) = some (stamped now msg) := by
        simp [generatedMsg, mark, loopMark, hpc]
      rw [hread, Option.toList_some] at hsorted
      rw [hread, hmsg, Option.toList_some]
      rw [hpc] at h
      cases h with
      | @running _ first last hfirst hlast hon hsched =>
          obtain ⟨hnext, hdue⟩ := hsched
          have hle := last_le_of_pairwise hsorted hlast
          have hcount : (n + 1) * s.generator.interval =
              n * s.generator.interval + s.generator.interval := Nat.succ_mul _ _
          refine Paced.running (head?_snoc now hfirst) (by simp)
            ⟨Nat.le_trans hon.ordered hle, ?_⟩ ?_
          · show first + (n + 1) * s.generator.interval ≤ now + s.generator.interval
            rw [hcount]
            omega
          · show nextTime + s.generator.interval = first + (n + 1) * s.generator.interval
            rw [hcount]
            omega
  | @drop nextTime m hpc hstop => exact h.quiet hpc rfl fun _ _ hsched => hsched
  | @callPush nextTime m q' hpc hstop hq => exact h.quiet hpc rfl fun _ _ hsched => hsched
  | @retPush nextTime m q' ok hpc hret hq =>
      refine h.quiet hpc rfl fun first last hsched => ?_
      cases ok <;> exact hsched

/-- The other steps of a session leave the thread where it is. -/
theorem Paced.step {s s' : State Q} {e : Event} {n : Nat} {readings : List Nat}
    (h : Paced s.generator.interval readings n s.generator.thread)
    (he : duringSession e = true) (hs : step s e = some s')
    (hsorted : (readings ++ (reading s e).toList).Pairwise (· ≤ ·)) :
    s'.generator.interval = s.generator.interval ∧
      Paced s.generator.interval (readings ++ (reading s e).toList)
        (n + (generatedMsg s e).toList.length) s'.generator.thread := by
  have hunseen : reading s e = none → generatedMsg s e = none →
      Paced s.generator.interval (readings ++ (reading s e).toList)
        (n + (generatedMsg s e).toList.length) s.generator.thread := by
    intro hread hmsg
    rw [hread, hmsg, Option.toList_none, Option.toList_none, List.append_nil, List.length_nil,
      Nat.add_zero]
    exact h
  cases moves_of_step hs with
  | setRate r => exact absurd he (by simp [duringSession])
  | startGenerator =>
      rcases start_cases s.generator with ⟨-, hnone, -⟩ | ⟨hmark, hstart⟩
      · rw [hnone] at h
        exact absurd h nofun
      · rw [hstart]
        exact ⟨rfl, hunseen rfl (by simp [generatedMsg, mark, hmark])⟩
  | requestStopGenerator =>
      have hmsg : generatedMsg s .requestStopGenerator = none := by
        unfold generatedMsg mark
        cases s.generator.thread <;> rfl
      rcases requestStop_cases s.generator with ⟨-, hstop⟩ | ⟨_, -, hstop⟩ <;>
        rw [hstop] <;> exact ⟨rfl, hunseen rfl hmsg⟩
  | joinGenerator hg => exact absurd he (by simp [duringSession])
  | generator hmove =>
      refine ⟨?_, h.loop hmove hsorted⟩
      obtain ⟨pc, heq⟩ := Moves.goto_eq hmove
      rw [heq]
      rfl
  | access hqe hq =>
      refine ⟨rfl, hunseen ?_ ?_⟩
      · cases e <;> first | rfl | exact absurd hqe (by simp [inQueue])
      · unfold generatedMsg
        rw [(unseen (Or.inl (by rw [hqe]; rfl))).1]
  | startDisseminator => exact ⟨rfl, hunseen rfl rfl⟩
  | joinDisseminator => exact ⟨rfl, hunseen rfl rfl⟩
  | idle hon =>
      refine ⟨rfl, hunseen ?_ ?_⟩
      · cases e <;> first | rfl | exact absurd hon (by simp [onDisseminator])
      · unfold generatedMsg
        rw [(unseen (Or.inr hon)).1]
  | disseminator => exact ⟨rfl, hunseen rfl rfl⟩

theorem paced_of_session {s : State Q} (hbegin : s.generator.thread = some .begin)
    {mid : List Event} : ∀ {s' : State Q}, (∀ e ∈ mid, duringSession e = true) →
      (machine Q).run s mid = some s' →
      ((machine Q).collect reading s mid).Pairwise (· ≤ ·) →
      s'.generator.interval = s.generator.interval ∧
        Paced s.generator.interval ((machine Q).collect reading s mid)
          ((machine Q).collect generatedMsg s mid).length s'.generator.thread := by
  induction mid using List.reverseRecOn with
  | nil =>
      intro s' _ hrun _
      rw [← Option.some.inj hrun, hbegin]
      exact ⟨rfl, Paced.begin rfl rfl⟩
  | append_singleton mid e ih =>
      intro s'' hmid hrun hsorted
      obtain ⟨s', hs', hs⟩ := run_snoc_some.mp hrun
      rw [collect_snoc reading hs' hs] at hsorted ⊢
      rw [collect_snoc generatedMsg hs' hs, List.length_append]
      obtain ⟨hinterval, hpaced⟩ := ih (fun x hx => hmid x (by simp [hx])) hs'
        (List.pairwise_append.mp hsorted).1
      rw [← hinterval] at hpaced ⊢
      exact hpaced.step (hmid e (by simp)) hs hsorted

/-! ### The bound -/

/-- A `start` that finds a rate and no thread; nothing is read or generated yet. -/
theorem session_start {s : State Q} (hrate : s.generator.messagesPerSec ≠ 0)
    (hthread : s.generator.thread = none) :
    ∃ s₀, (machine Q).step s .startGenerator = some s₀ ∧
      s₀ = { s with generator :=
        { s.generator with stopRequested := false, thread := some .begin } } ∧
      ∀ mid, (machine Q).collect reading s (.startGenerator :: mid) =
          (machine Q).collect reading s₀ mid ∧
        (machine Q).collect generatedMsg s (.startGenerator :: mid) =
          (machine Q).collect generatedMsg s₀ mid := by
  have hstart : (machine Q).step s .startGenerator = some { s with generator :=
      { s.generator with stopRequested := false, thread := some .begin } } := by
    show some _ = _
    rcases start_cases s.generator with ⟨-, -, hcall⟩ | ⟨hmark, -⟩
    · rw [hcall]
    · rw [startMark, if_neg hrate, hthread] at hmark
      exact absurd hmark (by simp)
  have hnone : generatedMsg s .startGenerator = none := by
    unfold generatedMsg mark startMark
    rw [if_neg hrate, hthread]
  refine ⟨_, hstart, rfl, fun mid => ⟨?_, ?_⟩⟩
  · simp only [collect, hstart]
    rfl
  · simp only [collect, hstart, hnone]
    rfl

theorem ne_zero_of_one_le {r : BitVec 32} (hr : 1 ≤ r) : r ≠ 0 := by
  intro hzero
  rw [hzero] at hr
  exact absurd hr (by decide)

/-- A whole number of nanoseconds between two messages makes the rate exact. -/
theorem withinRate_of_dvd {r : BitVec 32} (hr : 1 ≤ r) (hdvd : r.toNat ∣ 1000000000) :
    WithinRate Q r := by
  intro pre s mid s' first T hpre hrate hthread hmid hrun hsorted hhead hle
  have hne : s.generator.messagesPerSec ≠ 0 := by
    rw [hrate]
    exact ne_zero_of_one_le hr
  have hinterval : r.toNat * s.generator.interval = 1000000000 := by
    rw [rated_of_exec hpre hne, hrate]
    exact Nat.mul_div_cancel' hdvd
  obtain ⟨s₀, hstart, hs₀, hseen⟩ := session_start hne hthread
  obtain ⟨s₁, hs₁, hrest⟩ := run_cons_some.mp hrun
  rw [hstart, Option.some.injEq] at hs₁
  rw [← hs₁] at hrest
  rw [(hseen mid).1] at hsorted hhead hle
  rw [(hseen mid).2]
  obtain ⟨-, hpaced⟩ := paced_of_session (by rw [hs₀]) hmid hrest hsorted
  have hi : s₀.generator.interval = s.generator.interval := by rw [hs₀]
  rw [hi] at hpaced
  generalize (machine Q).collect reading s₀ mid = readings at hpaced hhead hle
  generalize ((machine Q).collect generatedMsg s₀ mid).length = n at hpaced ⊢
  generalize s'.generator.thread = thread at hpaced
  cases hpaced with
  | begin hnil hn =>
      rw [hn]
      exact Nat.zero_le _
  | @running pc first' last hfirst hlast hon hpc =>
      rw [hhead, Option.some.injEq] at hfirst
      rw [← hfirst] at hon
      have hlast : last ≤ first + T := hle last (List.mem_of_getLast? hlast)
      have hon := hon.reached
      cases n with
      | zero => exact Nat.zero_le _
      | succ k =>
          refine Nat.succ_le_succ ((Nat.le_div_iff_mul_le (by decide)).mpr ?_)
          have hk : k * s.generator.interval ≤ T := by
            rw [Nat.succ_mul] at hon
            omega
          calc k * 1000000000 = r.toNat * (k * s.generator.interval) := by
                rw [← hinterval, Nat.mul_left_comm]
            _ ≤ r.toNat * T := Nat.mul_le_mul_left _ hk

/-! ### Any other rate -/

/-- A pipeline whose generator has the rate `r` and the thread `thread`. -/
def ratedAt (r : BitVec 32) (thread : Option Pc) : State (SpinSpscQueue slots128) where
  generator := { messagesPerSec := r, interval := 1000000000 / r.toNat, stopRequested := false,
                 thread := thread }
  queue := (MarketDataQueue.machine _).init
  worker := none

/-- The loop from its start to the clock test after its first message, all at time 0. -/
def firstMessage (msg : MarketDataMsg) : List Event :=
  List.replicate 5 (.generator 0 msg) ++ List.replicate 4 .push ++
    List.replicate 2 (.generator 0 msg)

/-- A message at time 0, and the next one as soon as it is due. -/
def twoMessages (r : BitVec 32) (msg : MarketDataMsg) : List Event :=
  firstMessage msg ++ List.replicate 2 (.generator (1000000000 / r.toNat) msg)

theorem firstMessage_run (r : BitVec 32) (msg : MarketDataMsg) :
    ∃ q, (machine _).run (ratedAt r (some .begin)) (firstMessage msg) =
      some { ratedAt r (some (.readClock (0 + 1000000000 / r.toNat))) with queue := q } :=
  ⟨_, by with_unfolding_all rfl⟩

theorem firstMessage_seen (r : BitVec 32) (msg : MarketDataMsg) :
    (machine _).collect reading (ratedAt r (some .begin)) (firstMessage msg) = [0, 0, 0] ∧
      (machine _).collect generatedMsg (ratedAt r (some .begin)) (firstMessage msg) =
        [stamped 0 msg] :=
  ⟨by with_unfolding_all rfl, by with_unfolding_all rfl⟩

theorem twoMessages_run (r : BitVec 32) (msg : MarketDataMsg) :
    (∃ s', (machine _).run (ratedAt r (some .begin)) (twoMessages r msg) = some s') ∧
    (machine _).collect reading (ratedAt r (some .begin)) (twoMessages r msg) =
      [0, 0, 0, 1000000000 / r.toNat, 1000000000 / r.toNat] ∧
    ((machine _).collect generatedMsg (ratedAt r (some .begin)) (twoMessages r msg)).length =
      2 := by
  obtain ⟨q, hq⟩ := firstMessage_run r msg
  obtain ⟨hreadings, hmsgs⟩ := firstMessage_seen r msg
  unfold twoMessages
  rw [collect_append reading _ hq, collect_append generatedMsg _ hq, hreadings, hmsgs]
  -- the second message is due at the second reading
  have hdue : step { ratedAt r (some (.readClock (0 + 1000000000 / r.toNat))) with queue := q }
      (.generator (1000000000 / r.toNat) msg) =
      some { ratedAt r (some (.generate (0 + 1000000000 / r.toNat))) with queue := q } := by
    simp only [step, generationLoop, ratedAt]
    rw [if_pos (Nat.zero_add _).le]
    rfl
  refine ⟨⟨{ ratedAt r (some (.retry (0 + 1000000000 / r.toNat)
    (stamped (1000000000 / r.toNat) msg))) with queue := q }, ?_⟩, ?_, ?_⟩
  · exact run_append_some.mpr ⟨_, hq, run_cons_some.mpr ⟨_, hdue, rfl⟩⟩
  · simp only [List.replicate, collect, machine, hdue]
    rfl
  · simp only [List.replicate, collect, machine, hdue]
    rfl

/-- The second message comes before its time. -/
theorem not_withinRate {r : BitVec 32} (hr : 1 ≤ r) (hdvd : ¬ r.toNat ∣ 1000000000) :
    ¬ WithinRate (SpinSpscQueue slots128) r := by
  intro hwithin
  have hpre : (machine (SpinSpscQueue slots128)).Exec [.setRate r] (ratedAt r none) := by
    refine run_cons_some.mpr ⟨_, ?_, rfl⟩
    show some _ = some (ratedAt r none)
    rw [BaseGenerator.setRate, if_neg (BitVec.not_lt.mpr hr)]
    rfl
  obtain ⟨s₀, hstart, hs₀, hseen⟩ := session_start (s := ratedAt r none) (ne_zero_of_one_le hr) rfl
  have hs₀ : s₀ = ratedAt r (some .begin) := hs₀
  rw [hs₀] at hstart hseen
  obtain ⟨⟨s', hrun⟩, hreadings, hmsgs⟩ := twoMessages_run r (.trade ⟨Bytes.zero 8, 0, 0, 0, 0⟩)
  rw [← (hseen _).1] at hreadings
  rw [← (hseen _).2] at hmsgs
  have hbound := hwithin [.setRate r] (ratedAt r none) _ s' 0 (1000000000 / r.toNat) hpre rfl rfl
    (by simp [twoMessages, firstMessage, duringSession])
    (run_cons_some.mpr ⟨_, hstart, hrun⟩) (by rw [hreadings]; simp) (by rw [hreadings]; rfl)
    (by rw [hreadings]; simp)
  have hearly : r.toNat * (1000000000 / r.toNat) < 1000000000 :=
    Nat.lt_of_le_of_ne (Nat.mul_div_le _ _) fun heq => hdvd ⟨_, heq.symm⟩
  rw [hmsgs, Nat.div_eq_of_lt hearly] at hbound
  exact absurd hbound (by decide)

/--
**The rate is kept exactly by the rates that divide 10⁹.**  For every rate that
`set_rate` accepts: in every session of a generator on a queue of either class, with any
non-decreasing readings of the clock and any retries, at most `r * T / 10⁹ + 1` messages
are generated in the first `T` nanoseconds, if and only if `r` divides 10⁹.
-/
theorem withinRate_iff {r : BitVec 32} (hr : 1 ≤ r) :
    (∀ (W : Nat) (N : Capacity W),
      WithinRate (SpinSpscQueue N) r ∧ WithinRate (WaitableSpscQueue N) r) ↔
    r.toNat ∣ 1000000000 := by
  constructor
  · intro hwithin
    by_contra hdvd
    exact not_withinRate hr hdvd (hwithin 64 slots128).1
  · intro hdvd W N
    exact ⟨withinRate_of_dvd hr hdvd, withinRate_of_dvd hr hdvd⟩

theorem withinRate_iff_thousand :
    (∀ (W : Nat) (N : Capacity W),
      WithinRate (SpinSpscQueue N) 1000 ∧ WithinRate (WaitableSpscQueue N) 1000) ↔
    (1000#32).toNat ∣ 1000000000 :=
  withinRate_iff (by decide)

/-- **Three messages a second are too many.**  The interval is 333333333 nanoseconds, and
the second message is generated then, where one is allowed. -/
theorem rate_three_exceeded :
    ((machine (SpinSpscQueue slots128)).collect generatedMsg (ratedAt 3 (some .begin))
      (twoMessages 3 (.trade ⟨Bytes.zero 8, 0, 0, 0, 0⟩))).length = 2 ∧
    (machine (SpinSpscQueue slots128)).collect reading (ratedAt 3 (some .begin))
      (twoMessages 3 (.trade ⟨Bytes.zero 8, 0, 0, 0, 0⟩)) = [0, 0, 0, 333333333, 333333333] ∧
    3 * 333333333 / 1000000000 + 1 = 1 ∧ ¬ WithinRate (SpinSpscQueue slots128) 3 :=
  ⟨(twoMessages_run 3 _).2.2, (twoMessages_run 3 _).2.1, by decide,
    not_withinRate (by decide) (by decide)⟩

end Pipeline

end MarketData
