/-
The generator's tables and its guard.

`start` looks at the rate only.  The rate is set by `set_rate`, which knows nothing of
symbols, and by a `configure` that goes on to throw because the file has no symbols,
after it has replaced the symbols that were there.  So a session can start with an empty
table, and its first message indexes outside it.

What the members hold is a function of the calls so far: the rate is non-zero once a
call has carried one, and the symbols are those of the file of the latest `configure`
whose rate was accepted (`latestFile`).  `current_prices_` is never the shorter table.
Hence the exact condition: before every `start` that finds a rate, that file has a
symbol.
-/
import MarketData.Generator.RandomWalk
import MarketData.Lib.Machine

namespace MarketData.RandomWalkGenerator

open Lib Machine

/-- No index that `symbol_distr` can return leaves either table. -/
structure InBounds (g : State) : Prop where
  nonempty : g.symbols ≠ []
  prices : g.symbols.length ≤ g.currentPrices.length
  noUnderflow : 1 ≤ g.symbols.length
  draws : ∀ idx, idx ≤ lastIndex g.symbols.length →
    idx < g.symbols.length ∧ idx < g.currentPrices.length

/-- From every `start` that does not throw to the next `stop` all indices are in
bounds. -/
def SessionsInBounds (es : List Event) : Prop :=
  ∀ pre mid suf g g', es = pre ++ .start :: mid ++ suf → machine.Exec pre g →
    (start g).2 = .ok () → .stop ∉ mid → machine.run (start g).1 mid = some g' → InBounds g'

/-- The call carries a rate that `set_rate` accepts. -/
def AcceptsRate : Event → Prop
  | .configure rate _ => 1 ≤ rate
  | .setRate rate => 1 ≤ rate
  | _ => False

/-- The file a call leaves behind, if it was another before. -/
def fileAfter (file : Option (List Byte)) : Event → Option (List Byte)
  | .configure rate symbolsFile => if rate < 1 then file else some symbolsFile
  | _ => file

/-- The file of the latest `configure` whose rate was accepted. -/
def latestFile (es : List Event) : Option (List Byte) := es.foldl fileAfter none

/-- Before every `start` that finds a rate, the latest file had a symbol. -/
def ConfiguredBeforeStart (es : List Event) : Prop :=
  ∀ pre suf, es = pre ++ .start :: suf → (∃ e ∈ pre, AcceptsRate e) →
    ∃ file, latestFile pre = some file ∧ readSymbolsFile file ≠ []

/-! ### What the calls do -/

theorem setRate_cases (g : State) (rate : BitVec 32) :
    (rate < 1 ∧ setRate g rate = (g, .error (.invalidArgument "Rate must be > 0"))) ∨
    (1 ≤ rate ∧ ∃ interval, setRate g rate =
      ({ g with base := { g.base with messagesPerSec := rate, interval := interval } },
        .ok ())) := by
  unfold setRate BaseGenerator.setRate
  by_cases h : rate < 1
  · rw [if_pos h]
    exact Or.inl ⟨h, rfl⟩
  · rw [if_neg h]
    exact Or.inr ⟨BitVec.not_lt.mp h, _, rfl⟩

/-- `configure` throws before it writes, throws after it has written the rate and the
symbols, or goes through. -/
theorem configure_cases (g : State) (rate : BitVec 32) (file : List Byte) :
    (rate < 1 ∧ configure g rate file = (g, .error (.invalidArgument "Rate must be > 0"))) ∨
    (1 ≤ rate ∧ ∃ interval,
      let base := { g.base with messagesPerSec := rate, interval := interval }
      (readSymbolsFile file = [] ∧ configure g rate file =
        ({ g with base := base, symbols := [] },
          .error (.logicError "Symbols file empty or invalid."))) ∨
      (readSymbolsFile file ≠ [] ∧ configure g rate file =
        (⟨base, readSymbolsFile file,
          resize g.currentPrices (readSymbolsFile file).length 100⟩, .ok ()))) := by
  unfold configure
  rcases setRate_cases g rate with ⟨hrate, hset⟩ | ⟨hrate, interval, hset⟩
  · rw [hset]
    exact Or.inl ⟨hrate, rfl⟩
  · rw [hset]
    refine Or.inr ⟨hrate, interval, ?_⟩
    by_cases hempty : readSymbolsFile file = []
    · refine Or.inl ⟨hempty, ?_⟩
      simp only [hempty, List.isEmpty_nil, if_true]
    · refine Or.inr ⟨hempty, ?_⟩
      simp only [List.isEmpty_iff, if_neg hempty]

theorem start_cases (g : State) :
    (g.base.messagesPerSec = 0 ∧ start g =
      (g, .error (.logicError "Generator rate has not been configured."))) ∨
    (g.base.messagesPerSec ≠ 0 ∧ ∃ base, base.messagesPerSec = g.base.messagesPerSec ∧
      base.thread.isSome = true ∧ start g = ({ g with base := base }, .ok ())) := by
  unfold start BaseGenerator.start
  by_cases h : g.base.messagesPerSec = 0
  · rw [if_pos h]
    exact Or.inl ⟨h, rfl⟩
  · rw [if_neg h]
    refine Or.inr ⟨h, ?_⟩
    cases hthread : g.base.thread with
    | none =>
        exact ⟨{ g.base with stopRequested := false, thread := some .begin }, rfl, rfl, rfl⟩
    | some pc => exact ⟨g.base, rfl, by rw [hthread]; rfl, rfl⟩

/-- A message moves one price and nothing else. -/
theorem generateMsgImpl_cases {g g' : State} {d : Draw} {msg : ExactMsg}
    (h : generateMsgImpl g d = some (g', msg)) :
    ∃ symbol price, g.symbols[d.idx]? = some symbol ∧ g.currentPrices[d.idx]? = some price ∧
      g' = g.setPrice d.idx (price + d.priceStep) ∧
      msg = msgAt symbol (price + d.priceStep) d := by
  unfold generateMsgImpl at h
  obtain ⟨symbol, hsymbol, h⟩ := Option.bind_eq_some_iff.mp h
  obtain ⟨moved, hmoved, h⟩ := Option.map_eq_some_iff.mp h
  obtain ⟨price, hprice, hmove⟩ := Option.map_eq_some_iff.mp hmoved
  rw [← hmove, Prod.mk.injEq] at h
  exact ⟨symbol, price, hsymbol, hprice, h.1.symm, h.2.symm⟩

theorem length_resize {α : Type} (xs : List α) (size : Nat) (value : α) :
    (resize xs size value).length = size := by
  unfold resize
  rw [List.length_append, List.length_take, List.length_replicate]
  omega

/-! ### The members follow the calls -/

/-- What the members hold after the calls `es`. -/
structure Follows (es : List Event) (g : State) : Prop where
  rate : g.base.messagesPerSec ≠ 0 ↔ ∃ e ∈ es, AcceptsRate e
  symbols : g.symbols = ((latestFile es).map readSymbolsFile).getD []
  prices : g.symbols.length ≤ g.currentPrices.length

theorem latestFile_snoc (es : List Event) (e : Event) :
    latestFile (es ++ [e]) = fileAfter (latestFile es) e := by
  unfold latestFile
  rw [List.foldl_append]
  rfl

theorem exists_snoc_iff {P : Event → Prop} {es : List Event} {e : Event} :
    (∃ x ∈ es ++ [e], P x) ↔ (∃ x ∈ es, P x) ∨ P e := by
  simp only [List.mem_append, List.mem_singleton]
  constructor
  · rintro ⟨x, hx | hx, hP⟩
    · exact Or.inl ⟨x, hx, hP⟩
    · rw [hx] at hP
      exact Or.inr hP
  · rintro (⟨x, hx, hP⟩ | hP)
    · exact ⟨x, Or.inl hx, hP⟩
    · exact ⟨e, Or.inr rfl, hP⟩

/-- A call that carries no accepted rate keeps what the rate and the symbols follow. -/
theorem Follows.keep {es : List Event} {g g' : State} {e : Event} (h : Follows es g)
    (he : ¬ AcceptsRate e) (hrate : g'.base.messagesPerSec = g.base.messagesPerSec)
    (hsymbols : g'.symbols = g.symbols)
    (hprices : g'.currentPrices.length = g.currentPrices.length) : Follows (es ++ [e]) g' := by
  have hfile : fileAfter (latestFile es) e = latestFile es := by
    cases e with
    | configure rate file => exact if_pos (BitVec.not_le.mp he)
    | _ => rfl
  refine ⟨?_, ?_, ?_⟩
  · rw [hrate, h.rate, exists_snoc_iff]
    exact ⟨Or.inl, fun hor => hor.resolve_right he⟩
  · rw [hsymbols, h.symbols, latestFile_snoc, hfile]
  · rw [hsymbols, hprices]
    exact h.prices

/-- A call with an accepted rate writes it. -/
theorem Follows.rated {es : List Event} {g : State} {e : Event} {rate : BitVec 32}
    (he : AcceptsRate e) (hrate : 1 ≤ rate) (hg : g.base.messagesPerSec = rate) :
    g.base.messagesPerSec ≠ 0 ↔ ∃ x ∈ es ++ [e], AcceptsRate x := by
  have hpos : rate ≠ 0 := by
    intro hzero
    rw [hzero] at hrate
    exact absurd hrate (by decide)
  rw [hg, exists_snoc_iff]
  exact ⟨fun _ => Or.inr he, fun _ => hpos⟩

theorem follows_of_step {es : List Event} {g g' : State} {e : Event} (h : Follows es g)
    (hs : step g e = some g') : Follows (es ++ [e]) g' := by
  cases e with
  | configure rate file =>
      simp only [step, Option.ite_none_right_eq_some, Option.some.injEq] at hs
      obtain ⟨-, hs⟩ := hs
      have hlatest : 1 ≤ rate → latestFile (es ++ [.configure rate file]) = some file := by
        intro hrate
        rw [latestFile_snoc]
        exact if_neg (BitVec.not_lt.mpr hrate)
      rcases configure_cases g rate file with ⟨hlow, hcall⟩ | ⟨hrate, _, hcall⟩
      · rw [hcall] at hs
        rw [← hs]
        exact h.keep (BitVec.not_le.mpr hlow) rfl rfl rfl
      · rcases hcall with ⟨hempty, hcall⟩ | ⟨-, hcall⟩
        · rw [hcall] at hs
          rw [← hs]
          refine ⟨Follows.rated hrate hrate rfl, ?_, Nat.zero_le _⟩
          rw [hlatest hrate]
          exact hempty.symm
        · rw [hcall] at hs
          rw [← hs]
          refine ⟨Follows.rated hrate hrate rfl, ?_, (length_resize _ _ _).ge⟩
          rw [hlatest hrate]
          rfl
  | setRate rate =>
      simp only [step, Option.ite_none_right_eq_some, Option.some.injEq] at hs
      obtain ⟨-, hs⟩ := hs
      rcases setRate_cases g rate with ⟨hlow, hcall⟩ | ⟨hrate, _, hcall⟩
      · rw [hcall] at hs
        rw [← hs]
        exact h.keep (BitVec.not_le.mpr hlow) rfl rfl rfl
      · rw [hcall] at hs
        rw [← hs]
        refine ⟨Follows.rated hrate hrate rfl, ?_, h.prices⟩
        rw [latestFile_snoc]
        exact h.symbols
  | start =>
      rw [step, Option.some.injEq] at hs
      rcases start_cases g with ⟨-, hcall⟩ | ⟨-, base, hrate, -, hcall⟩
      · rw [hcall] at hs
        rw [← hs]
        exact h.keep id rfl rfl rfl
      · rw [hcall] at hs
        rw [← hs]
        exact h.keep id hrate rfl rfl
  | stop =>
      rw [step, Option.some.injEq] at hs
      rw [← hs]
      refine h.keep id ?_ rfl rfl
      show (BaseGenerator.requestStop g.base).messagesPerSec = _
      unfold BaseGenerator.requestStop
      cases g.base.thread <;> rfl
  | generate d =>
      simp only [step, Option.ite_none_right_eq_some, Option.map_eq_some_iff] at hs
      obtain ⟨-, ⟨g₁, msg⟩, hgen, hs⟩ := hs
      obtain ⟨symbol, price, -, -, hg, -⟩ := generateMsgImpl_cases hgen
      rw [← hs, hg]
      exact h.keep id rfl rfl (List.length_set ..)

theorem follows_of_exec {es : List Event} {g : State} (h : machine.Exec es g) : Follows es g := by
  refine Exec.induction (P := Follows) ⟨?_, rfl, Nat.le_refl _⟩ ?_ h
  · simp [machine, State.initial, BaseGenerator.State.initial]
  · intro es g e g' _ ih hs
    exact follows_of_step ih hs

/-! ### Sessions -/

/-- Until `stop` a session keeps running on the symbols it has. -/
theorem session_symbols {mid : List Event} {g g' : State} (hstop : .stop ∉ mid)
    (hrun : g.base.thread.isSome = true) (hmid : machine.run g mid = some g') :
    g'.symbols = g.symbols := by
  induction mid generalizing g with
  | nil => rw [Option.some.inj hmid]
  | cons e rest ih =>
      obtain ⟨t, hs, ht⟩ := run_cons_some.mp hmid
      have hidle : g.base.thread.isNone = false := by
        rw [← Option.not_isSome, hrun]
        rfl
      have hkeep : t.base.thread.isSome = true ∧ t.symbols = g.symbols := by
        cases e with
        | configure rate file => simp [machine, step, hidle] at hs
        | setRate rate => simp [machine, step, hidle] at hs
        | start =>
            have hs : (start g).1 = t := Option.some.inj hs
            rcases start_cases g with ⟨-, hcall⟩ | ⟨-, base, -, hthread, hcall⟩
            · rw [hcall] at hs
              rw [← hs]
              exact ⟨hrun, rfl⟩
            · rw [hcall] at hs
              rw [← hs]
              exact ⟨hthread, rfl⟩
        | stop => simp at hstop
        | generate d =>
            simp only [machine, step, Option.ite_none_right_eq_some,
              Option.map_eq_some_iff] at hs
            obtain ⟨-, ⟨g₁, msg⟩, hgen, hs⟩ := hs
            obtain ⟨symbol, price, -, -, hg, -⟩ := generateMsgImpl_cases hgen
            rw [← hs, hg]
            exact ⟨hrun, rfl⟩
      rw [ih (fun hmem => hstop (by simp [hmem])) hkeep.1 ht, hkeep.2]

theorem inBounds_of_nonempty {g : State} (hne : g.symbols ≠ [])
    (hprices : g.symbols.length ≤ g.currentPrices.length) : InBounds g := by
  have hpos : 1 ≤ g.symbols.length := List.length_pos_of_ne_nil hne
  refine ⟨hne, hprices, hpos, ?_⟩
  intro idx hidx
  rw [lastIndex, if_neg (by omega)] at hidx
  omega

/--
**Indices stay in bounds exactly if every session starts on a file with symbols.**  For
every sequence of calls, `configure` and `set_rate` only between sessions and with any
rate and file: from every `start` that does not throw to the next `stop` both tables
cover every index that can be drawn, if and only if before every `start` that finds a
rate the latest `configure` whose rate was accepted had a file with a symbol in it.
-/
theorem sessions_in_bounds_iff {es : List Event} {s : State} (h : machine.Exec es s) :
    SessionsInBounds es ↔ ConfiguredBeforeStart es := by
  have hsymbols : ∀ {pre g}, machine.Exec pre g →
      (g.symbols ≠ [] ↔ ∃ file, latestFile pre = some file ∧ readSymbolsFile file ≠ []) := by
    intro pre g hpre
    rw [(follows_of_exec hpre).symbols]
    cases latestFile pre <;> simp
  constructor
  · intro hin pre suf hes hrate
    rw [hes] at h
    obtain ⟨g, hpre, -⟩ := h.split
    rcases start_cases g with ⟨hzero, -⟩ | ⟨-, base, -, -, hcall⟩
    · exact absurd hzero ((follows_of_exec hpre).rate.mpr hrate)
    · have hbounds := hin pre [] suf g (start g).1 (by rw [hes]; simp) hpre (by rw [hcall])
        (by simp) rfl
      rw [hcall] at hbounds
      exact (hsymbols hpre).mp hbounds.nonempty
  · intro hconf pre mid suf g g' hes hpre hok hstop hmid
    rcases start_cases g with ⟨-, hcall⟩ | ⟨hrate, base, -, hthread, hcall⟩
    · rw [hcall] at hok
      exact absurd hok (by simp)
    have hstart : machine.Exec (pre ++ [.start]) (start g).1 :=
      run_snoc_some.mpr ⟨g, hpre, rfl⟩
    have hg' : machine.Exec (pre ++ [.start] ++ mid) g' := hstart.append hmid
    have hne : g.symbols ≠ [] := by
      refine (hsymbols hpre).mpr (hconf pre (mid ++ suf) ?_ ?_)
      · rw [hes, List.append_assoc]
        rfl
      · exact (follows_of_exec hpre).rate.mp hrate
    have hkeep : g'.symbols = g.symbols := by
      rw [hcall] at hmid
      exact session_symbols (g := { g with base := base }) hstop hthread hmid
    refine inBounds_of_nonempty ?_ (follows_of_exec hg').prices
    rw [hkeep]
    exact hne

/-- A rate, a file of one symbol and a session with one message. -/
def configuredRun : List Event :=
  [.configure 1000 ("A\n".toList.map byteOf), .start, .generate (.trade 0 1 10 0), .stop]

theorem sessions_in_bounds_iff_configuredRun :
    (machine.run machine.init configuredRun).isSome = true ∧
      (SessionsInBounds configuredRun ↔ ConfiguredBeforeStart configuredRun) :=
  have h : (machine.run machine.init configuredRun).isSome = true := by decide +kernel
  ⟨h, sessions_in_bounds_iff (exec_final h)⟩

/-- A new generator after a `configure` with a file that has no symbols. -/
def withoutSymbols : State := (configure State.initial 1 []).1

/-- **A session without symbols.**  `configure` throws, `start` goes through all the
same, and there is no symbol to draw. -/
theorem start_without_symbols :
    (configure State.initial 1 []).2 = .error (.logicError "Symbols file empty or invalid.") ∧
      machine.Exec [.configure 1 []] withoutSymbols ∧ (start withoutSymbols).2 = .ok () ∧
      ¬ SessionsInBounds [.configure 1 [], .start] := by
  have hexec : machine.Exec [.configure 1 []] withoutSymbols := rfl
  refine ⟨rfl, hexec, rfl, ?_⟩
  intro hin
  exact (hin [.configure 1 []] [] [] withoutSymbols (start withoutSymbols).1 rfl hexec rfl
    (by simp) rfl).nonempty rfl

end MarketData.RandomWalkGenerator
