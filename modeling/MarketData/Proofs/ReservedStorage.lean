/-
How much the latency monitor can record without allocating.

Both vectors get room for `message_rate * duration_sec` records, and no more deliveries
than that are due.  A push finds room as long as all records together are fewer than the
count reserved (`Roomy`), which is the product, were it not for its type: it is computed
in 32 bits before it becomes a `size_t`.  So the room is that of the product modulo
`2 ^ 32`, and it suffices exactly while the product does not wrap.
-/
import MarketData.Main
import MarketData.Proofs.GeneratorTables

namespace MarketData

open Lib LatencyMonitor
open BaseGenerator (Error)

/-! ### Recording -/

/-- The vectors after some deliveries. -/
def recorded (G : Growth) (v : Vectors) (ds : List Delivery) : Vectors :=
  ds.foldl (Vectors.callback G) v

theorem recorded_snoc (G : Growth) (v : Vectors) (ds : List Delivery) (d : Delivery) :
    recorded G v (ds ++ [d]) = (recorded G v ds).callback G d := by
  unfold recorded
  rw [List.foldl_append]
  rfl

/-- Whatever room there is, the records are those of the monitor without it. -/
theorem state_recorded (G : Growth) (count : BitVec 64) (ds : List Delivery) :
    (recorded G (.construct G count) ds).state = ds.foldl callback State.initial := by
  induction ds using List.reverseRecOn with
  | nil => exact Vectors.state_construct G count
  | append_singleton ds d ih =>
      rw [recorded_snoc, Vectors.state_callback, ih, List.foldl_append]
      rfl

/-- Neither vector has more than `n` records, or has allocated since it was as in `v₀`. -/
structure Within (v₀ : Vectors) (n : Nat) (v : Vectors) : Prop where
  quotes : v.quoteLatencies.elems.length ≤ n
  trades : v.tradeLatencies.elems.length ≤ n
  quoteAllocations : v.quoteLatencies.allocations = v₀.quoteLatencies.allocations
  tradeAllocations : v.tradeLatencies.allocations = v₀.tradeLatencies.allocations

/-- There are `k` records, with room for `n` in each vector since it was as in `v₀`. -/
structure Roomy (v₀ : Vectors) (n k : Nat) (v : Vectors) : Prop where
  total : v.quoteLatencies.elems.length + v.tradeLatencies.elems.length = k
  quotes : Vec.Keeps n v₀.quoteLatencies v.quoteLatencies
  trades : Vec.Keeps n v₀.tradeLatencies v.tradeLatencies

variable {G : Growth} {v₀ v : Vectors} {n k : Nat}

theorem Roomy.construct (G : Growth) (count : BitVec 64) :
    Roomy (.construct G count) count.toNat 0 (.construct G count) where
  total := by simp [Vectors.construct, Vec.empty]
  quotes := Vec.Keeps.reserve _
  trades := Vec.Keeps.reserve _

/-- One more record finds room, since all of them together are fewer than `n`. -/
theorem Roomy.callback (h : Roomy v₀ n k v) (hk : k < n) (d : Delivery) :
    Roomy v₀ n (k + 1) (v.callback G d) := by
  have htotal := h.total
  obtain ⟨msg, now⟩ := d
  cases msg with
  | quote q =>
      refine ⟨?_, h.quotes.pushBack (by omega) _, h.trades⟩
      simp only [Vectors.callback, Vectors.onQuote, Vec.elems_pushBack, List.length_append,
        List.length_singleton]
      omega
  | trade t =>
      refine ⟨?_, h.quotes, h.trades.pushBack (by omega) _⟩
      simp only [Vectors.callback, Vectors.onTrade, Vec.elems_pushBack, List.length_append,
        List.length_singleton]
      omega

theorem Roomy.within (h : Roomy v₀ n k v) (hk : k ≤ n) : Within v₀ n v := by
  have htotal := h.total
  exact ⟨by omega, by omega, h.quotes.allocations, h.trades.allocations⟩

/-- As many deliveries as there is room for leave room for the rest. -/
theorem Roomy.recorded (h : Roomy v₀ n 0 v₀) (ds : List Delivery) (hlen : ds.length ≤ n) :
    Roomy v₀ n ds.length (MarketData.recorded G v₀ ds) := by
  induction ds using List.reverseRecOn with
  | nil => exact h
  | append_singleton ds d ih =>
      rw [List.length_append, List.length_singleton] at hlen ⊢
      rw [recorded_snoc]
      exact (ih (by omega)).callback (by omega) d

/-- Quotes are recorded one by one, whatever room there is. -/
theorem length_recorded_replicate (q : Quote) (now : BitVec 64) (v : Vectors) (k : Nat) :
    (recorded G v (List.replicate k { msg := .quote q, receiveTimestamp := now })
      ).quoteLatencies.elems.length = v.quoteLatencies.elems.length + k := by
  induction k with
  | zero => rfl
  | succ k ih =>
      rw [List.replicate_succ', recorded_snoc]
      simp only [Vectors.callback, Vectors.onQuote, Vec.elems_pushBack, List.length_append,
        List.length_singleton, ih]
      omega

/-! ### What `main` reserves -/

namespace Main

theorem toNat_preallocateCount (config : BenchmarkConfig) : (preallocateCount config).toNat =
    config.messageRate.toNat * config.durationSec.toNat % 2 ^ 32 := by
  unfold preallocateCount
  rw [BitVec.toNat_setWidth, BitVec.toNat_mul]
  exact Nat.mod_eq_of_lt (Nat.lt_trans (Nat.mod_lt _ (by decide)) (by decide))

theorem setUp_eq_ok {files : String → List Byte} {config : BenchmarkConfig} {b : Benchmark}
    (h : setUp G files config = .ok b) :
    b.config = config ∧ b.monitor = .construct G (preallocateCount config) := by
  unfold setUp at h
  split at h
  · rw [← Except.ok.inj h]
    exact ⟨rfl, rfl⟩
  · cases h

theorem bind_eq_ok_iff {α β : Type} {x : Except Error α} {f : α → Except Error β} {r : β} :
    x >>= f = .ok r ↔ ∃ a, x = .ok a ∧ f a = .ok r := by
  cases x with
  | error e =>
      constructor
      · intro h
        cases h
      · rintro ⟨a, h, -⟩
        cases h
  | ok a =>
      constructor
      · intro h
        exact ⟨a, rfl, h⟩
      · rintro ⟨a', h, hf⟩
        rw [Except.ok.inj h]
        exact hf

/-- `main` goes through if all its parts do. -/
theorem main_eq_ok_iff {files : String → List Byte} {result : ParseResult} {b : Benchmark} :
    main G files result = .ok (some b) ↔ result.help = false ∧
      ∃ config, benchmarkConfig result = .ok config ∧ dispatchSize config = .ok () ∧
        setUp G files config = .ok b := by
  unfold main
  by_cases hhelp : result.help = true
  · simp [hhelp]
  · rw [if_neg hhelp, bind_eq_ok_iff]
    simp only [bind_eq_ok_iff, Bool.not_eq_true] at hhelp ⊢
    constructor
    · rintro ⟨config, hconfig, ⟨⟩, hsize, b', hb, h⟩
      obtain rfl : b' = b := Option.some.inj (Except.ok.inj h)
      exact ⟨hhelp, config, hconfig, hsize, hb⟩
    · rintro ⟨-, config, hconfig, hsize, hb⟩
      exact ⟨config, hconfig, (), hsize, b, hb, rfl⟩

theorem benchmarkConfig_eq_ok_iff {result : ParseResult} {config : BenchmarkConfig} :
    benchmarkConfig result = .ok config ↔ ∃ strategy underlying protocol,
      queueStrategy result.queue = .ok strategy ∧
      underlyingQueue result.underlying = .ok underlying ∧
      transport result.transport = .ok protocol ∧
      config = { queueStrategy := strategy, transport := protocol, underlyingQueue := underlying,
                 queueSize := result.size, messageRate := result.rate,
                 durationSec := result.duration, symbolsFile := result.symbols } := by
  unfold benchmarkConfig
  simp only [bind_eq_ok_iff]
  constructor
  · rintro ⟨strategy, hq, underlying, hu, protocol, ht, h⟩
    exact ⟨strategy, underlying, protocol, hq, hu, ht, (Except.ok.inj h).symm⟩
  · rintro ⟨strategy, underlying, protocol, hq, hu, ht, rfl⟩
    exact ⟨strategy, hq, underlying, hu, protocol, ht, rfl⟩

/-- What has been set up when `main` goes on to start the threads. -/
theorem main_eq_ok {files : String → List Byte} {result : ParseResult} {b : Benchmark}
    (h : main G files result = .ok (some b)) :
    b.config.messageRate = result.rate ∧ b.config.durationSec = result.duration ∧
      b.monitor = .construct G (preallocateCount b.config) := by
  obtain ⟨-, config, hconfig, -, hb⟩ := main_eq_ok_iff.mp h
  obtain ⟨_, _, _, _, _, _, rfl⟩ := benchmarkConfig_eq_ok_iff.mp hconfig
  obtain ⟨hb, hmonitor⟩ := setUp_eq_ok hb
  rw [hb]
  exact ⟨rfl, rfl, hmonitor⟩

/-! ### What `main` accepts -/

theorem exists_oneOf_iff {α : Type} {first second : String × α} {what name : String} :
    (∃ x, oneOf first second what name = .ok x) ↔ name = first.1 ∨ name = second.1 := by
  unfold oneOf
  by_cases hfirst : name = first.1
  · simp [hfirst]
  · by_cases hsecond : name = second.1
    · rw [if_neg hfirst, if_pos hsecond]
      exact ⟨fun _ => .inr hsecond, fun _ => ⟨_, rfl⟩⟩
    · rw [if_neg hfirst, if_neg hsecond]
      simp [hfirst, hsecond]

theorem dispatchSize_eq_ok_iff {config : BenchmarkConfig} :
    dispatchSize config = .ok () ↔ config.queueSize ∈ queueSizes := by
  unfold dispatchSize
  by_cases h : config.queueSize ∈ queueSizes <;> simp [h]

theorem exists_setUp_iff {files : String → List Byte} {config : BenchmarkConfig} :
    (∃ b, setUp G files config = .ok b) ↔ 1 ≤ config.messageRate ∧
      RandomWalkGenerator.readSymbolsFile (files config.symbolsFile) ≠ [] := by
  unfold setUp
  rcases RandomWalkGenerator.configure_cases .initial config.messageRate
    (files config.symbolsFile) with
    ⟨hrate, heq⟩ | ⟨hrate, interval, ⟨hempty, heq⟩ | ⟨hsymbols, heq⟩⟩
  · rw [heq]
    constructor
    · rintro ⟨b, hb⟩
      cases hb
    · rintro ⟨hle, -⟩
      exact absurd hle (BitVec.not_le.mpr hrate)
  · rw [heq]
    simp [hempty]
  · rw [heq]
    exact ⟨fun _ => ⟨hrate, hsymbols⟩, fun _ => ⟨_, rfl⟩⟩

/-- The arguments are those of a benchmark that can be run. -/
structure Accepts (files : String → List Byte) (result : ParseResult) : Prop where
  help : result.help = false
  queue : result.queue = "spin" ∨ result.queue = "waitable"
  underlying : result.underlying = "custom" ∨ result.underlying = "boost"
  transport : result.transport = "udp" ∨ result.transport = "zmq"
  size : result.size ∈ queueSizes
  rate : 1 ≤ result.rate
  symbols : RandomWalkGenerator.readSymbolsFile (files result.symbols) ≠ []

/-- **What `main` accepts**: any rate but zero, and any duration. -/
theorem main_accepts_iff {files : String → List Byte} {result : ParseResult} :
    (∃ b, main G files result = .ok (some b)) ↔ Accepts files result := by
  constructor
  · rintro ⟨b, h⟩
    obtain ⟨hhelp, config, hconfig, hsize, hb⟩ := main_eq_ok_iff.mp h
    obtain ⟨strategy, underlying, protocol, hq, hu, ht, rfl⟩ :=
      benchmarkConfig_eq_ok_iff.mp hconfig
    obtain ⟨hrate, hsymbols⟩ := exists_setUp_iff.mp ⟨b, hb⟩
    exact ⟨hhelp, exists_oneOf_iff.mp ⟨_, hq⟩, exists_oneOf_iff.mp ⟨_, hu⟩,
      exists_oneOf_iff.mp ⟨_, ht⟩, dispatchSize_eq_ok_iff.mp hsize, hrate, hsymbols⟩
  · intro h
    obtain ⟨strategy, hq⟩ : ∃ q, queueStrategy result.queue = .ok q :=
      exists_oneOf_iff.mpr h.queue
    obtain ⟨underlying, hu⟩ : ∃ u, underlyingQueue result.underlying = .ok u :=
      exists_oneOf_iff.mpr h.underlying
    obtain ⟨protocol, ht⟩ : ∃ t, transport result.transport = .ok t :=
      exists_oneOf_iff.mpr h.transport
    obtain ⟨config, hconfig, hsize, hrate, hsymbols⟩ : ∃ config,
        benchmarkConfig result = .ok config ∧ config.queueSize = result.size ∧
          config.messageRate = result.rate ∧ config.symbolsFile = result.symbols :=
      ⟨_, benchmarkConfig_eq_ok_iff.mpr ⟨strategy, underlying, protocol, hq, hu, ht, rfl⟩,
        rfl, rfl, rfl⟩
    have hdispatch : dispatchSize config = .ok () := by
      rw [dispatchSize_eq_ok_iff, hsize]
      exact h.size
    obtain ⟨b, hb⟩ : ∃ b, setUp G files config = .ok b := by
      rw [exists_setUp_iff, hrate, hsymbols]
      exact ⟨h.rate, h.symbols⟩
    exact ⟨b, main_eq_ok_iff.mpr ⟨h.help, config, hconfig, hdispatch, hb⟩⟩

/-! ### Every delivery -/

/-- As many deliveries as the rate and the duration allow are recorded in the room that
was reserved: after each of them. -/
def RecordsWithinReserve (G : Growth) (b : Benchmark) : Prop :=
  ∀ ds : List Delivery,
    ds.length ≤ b.config.messageRate.toNat * b.config.durationSec.toNat →
    ∀ pre, pre <+: ds →
      Within b.monitor (preallocateCount b.config).toNat (recorded G b.monitor pre)

theorem recordsWithinReserve_of_lt {b : Benchmark}
    (hmonitor : b.monitor = .construct G (preallocateCount b.config))
    (hlt : b.config.messageRate.toNat * b.config.durationSec.toNat < 2 ^ 32) :
    RecordsWithinReserve G b := by
  have hcount : (preallocateCount b.config).toNat =
      b.config.messageRate.toNat * b.config.durationSec.toNat := by
    rw [toNat_preallocateCount, Nat.mod_eq_of_lt hlt]
  intro ds hds pre hpre
  have hlen : pre.length ≤ (preallocateCount b.config).toNat := by
    rw [hcount]
    exact Nat.le_trans hpre.length_le hds
  rw [hmonitor]
  exact ((Roomy.construct G _).recorded pre hlen).within hlen

/-- A quote with everything zero. -/
def zeroDelivery : Delivery :=
  { msg := .quote (RandomWalkGenerator.generateQuote [] 0 0 0 0 0), receiveTimestamp := 0 }

/-- A product that wraps leaves room for fewer records than are due. -/
theorem not_recordsWithinReserve_of_le {b : Benchmark}
    (hle : 2 ^ 32 ≤ b.config.messageRate.toNat * b.config.durationSec.toNat) :
    ¬ RecordsWithinReserve G b := by
  intro h
  have hcount := toNat_preallocateCount b.config
  have hmod : b.config.messageRate.toNat * b.config.durationSec.toNat % 2 ^ 32 < 2 ^ 32 :=
    Nat.mod_lt _ (by decide)
  have hwithin := h (List.replicate ((preallocateCount b.config).toNat + 1) zeroDelivery)
    (by rw [List.length_replicate, hcount]; omega) _ List.prefix_rfl
  have hquotes := hwithin.quotes
  unfold zeroDelivery at hquotes
  rw [length_recorded_replicate] at hquotes
  omega

/--
**Recording stays within the reserved storage exactly while the product does not wrap.**
For whatever `main` accepts, and however vectors grow.
-/
theorem records_within_reserve_iff (G : Growth) (files : String → List Byte)
    (result : ParseResult) (b : Benchmark) (h : main G files result = .ok (some b)) :
    RecordsWithinReserve G b ↔ result.rate.toNat * result.duration.toNat < 2 ^ 32 := by
  obtain ⟨hrate, hduration, hmonitor⟩ := main_eq_ok h
  rw [← hrate, ← hduration]
  constructor
  · intro hwithin
    by_contra hlt
    exact not_recordsWithinReserve_of_le (Nat.le_of_not_lt hlt) hwithin
  · exact recordsWithinReserve_of_lt hmonitor

/-- Every path names a file with one symbol. -/
def oneSymbol (_ : String) : List Byte := "AAPL\n".toList.map byteOf

/-- 65536 messages a second, for 65536 seconds. -/
def longRun : ParseResult := { rate := 65536, duration := 65536 }

/-- **Nothing is reserved.**  The arguments are accepted, the product wraps to zero, and
the first of the messages makes its vector allocate. -/
theorem longRun_allocates :
    ∃ b, main .doubling oneSymbol longRun = .ok (some b) ∧ preallocateCount b.config = 0 ∧
      b.monitor.quoteLatencies.allocations = 0 ∧
      (recorded .doubling b.monitor [zeroDelivery]).quoteLatencies.allocations = 1 ∧
      ¬ RecordsWithinReserve .doubling b := by
  refine ⟨_, rfl, rfl, rfl, rfl, ?_⟩
  exact not_recordsWithinReserve_of_le (by decide)

/-- The defaults of the command line. -/
theorem records_within_reserve_iff_defaults :
    ∃ b, main .doubling oneSymbol {} = .ok (some b) ∧ preallocateCount b.config = 100000 ∧
      RecordsWithinReserve .doubling b := by
  refine ⟨_, rfl, rfl, ?_⟩
  exact (records_within_reserve_iff .doubling oneSymbol {} _ rfl).mpr (by decide)

end Main

end MarketData
