/-
The prices of a session.

A price belongs to a position of the symbols file, starts at 100 when `resize` makes its
entry, and from then on is the sum of the steps drawn for its index.  Two things follow.

  * A message is valid exactly as long as that sum is positive: the spread is a multiple
    of the price, so bid, ask and price change sign together.  Nothing keeps the sum
    positive.
  * The messages of a symbol follow one walk from 100 exactly if the symbol has one
    position and `resize` made its entry anew.  A repeated line has a price of its own,
    and an entry that was there before keeps its price.
-/
import MarketData.Lib.History
import MarketData.Proofs.GeneratorTables
import Mathlib.Algebra.BigOperators.Group.List.Basic
import Mathlib.Data.List.Nodup
import Mathlib.Tactic.Linarith
import Mathlib.Tactic.NormNum
import Mathlib.Tactic.Ring

namespace MarketData.RandomWalkGenerator

open Lib Machine

/-- Positive prices in the right order, and positive sizes. -/
def ExactMsg.Valid : ExactMsg → Prop
  | quote q => (0 < q.bidPrice ∧ q.bidPrice < q.askPrice) ∧ 0 < q.bidSize ∧ 0 < q.askSize
  | trade t => 0 < t.price ∧ 0 < t.size

instance : (msg : ExactMsg) → Decidable msg.Valid
  | .quote q => inferInstanceAs (Decidable ((0 < q.bidPrice ∧ q.bidPrice < q.askPrice) ∧
      0 < q.bidSize ∧ 0 < q.askSize))
  | .trade t => inferInstanceAs (Decidable (0 < t.price ∧ 0 < t.size))

/-- The sum of the steps that were drawn for an index. -/
def stepsFor (idx : Nat) (ds : List Draw) : ℚ :=
  ((ds.filter fun d => d.idx == idx).map Draw.priceStep).sum

/-- Each price is the one before plus the step, from a first price on. -/
def IsWalk (price : ℚ) : List (ℚ × ℚ) → Prop
  | [] => True
  | (step, next) :: rest => next = price + step ∧ IsWalk next rest

/-- The price a walk has come to. -/
def walkEnd (price : ℚ) : List (ℚ × ℚ) → ℚ
  | [] => price
  | (_, next) :: rest => walkEnd next rest

/-- The steps and prices of the messages for a symbol. -/
def walkOf (symbol : List Byte) (msgs : List Generated) : List (ℚ × ℚ) :=
  (msgs.filter fun m => m.symbol = symbol).map fun m => (m.priceStep, m.msg.midPrice)

def Event.isConfigure : Event → Bool
  | .configure _ _ => true
  | _ => false

/-! ### One message -/

theorem midPrice_msgAt (symbol : List Byte) (price : ℚ) (d : Draw) :
    (msgAt symbol price d).midPrice = price := by
  cases d with
  | quote idx step bidSize askSize now =>
      show (price - price * (1 / 1000) / 2 + (price + price * (1 / 1000) / 2)) / 2 = price
      ring
  | trade idx step size now => rfl

/-- Within the drawn sizes a message is valid if its price is positive. -/
theorem valid_msgAt_iff {symbol : List Byte} {price : ℚ} {d : Draw} (hd : d.SizesInRange) :
    (msgAt symbol price d).Valid ↔ 0 < price := by
  cases d with
  | quote idx step bidSize askSize now =>
      obtain ⟨⟨hbid, -⟩, ⟨hask, -⟩⟩ := hd
      show (0 < price - price * (1 / 1000) / 2 ∧
        price - price * (1 / 1000) / 2 < price + price * (1 / 1000) / 2) ∧
          0 < bidSize ∧ 0 < askSize ↔ 0 < price
      have hsizes : 0 < bidSize ∧ 0 < askSize := by
        constructor <;> bv_omega
      constructor
      · rintro ⟨⟨hpos, -⟩, -⟩
        linarith
      · intro hpos
        refine ⟨⟨?_, ?_⟩, hsizes⟩ <;> linarith
  | trade idx step size now =>
      have hsize : 0 < size := by
        have hd : 10 ≤ size := hd.1
        bv_omega
      exact and_iff_left hsize

/-- What a message needs and does, for an index that is in both tables. -/
theorem generate_spec {g : State} {d : Draw} {symbol : List Byte} {price : ℚ}
    (hd : d.InRange g.symbols.length) (hsymbol : g.symbols[d.idx]? = some symbol)
    (hprice : g.currentPrices[d.idx]? = some price) :
    machine.step g (.generate d) = some (g.setPrice d.idx (price + d.priceStep)) ∧
    generated g (.generate d) =
      some ⟨symbol, d.priceStep, msgAt symbol (price + d.priceStep) d⟩ := by
  have hgen : generateMsgImpl g d = some (g.setPrice d.idx (price + d.priceStep),
      msgAt symbol (price + d.priceStep) d) := by
    unfold generateMsgImpl movePrice
    rw [hsymbol, hprice]
    rfl
  constructor
  · show (if d.InRange g.symbols.length then _ else _) = _
    rw [if_pos hd, hgen]
    rfl
  · show (generateMsgImpl g d).map _ = _
    rw [hgen, hsymbol]
    rfl

/-! ### The prices are sums of steps -/

theorem stepsFor_snoc_self (d : Draw) (ds : List Draw) :
    stepsFor d.idx (ds ++ [d]) = stepsFor d.idx ds + d.priceStep := by
  unfold stepsFor
  rw [List.filter_append, List.filter_cons_of_pos (by simp), List.map_append, List.sum_append]
  simp

theorem stepsFor_snoc_other {idx : Nat} {d : Draw} (h : d.idx ≠ idx) (ds : List Draw) :
    stepsFor idx (ds ++ [d]) = stepsFor idx ds := by
  unfold stepsFor
  rw [List.filter_append, List.filter_cons_of_neg (by simpa using h), List.filter_nil,
    List.append_nil]

theorem stepsFor_replicate (d : Draw) (n : Nat) :
    stepsFor d.idx (List.replicate n d) = n * d.priceStep := by
  unfold stepsFor
  rw [List.filter_replicate_of_pos (by simp), List.map_replicate, List.sum_replicate, nsmul_eq_mul]

/-- The prices after a list of draws, and when all its messages were valid. -/
structure Drawn (g : State) (ds : List Draw) (t : State) : Prop where
  run : machine.run g (ds.map .generate) = some t
  symbols : t.symbols = g.symbols
  prices : ∀ (idx : Nat) (price : ℚ), g.currentPrices[idx]? = some price →
    t.currentPrices[idx]? = some (price + stepsFor idx ds)
  valid : (∀ m ∈ machine.collect generated g (ds.map .generate), m.msg.Valid) ↔
    ∀ pre d suf, ds = pre ++ d :: suf → ∀ price, g.currentPrices[d.idx]? = some price →
      0 < price + stepsFor d.idx (pre ++ [d])

theorem drawn_of_inRange {g : State} (hg : InBounds g) {ds : List Draw}
    (hds : ∀ d ∈ ds, d.InRange g.symbols.length) : ∃ t, Drawn g ds t := by
  induction ds using List.reverseRecOn with
  | nil =>
      refine ⟨g, rfl, rfl, ?_, ?_⟩
      · intro idx price hprice
        simpa [stepsFor] using hprice
      · simp [collect]
  | append_singleton ds d ih =>
      obtain ⟨t, ht⟩ := ih fun x hx => hds x (by simp [hx])
      have hd : d.InRange g.symbols.length := hds d (by simp)
      obtain ⟨hsym, hpri⟩ := hg.draws d.idx hd.1
      have hprice : g.currentPrices[d.idx]? = some g.currentPrices[d.idx] :=
        List.getElem?_eq_getElem hpri
      have hsymbol : t.symbols[d.idx]? = some g.symbols[d.idx] := by
        rw [ht.symbols]
        exact List.getElem?_eq_getElem hsym
      obtain ⟨hs, hmsg⟩ := generate_spec (by rw [ht.symbols]; exact hd) hsymbol
        (ht.prices _ _ hprice)
      refine ⟨t.setPrice d.idx (g.currentPrices[d.idx] + stepsFor d.idx ds + d.priceStep), ?_,
        ht.symbols, ?_, ?_⟩
      · rw [List.map_append]
        exact run_snoc_some.mpr ⟨t, ht.run, hs⟩
      · intro idx price hidx
        have htidx := ht.prices idx price hidx
        by_cases heq : d.idx = idx
        · rw [← heq] at hidx htidx ⊢
          rw [hprice, Option.some.injEq] at hidx
          obtain ⟨hlt, -⟩ := List.getElem?_eq_some_iff.mp htidx
          rw [State.currentPrices_setPrice, List.getElem?_set_self hlt, stepsFor_snoc_self, hidx,
            add_assoc]
        · rw [State.currentPrices_setPrice, List.getElem?_set_ne heq, stepsFor_snoc_other heq,
            htidx]
      · rw [List.map_append, List.map_singleton, collect_snoc generated ht.run hs, hmsg,
          forall_split_snoc, ← ht.valid, List.forall_mem_append]
        refine and_congr_right fun _ => ?_
        rw [Option.toList_some, List.forall_mem_singleton, valid_msgAt_iff hd.2, hprice,
          stepsFor_snoc_self, add_assoc]
        simp

/-! ### The price table of a `configure` -/

theorem mem_resize {α : Type} {xs : List α} {size : Nat} {value x : α} :
    x ∈ resize xs size value → x ∈ xs.take size ∨ x = value := by
  unfold resize
  rw [List.mem_append]
  exact Or.imp_right List.eq_of_mem_replicate

theorem configure_ok {s g : State} {rate : BitVec 32} {file : List Byte}
    (h : configure s rate file = (g, .ok ())) :
    readSymbolsFile file ≠ [] ∧ g.symbols = readSymbolsFile file ∧
      g.currentPrices = resize s.currentPrices (readSymbolsFile file).length 100 := by
  rcases configure_cases s rate file with ⟨-, hcall⟩ | ⟨-, interval, ⟨-, hcall⟩ | ⟨hne, hcall⟩⟩
  · rw [hcall, Prod.mk.injEq] at h
    exact absurd h.2 (by simp)
  · rw [hcall, Prod.mk.injEq] at h
    exact absurd h.2 (by simp)
  · rw [hcall, Prod.mk.injEq] at h
    rw [← h.1]
    exact ⟨hne, rfl, rfl⟩

theorem inBounds_of_configure {s g : State} {rate : BitVec 32} {file : List Byte}
    (h : configure s rate file = (g, .ok ())) : InBounds g := by
  obtain ⟨hne, hsymbols, hprices⟩ := configure_ok h
  refine inBounds_of_nonempty (by rw [hsymbols]; exact hne) ?_
  rw [hprices, length_resize, hsymbols]

/-! ### Valid data -/

/--
**Data are valid exactly as long as the walks stay positive.**  After a successful
`configure` of a new generator and for every list of draws within their ranges: the
messages are generated, and all of them are valid if and only if at every draw 100 plus
the steps drawn for its index so far is positive.
-/
theorem valid_data_iff {rate : BitVec 32} {file : List Byte} {g : State}
    (h : configure State.initial rate file = (g, .ok ())) {ds : List Draw}
    (hds : ∀ d ∈ ds, d.InRange g.symbols.length) :
    (∃ t, machine.run g (ds.map .generate) = some t) ∧
    ((∀ m ∈ machine.collect generated g (ds.map .generate), m.msg.Valid) ↔
      ∀ pre d suf, ds = pre ++ d :: suf → 0 < 100 + stepsFor d.idx (pre ++ [d])) := by
  have hg := inBounds_of_configure h
  have hhundred : ∀ (idx : Nat) (price : ℚ), g.currentPrices[idx]? = some price → price = 100 := by
    intro idx price hprice
    have hmem := List.mem_of_getElem? hprice
    rw [(configure_ok h).2.2] at hmem
    rcases mem_resize hmem with hold | hnew
    · simp [State.initial] at hold
    · exact hnew
  obtain ⟨t, ht⟩ := drawn_of_inRange hg hds
  refine ⟨⟨t, ht.run⟩, ht.valid.trans ?_⟩
  constructor
  · intro hpos pre d suf hsplit
    have hidx := (hg.draws d.idx (hds d (by rw [hsplit]; simp)).1).2
    have hprice := List.getElem?_eq_getElem hidx
    have := hpos pre d suf hsplit _ hprice
    rwa [hhundred _ _ hprice] at this
  · intro hpos pre d suf hsplit price hprice
    rw [hhundred _ _ hprice]
    exact hpos pre d suf hsplit

/-- A generator configured with two symbols. -/
def twoSymbols : State := (configure State.initial 1 ("A\nB\n".toList.map byteOf)).1

theorem twoSymbols_eq :
    configure State.initial 1 ("A\nB\n".toList.map byteOf) = (twoSymbols, .ok ()) :=
  rfl

/-- Draws for both symbols, up and down. -/
def upAndDown : List Draw :=
  [.trade 0 (1 / 10) 10 0, .quote 1 (-1 / 5) 50 50 1, .quote 0 (-7 / 20) 50 50 2,
    .trade 1 (1 / 40) 10 3, .trade 0 (1 / 20) 10 4]

/-- The five messages are valid, so the sums are positive. -/
theorem valid_data_iff_upAndDown :
    (machine.collect generated twoSymbols (upAndDown.map .generate)).map
        (fun m => m.msg.midPrice) = [1001 / 10, 499 / 5, 399 / 4, 3993 / 40, 499 / 5] ∧
    (∀ m ∈ machine.collect generated twoSymbols (upAndDown.map .generate), m.msg.Valid) ∧
    ∀ pre d suf, upAndDown = pre ++ d :: suf → 0 < 100 + stepsFor d.idx (pre ++ [d]) := by
  have hds : ∀ d ∈ upAndDown, d.InRange twoSymbols.symbols.length := by decide +kernel
  have hvalid : ∀ m ∈ machine.collect generated twoSymbols (upAndDown.map .generate),
      m.msg.Valid := by
    decide +kernel
  exact ⟨by decide +kernel, hvalid, (valid_data_iff twoSymbols_eq hds).2.mp hvalid⟩

/-- A generator configured with one symbol. -/
def oneSymbol : State := (configure State.initial 1 ("A\n".toList.map byteOf)).1

theorem oneSymbol_eq : configure State.initial 1 ("A\n".toList.map byteOf) = (oneSymbol, .ok ()) :=
  rfl

/-- A step down by one standard deviation, for a trade and for a quote. -/
def fallingTrade : Draw := .trade 0 (-1 / 20) 10 0

def fallingQuote : Draw := .quote 0 (-1 / 10) 50 50 0

def falling : List Draw := List.replicate 2000 fallingTrade ++ [fallingQuote]

theorem falling_inRange : ∀ d ∈ falling, d.InRange oneSymbol.symbols.length := by
  intro d hd
  rcases List.mem_append.mp hd with hd | hd
  · rw [List.eq_of_mem_replicate hd]
    decide +kernel
  · rw [List.mem_singleton.mp hd]
    decide +kernel

/-- **A quote with negative prices.**  Two thousand small steps take the price from 100 to 0,
and one more takes the quote below it, with the bid above the ask. -/
theorem negative_quote :
    configure State.initial 1 ("A\n".toList.map byteOf) = (oneSymbol, .ok ()) ∧
    (∀ d ∈ falling, d.InRange oneSymbol.symbols.length) ∧
    (machine.collect generated oneSymbol (falling.map .generate)).getLast? =
      some ⟨[byteOf 'A'], -1 / 10,
        .quote ⟨symbolField [byteOf 'A'], -(1999 / 20000), -(2001 / 20000), 50, 50, 0⟩⟩ ∧
    ¬ ∀ m ∈ machine.collect generated oneSymbol (falling.map .generate), m.msg.Valid := by
  obtain ⟨t, ht⟩ := drawn_of_inRange (inBounds_of_configure oneSymbol_eq)
    fun d hd => falling_inRange d (List.mem_append_left _ hd)
  have hsymbol : t.symbols[0]? = some [byteOf 'A'] := by
    rw [ht.symbols]
    decide +kernel
  -- The trades take the price to 0, and the quote goes on from there.
  have hsum : stepsFor 0 (List.replicate 2000 fallingTrade) = -100 := by
    rw [show 0 = fallingTrade.idx from rfl, stepsFor_replicate]
    decide +kernel
  have hprice : t.currentPrices[0]? = some 0 := by
    rw [ht.prices 0 100 (by decide +kernel), hsum]
    decide +kernel
  obtain ⟨hs, hmsg⟩ := generate_spec (d := fallingQuote) (by rw [ht.symbols]; decide +kernel)
    hsymbol hprice
  have hlast : (machine.collect generated oneSymbol (falling.map .generate)).getLast? =
      some ⟨[byteOf 'A'], -1 / 10,
        .quote ⟨symbolField [byteOf 'A'], -(1999 / 20000), -(2001 / 20000), 50, 50, 0⟩⟩ := by
    rw [falling, List.map_append, List.map_singleton, collect_snoc generated ht.run hs, hmsg,
      Option.toList_some, List.getLast?_concat]
    decide +kernel
  refine ⟨oneSymbol_eq, falling_inRange, hlast, ?_⟩
  intro h
  obtain ⟨⟨hbid, -⟩, -⟩ := h _ (List.mem_of_getLast? hlast)
  exact absurd hbid (by decide +kernel)

/-! ### Walks -/

theorem walkEnd_snoc (price : ℚ) (walk : List (ℚ × ℚ)) (step next : ℚ) :
    walkEnd price (walk ++ [(step, next)]) = next := by
  induction walk generalizing price with
  | nil => rfl
  | cons x rest ih => exact ih x.2

theorem isWalk_snoc {price : ℚ} {walk : List (ℚ × ℚ)} {step next : ℚ} :
    IsWalk price (walk ++ [(step, next)]) ↔
      IsWalk price walk ∧ next = walkEnd price walk + step := by
  induction walk generalizing price with
  | nil => simp [IsWalk, walkEnd]
  | cons x rest ih =>
      show (x.2 = price + x.1 ∧ IsWalk x.2 (rest ++ [(step, next)])) ↔
        (x.2 = price + x.1 ∧ IsWalk x.2 rest) ∧ next = walkEnd x.2 rest + step
      rw [ih, and_assoc]

theorem walkOf_snoc_self (m : Generated) (msgs : List Generated) :
    walkOf m.symbol (msgs ++ [m]) = walkOf m.symbol msgs ++ [(m.priceStep, m.msg.midPrice)] := by
  unfold walkOf
  rw [List.filter_append, List.filter_cons_of_pos (by simp), List.map_append]
  rfl

theorem walkOf_snoc_other {symbol : List Byte} {m : Generated} (h : m.symbol ≠ symbol)
    (msgs : List Generated) : walkOf symbol (msgs ++ [m]) = walkOf symbol msgs := by
  unfold walkOf
  rw [List.filter_append, List.filter_cons_of_neg (by simpa using h), List.filter_nil,
    List.append_nil]

/-- Without a `configure` the tables change by messages only. -/
theorem step_tables {g g' : State} {e : Event} (he : e.isConfigure = false)
    (hs : machine.step g e = some g') :
    (g'.symbols = g.symbols ∧ g'.currentPrices = g.currentPrices ∧ generated g e = none) ∨
    ∃ d symbol price, g.symbols[d.idx]? = some symbol ∧ g.currentPrices[d.idx]? = some price ∧
      g' = g.setPrice d.idx (price + d.priceStep) ∧
      generated g e = some ⟨symbol, d.priceStep, msgAt symbol (price + d.priceStep) d⟩ := by
  cases e with
  | configure rate file => exact absurd he (by simp [Event.isConfigure])
  | setRate rate =>
      simp only [machine, step, Option.ite_none_right_eq_some, Option.some.injEq] at hs
      rw [← hs.2]
      rcases setRate_cases g rate with ⟨-, hcall⟩ | ⟨-, _, hcall⟩ <;> rw [hcall] <;>
        exact Or.inl ⟨rfl, rfl, rfl⟩
  | start =>
      have hs : (start g).1 = g' := Option.some.inj hs
      rw [← hs]
      rcases start_cases g with ⟨-, hcall⟩ | ⟨-, base, -, -, hcall⟩ <;> rw [hcall] <;>
        exact Or.inl ⟨rfl, rfl, rfl⟩
  | stop =>
      rw [← Option.some.inj hs]
      exact Or.inl ⟨rfl, rfl, rfl⟩
  | generate d =>
      simp only [machine, step, Option.ite_none_right_eq_some, Option.map_eq_some_iff] at hs
      obtain ⟨hd, ⟨g₁, msg⟩, hgen, hg'⟩ := hs
      obtain ⟨symbol, price, hsymbol, hprice, hg₁, -⟩ := generateMsgImpl_cases hgen
      refine Or.inr ⟨d, symbol, price, hsymbol, hprice, ?_, (generate_spec hd hsymbol hprice).2⟩
      rw [← hg', hg₁]

/-- Every symbol has come by a walk to the price at its position. -/
structure OnWalks (t : State) (msgs : List Generated) : Prop where
  walks : ∀ symbol, IsWalk 100 (walkOf symbol msgs)
  ends : ∀ (idx : Nat) (symbol : List Byte), t.symbols[idx]? = some symbol →
    t.currentPrices[idx]? = some (walkEnd 100 (walkOf symbol msgs))

/-- Symbols at one position each are kept on their walks by a message. -/
theorem OnWalks.generate {t : State} {msgs : List Generated} (h : OnWalks t msgs)
    (hnodup : t.symbols.Nodup) {d : Draw} {symbol : List Byte} {price : ℚ}
    (hsymbol : t.symbols[d.idx]? = some symbol) (hprice : t.currentPrices[d.idx]? = some price) :
    OnWalks (t.setPrice d.idx (price + d.priceStep))
      (msgs ++ [⟨symbol, d.priceStep, msgAt symbol (price + d.priceStep) d⟩]) := by
  have hend : price = walkEnd 100 (walkOf symbol msgs) := by
    have := h.ends _ _ hsymbol
    rw [hprice] at this
    exact Option.some.inj this
  obtain ⟨hlt, -⟩ := List.getElem?_eq_some_iff.mp hprice
  obtain ⟨hlen, -⟩ := List.getElem?_eq_some_iff.mp hsymbol
  have hself := walkOf_snoc_self ⟨symbol, d.priceStep, msgAt symbol (price + d.priceStep) d⟩ msgs
  simp only [midPrice_msgAt] at hself
  refine ⟨?_, ?_⟩
  · intro other
    by_cases heq : symbol = other
    · rw [← heq, hself, isWalk_snoc]
      exact ⟨h.walks symbol, by rw [hend]⟩
    · rw [walkOf_snoc_other heq]
      exact h.walks other
  · intro idx other hother
    have hother : t.symbols[idx]? = some other := hother
    rw [State.currentPrices_setPrice]
    by_cases hidx : d.idx = idx
    · rw [← hidx, hsymbol] at hother
      rw [← hidx, ← Option.some.inj hother, hself, walkEnd_snoc, List.getElem?_set_self hlt]
    · have hne : symbol ≠ other := by
        intro heq
        rw [← heq, ← hsymbol] at hother
        exact hidx ((List.getElem?_inj hlen hnodup).mp hother.symm)
      rw [List.getElem?_set_ne hidx, walkOf_snoc_other hne]
      exact h.ends idx other hother

theorem onWalks_of_run {g : State} (hnodup : g.symbols.Nodup) (hg : OnWalks g [])
    {evs : List Event} : ∀ {t : State}, (∀ e ∈ evs, e.isConfigure = false) →
      machine.run g evs = some t →
      t.symbols = g.symbols ∧ OnWalks t (machine.collect generated g evs) := by
  induction evs using List.reverseRecOn with
  | nil =>
      intro t _ ht
      rw [← Option.some.inj ht]
      exact ⟨rfl, hg⟩
  | append_singleton evs e ih =>
      intro t' hevs ht'
      obtain ⟨t, ht, hs⟩ := run_snoc_some.mp ht'
      obtain ⟨hsymbols, hwalks⟩ := ih (fun x hx => hevs x (by simp [hx])) ht
      rw [collect_snoc generated ht hs]
      rcases step_tables (hevs e (by simp)) hs with ⟨hsym, hpri, hnone⟩ |
        ⟨d, symbol, price, hsymbol, hprice, hset, hmsg⟩
      · rw [hnone, Option.toList_none, List.append_nil]
        refine ⟨hsym.trans hsymbols, hwalks.walks, ?_⟩
        rw [hsym, hpri]
        exact hwalks.ends
      · rw [hmsg, hset]
        exact ⟨hsymbols, hwalks.generate (by rw [hsymbols]; exact hnodup) hsymbol hprice⟩

/-- Whatever is called from `g` on until the next `configure`, every symbol follows one
walk from 100. -/
def WalksFromHundred (g : State) : Prop :=
  ∀ evs t, (∀ e ∈ evs, e.isConfigure = false) → machine.run g evs = some t →
    ∀ symbol, IsWalk 100 (walkOf symbol (machine.collect generated g evs))

/-- A trade, at any index of the table. -/
theorem generate_trade {g : State} {idx : Nat} {symbol : List Byte} {price : ℚ}
    (hsymbol : g.symbols[idx]? = some symbol) (hprice : g.currentPrices[idx]? = some price)
    (step : ℚ) :
    machine.step g (.generate (.trade idx step 10 0)) = some (g.setPrice idx (price + step)) ∧
      generated g (.generate (.trade idx step 10 0)) =
        some ⟨symbol, step, .trade (tradeAt symbol (price + step) 10 0)⟩ := by
  obtain ⟨hlt, -⟩ := List.getElem?_eq_some_iff.mp hsymbol
  have hle : idx ≤ lastIndex g.symbols.length := by
    rw [lastIndex, if_neg (by omega)]
    omega
  exact generate_spec (d := .trade idx step 10 0) ⟨hle, by decide +kernel, by decide +kernel⟩
    hsymbol hprice

/-- One message without a step shows the entry at its index. -/
theorem WalksFromHundred.price_eq {g : State} (h : WalksFromHundred g)
    {idx : Nat} {symbol : List Byte} {price : ℚ} (hsymbol : g.symbols[idx]? = some symbol)
    (hprice : g.currentPrices[idx]? = some price) : price = 100 := by
  obtain ⟨hs, hmsg⟩ := generate_trade hsymbol hprice 0
  have hwalk := h [.generate (.trade idx 0 10 0)] _ (by simp [Event.isConfigure])
    (by rw [run_singleton]; exact hs) symbol
  rw [collect_singleton generated hs, hmsg] at hwalk
  have hfirst : IsWalk 100 [(0, price + 0)] := by
    simpa [walkOf, ExactMsg.midPrice, tradeAt] using hwalk
  simpa using hfirst.1

/-- A step drawn at one position is missing at another position of the same symbol. -/
theorem WalksFromHundred.nodup {g : State} (h : WalksFromHundred g) (hg : InBounds g) :
    g.symbols.Nodup := by
  rw [List.nodup_iff_getElem?_ne_getElem?]
  intro i j hij hj heq
  have hj' : j < g.currentPrices.length := Nat.lt_of_lt_of_le hj hg.prices
  have hi' : i < g.currentPrices.length := Nat.lt_trans hij hj'
  have hsj := List.getElem?_eq_getElem hj
  have hsi := heq.trans hsj
  have hpi := List.getElem?_eq_getElem hi'
  have hpj := List.getElem?_eq_getElem hj'
  obtain ⟨hs₁, hmsg₁⟩ := generate_trade hsi hpi 1
  have hpj' : (g.setPrice i (g.currentPrices[i] + 1)).currentPrices[j]? =
      some g.currentPrices[j] := by
    rw [State.currentPrices_setPrice, List.getElem?_set_ne (by omega), hpj]
  obtain ⟨hs₂, hmsg₂⟩ := generate_trade (g := g.setPrice i _) hsj hpj' 0
  have hrun := run_cons_some.mpr ⟨_, hs₁, (run_singleton _ _).trans hs₂⟩
  have hwalk := h [.generate (.trade i 1 10 0), .generate (.trade j 0 10 0)] _
    (by simp [Event.isConfigure]) hrun g.symbols[j]
  have hmsgs : machine.collect generated g
      [.generate (.trade i 1 10 0), .generate (.trade j 0 10 0)] =
      [⟨g.symbols[j], 1, .trade (tradeAt g.symbols[j] (g.currentPrices[i] + 1) 10 0)⟩,
        ⟨g.symbols[j], 0, .trade (tradeAt g.symbols[j] (g.currentPrices[j] + 0) 10 0)⟩] := by
    simp only [collect, hs₁, hs₂, hmsg₁, hmsg₂, Option.toList_some]
    rfl
  rw [hmsgs, h.price_eq hsi hpi, h.price_eq hsj hpj] at hwalk
  have hsecond : IsWalk 100 [(1, 100 + 1), (0, 100 + 0)] := by
    simpa [walkOf, ExactMsg.midPrice, tradeAt] using hwalk
  exact absurd hsecond.2.1 (by norm_num)

theorem walksFromHundred_iff {g : State} (hg : InBounds g) :
    WalksFromHundred g ↔ g.symbols.Nodup ∧ ∀ (idx : Nat) (symbol : List Byte) (price : ℚ),
      g.symbols[idx]? = some symbol → g.currentPrices[idx]? = some price → price = 100 := by
  constructor
  · intro h
    exact ⟨h.nodup hg, fun idx symbol price => h.price_eq⟩
  · rintro ⟨hnodup, hhundred⟩ evs t hevs hrun
    refine (onWalks_of_run hnodup ⟨fun _ => trivial, ?_⟩ hevs hrun).2.walks
    intro idx symbol hsymbol
    obtain ⟨hlt, -⟩ := List.getElem?_eq_some_iff.mp hsymbol
    have hprice := List.getElem?_eq_getElem (Nat.lt_of_lt_of_le hlt hg.prices)
    rw [hprice, hhundred idx symbol _ hsymbol hprice]
    rfl

/-- What `resize` makes is 100, so it is the kept prices that decide. -/
theorem configured_prices_iff {s g : State} {rate : BitVec 32} {file : List Byte}
    (h : configure s rate file = (g, .ok ())) :
    (∀ (idx : Nat) (symbol : List Byte) (price : ℚ), g.symbols[idx]? = some symbol →
      g.currentPrices[idx]? = some price → price = 100) ↔
    ∀ price ∈ s.currentPrices.take (readSymbolsFile file).length, price = 100 := by
  obtain ⟨-, hsymbols, hprices⟩ := configure_ok h
  constructor
  · intro hall price hmem
    have hmem' : price ∈ g.currentPrices := by
      rw [hprices]
      exact List.mem_append_left _ hmem
    obtain ⟨idx, hidx, hget⟩ := List.getElem_of_mem hmem'
    have hlt : idx < g.symbols.length := by
      rw [hprices, length_resize] at hidx
      rw [hsymbols]
      exact hidx
    exact hall idx _ price (List.getElem?_eq_getElem hlt)
      (List.getElem?_eq_some_iff.mpr ⟨hidx, hget⟩)
  · intro hkept idx symbol price _ hprice
    have hmem := List.mem_of_getElem? hprice
    rw [hprices] at hmem
    rcases mem_resize hmem with hold | hnew
    · exact hkept price hold
    · exact hnew

/--
**Each symbol walks from 100 exactly if its entry is its own and new.**  For every
history of calls and every `configure` after it that succeeds: whatever is called until
the next `configure`, and whatever is drawn, the messages of every symbol follow one
walk from 100, if and only if the file lists no symbol twice and every price that
`resize` keeps is 100.
-/
theorem walks_from_hundred_iff {pre : List Event} {s g : State} (h : machine.Exec pre s)
    (hidle : s.base.thread.isNone = true) {rate : BitVec 32} {file : List Byte}
    (hok : configure s rate file = (g, .ok ())) :
    (∀ evs t, (∀ e ∈ evs, e.isConfigure = false) →
      machine.Exec (pre ++ .configure rate file :: evs) t →
      ∀ symbol, IsWalk 100 (walkOf symbol (machine.collect generated g evs))) ↔
    (readSymbolsFile file).Nodup ∧
      ∀ price ∈ s.currentPrices.take (readSymbolsFile file).length, price = 100 := by
  have hstep : machine.step s (.configure rate file) = some g := by
    show (if s.base.thread.isNone then _ else _) = _
    rw [if_pos hidle, hok]
  have hexec : ∀ evs t, machine.Exec (pre ++ .configure rate file :: evs) t ↔
      machine.run g evs = some t := by
    intro evs t
    constructor
    · intro hall
      obtain ⟨u, hu, hrest⟩ := hall.split
      rw [hu.unique h] at hrest
      obtain ⟨v, hv, ht⟩ := run_cons_some.mp hrest
      rw [hstep, Option.some.injEq] at hv
      rw [hv]
      exact ht
    · intro hrun
      exact h.append (run_cons_some.mpr ⟨g, hstep, hrun⟩)
  simp only [hexec]
  rw [← configured_prices_iff hok, ← (configure_ok hok).2.1]
  exact walksFromHundred_iff (inBounds_of_configure hok)

/-- A generator that has been configured and has moved its price. -/
def movedAway : List Event :=
  [.configure 1 ("A\n".toList.map byteOf), .generate (.trade 0 (1 / 20) 10 0)]

theorem movedAway_goes : (machine.run machine.init movedAway).isSome = true := by
  decide +kernel

/-- The price has come back to where it started. -/
def movedBack : List Event := movedAway ++ [.generate (.quote 0 (-1 / 20) 50 50 1)]

theorem movedBack_goes : (machine.run machine.init movedBack).isSome = true := by
  decide +kernel

/-- Another `configure`, with the same file. -/
def configuredAgain (s : State) : State := (configure s 1 ("A\n".toList.map byteOf)).1

/-- The price that `configure` keeps decides. -/
theorem walks_from_hundred_iff_configuredAgain :
    ((machine.final movedAway movedAway_goes).currentPrices = [2001 / 20] ∧
      ¬ ∀ evs t, (∀ e ∈ evs, e.isConfigure = false) →
        machine.Exec (movedAway ++ .configure 1 ("A\n".toList.map byteOf) :: evs) t →
        ∀ symbol, IsWalk 100 (walkOf symbol (machine.collect generated
          (configuredAgain (machine.final movedAway movedAway_goes)) evs))) ∧
    (machine.final movedBack movedBack_goes).currentPrices = [100] ∧
      ∀ evs t, (∀ e ∈ evs, e.isConfigure = false) →
        machine.Exec (movedBack ++ .configure 1 ("A\n".toList.map byteOf) :: evs) t →
        ∀ symbol, IsWalk 100 (walkOf symbol (machine.collect generated
          (configuredAgain (machine.final movedBack movedBack_goes)) evs)) := by
  have haway : (machine.final movedAway movedAway_goes).currentPrices = [2001 / 20] := by
    decide +kernel
  have hback : (machine.final movedBack movedBack_goes).currentPrices = [100] := by
    decide +kernel
  have hread : readSymbolsFile ("A\n".toList.map byteOf) = [[byteOf 'A']] := by
    decide +kernel
  refine ⟨⟨haway, ?_⟩, hback, ?_⟩
  · rw [walks_from_hundred_iff (Machine.exec_final movedAway_goes) (by decide +kernel) rfl, haway,
      hread]
    rintro ⟨-, hkept⟩
    exact absurd (hkept (2001 / 20) (by simp)) (by norm_num)
  · rw [walks_from_hundred_iff (Machine.exec_final movedBack_goes) (by decide +kernel) rfl, hback,
      hread]
    simp

/-- A generator configured with a file that repeats its line. -/
def repeatedSymbol : State := (configure State.initial 1 ("A\nA\n".toList.map byteOf)).1

/-- **Two walks for one symbol.**  A file lists the symbol twice; the price of the second
message does not go on from the first. -/
theorem two_walks_for_a_symbol :
    configure State.initial 1 ("A\nA\n".toList.map byteOf) = (repeatedSymbol, .ok ()) ∧
    (machine.run repeatedSymbol [.generate (.trade 0 1 10 0), .generate (.trade 1 0 10 0)]).isSome
      = true ∧
    walkOf [byteOf 'A'] (machine.collect generated repeatedSymbol
      [.generate (.trade 0 1 10 0), .generate (.trade 1 0 10 0)]) = [(1, 101), (0, 100)] ∧
    ¬ IsWalk 100 (walkOf [byteOf 'A'] (machine.collect generated repeatedSymbol
      [.generate (.trade 0 1 10 0), .generate (.trade 1 0 10 0)])) := by
  have hwalk : walkOf [byteOf 'A'] (machine.collect generated repeatedSymbol
      [.generate (.trade 0 1 10 0), .generate (.trade 1 0 10 0)]) = [(1, 101), (0, 100)] := by
    decide +kernel
  refine ⟨rfl, by decide +kernel, hwalk, ?_⟩
  rw [hwalk]
  rintro ⟨-, hnext, -⟩
  exact absurd hnext (by norm_num)

end MarketData.RandomWalkGenerator
