/-
`RandomWalkGenerator`: the tables and the walk.

The members that `configure` writes and `generate_msg_impl` reads, with prices in exact
arithmetic in place of `double`.  What the random number generator returns is an
argument (`Draw`); its distributions bound the index and the sizes, and not the step.

`configure` can throw after it has written some of the members, so a call returns the
state it leaves as well as what it throws.  An index outside its table has no defined
behaviour: there `generateMsgImpl` is `none`.
-/
import MarketData.Generator.BaseGenerator
import MarketData.Generator.RandomWalkGenerator
import Mathlib.Algebra.Order.Field.Rat

namespace MarketData

open Lib

namespace RandomWalkGenerator

/-- A `Quote` with exact prices. -/
structure ExactQuote where
  symbol : Bytes 8
  bidPrice : ℚ
  askPrice : ℚ
  bidSize : BitVec 32
  askSize : BitVec 32
  enqueueTimestamp : BitVec 64
deriving DecidableEq

/-- A `Trade` with an exact price. -/
structure ExactTrade where
  symbol : Bytes 8
  price : ℚ
  size : BitVec 32
  enqueueTimestamp : BitVec 64
deriving DecidableEq

inductive ExactMsg
  | quote (q : ExactQuote)
  | trade (t : ExactTrade)
deriving DecidableEq

/-- The price a message is about; for a quote the one in the middle. -/
def ExactMsg.midPrice : ExactMsg → ℚ
  | quote q => (q.bidPrice + q.askPrice) / 2
  | trade t => t.price

/-- What one call of `generate_msg_impl` draws, and the clock it reads. -/
inductive Draw
  | quote (idx : Nat) (priceStep : ℚ) (bidSize askSize : BitVec 32) (now : BitVec 64)
  | trade (idx : Nat) (priceStep : ℚ) (size : BitVec 32) (now : BitVec 64)

namespace Draw

def idx : Draw → Nat
  | quote idx _ _ _ _ => idx
  | trade idx _ _ _ => idx

def priceStep : Draw → ℚ
  | quote _ priceStep _ _ _ => priceStep
  | trade _ priceStep _ _ => priceStep

/-- The ranges of `quote_size` and `trade_size`. -/
def SizesInRange : Draw → Prop
  | quote _ _ bidSize askSize _ =>
      (50 ≤ bidSize ∧ bidSize ≤ 500) ∧ (50 ≤ askSize ∧ askSize ≤ 500)
  | trade _ _ size _ => 10 ≤ size ∧ size ≤ 100

instance : (d : Draw) → Decidable d.SizesInRange
  | quote .. => inferInstanceAs (Decidable ((_ ∧ _) ∧ (_ ∧ _)))
  | trade .. => inferInstanceAs (Decidable (_ ∧ _))

end Draw

/-- `symbols_.size() - 1`, a `size_t`: the upper end of `symbol_distr`. -/
def lastIndex (size : Nat) : Nat := if size = 0 then 2 ^ 64 - 1 else size - 1

/-- The draws the distributions allow when there are `size` symbols. -/
def Draw.InRange (size : Nat) (d : Draw) : Prop := d.idx ≤ lastIndex size ∧ d.SizesInRange

instance (size : Nat) (d : Draw) : Decidable (d.InRange size) :=
  inferInstanceAs (Decidable (_ ∧ _))

/-- The members, those of the base class in `base`. -/
structure State where
  base : BaseGenerator.State
  symbols : List (List Byte)
  currentPrices : List ℚ

/-- A new generator. -/
def State.initial : State :=
  { base := BaseGenerator.State.initial, symbols := [], currentPrices := [] }

/-- `vector::resize`. -/
def resize {α : Type} (xs : List α) (size : Nat) (value : α) : List α :=
  xs.take size ++ List.replicate (size - xs.length) value

/-- The state a call leaves, and what it throws. -/
abbrev Outcome := State × Except BaseGenerator.Error Unit

/-- A call of the base class that throws before it writes. -/
def onBase (g : State) : Except BaseGenerator.Error BaseGenerator.State → Outcome
  | .error e => (g, .error e)
  | .ok base => ({ g with base := base }, .ok ())

def setRate (g : State) (messagesPerSecond : BitVec 32) : Outcome :=
  onBase g (BaseGenerator.setRate g.base messagesPerSecond)

def start (g : State) : Outcome := onBase g (BaseGenerator.start g.base)

/-- `stop`, when it returns: the thread has been asked to stop and joined. -/
def stop (g : State) : State :=
  { g with base := { BaseGenerator.requestStop g.base with thread := none } }

/-- `configure`; a file that cannot be opened reads like an empty one. -/
def configure (g : State) (messagesPerSecond : BitVec 32) (symbolsFile : List Byte) : Outcome :=
  match setRate g messagesPerSecond with
  | (g, .error e) => (g, .error e)
  | (g, .ok ()) =>
      let g := { g with symbols := readSymbolsFile symbolsFile }
      if g.symbols.isEmpty then (g, .error (.logicError "Symbols file empty or invalid."))
      else ({ g with currentPrices := resize g.currentPrices g.symbols.length 100 }, .ok ())

def State.setPrice (g : State) (idx : Nat) (price : ℚ) : State :=
  { g with currentPrices := g.currentPrices.set idx price }

theorem State.currentPrices_setPrice (g : State) (idx : Nat) (price : ℚ) :
    (g.setPrice idx price).currentPrices = g.currentPrices.set idx price := rfl

/-- `current_prices_[idx] += step`, and the price then there. -/
def movePrice (g : State) (idx : Nat) (step : ℚ) : Option (State × ℚ) :=
  (g.currentPrices[idx]?).map fun price => (g.setPrice idx (price + step), price + step)

/-- The quote `generate_quote` fills in around a price. -/
def quoteAt (symbol : List Byte) (price : ℚ) (bidSize askSize : BitVec 32) (now : BitVec 64) :
    ExactQuote :=
  let bidAskSpread := price * (1 / 1000)
  { symbol := symbolField symbol
    bidPrice := price - bidAskSpread / 2
    askPrice := price + bidAskSpread / 2
    bidSize := bidSize
    askSize := askSize
    enqueueTimestamp := now }

def tradeAt (symbol : List Byte) (price : ℚ) (size : BitVec 32) (now : BitVec 64) : ExactTrade where
  symbol := symbolField symbol
  price := price
  size := size
  enqueueTimestamp := now

/-- The message for a draw, once the price has moved. -/
def msgAt (symbol : List Byte) (price : ℚ) : Draw → ExactMsg
  | .quote _ _ bidSize askSize now => .quote (quoteAt symbol price bidSize askSize now)
  | .trade _ _ size now => .trade (tradeAt symbol price size now)

def generateMsgImpl (g : State) (d : Draw) : Option (State × ExactMsg) :=
  (g.symbols[d.idx]?).bind fun symbol =>
    (movePrice g d.idx d.priceStep).map fun moved => (moved.1, msgAt symbol moved.2 d)

/-! ### Calls in any order -/

inductive Event
  | configure (messagesPerSecond : BitVec 32) (symbolsFile : List Byte)
  | setRate (messagesPerSecond : BitVec 32)
  | start
  | stop
  | generate (d : Draw)

/-- `configure` and `set_rate` are called while no session is running; the draws are
those the distributions allow. -/
def step (g : State) : Event → Option State
  | .configure rate file => if g.base.thread.isNone then some (configure g rate file).1 else none
  | .setRate rate => if g.base.thread.isNone then some (setRate g rate).1 else none
  | .start => some (start g).1
  | .stop => some (stop g)
  | .generate d =>
      if d.InRange g.symbols.length then (generateMsgImpl g d).map (·.1) else none

def machine : Machine State Event where
  init := State.initial
  step := step

/-- A message, the symbol it was generated for and the step that was drawn. -/
structure Generated where
  symbol : List Byte
  priceStep : ℚ
  msg : ExactMsg
deriving DecidableEq

/-- Observer: the messages that `generate_msg_impl` returns. -/
def generated (g : State) : Event → Option Generated
  | .generate d =>
      (generateMsgImpl g d).map fun r => ⟨g.symbols[d.idx]?.getD [], d.priceStep, r.2⟩
  | _ => none

/-! ### The messages with their prices rounded -/

/-- The message with its prices as bit patterns, whatever the rounding. -/
def ExactMsg.rounded (round : ℚ → BitVec 64) : ExactMsg → MarketDataMsg
  | quote q => .quote ⟨q.symbol, round q.bidPrice, round q.askPrice, q.bidSize, q.askSize,
      q.enqueueTimestamp, 0⟩
  | trade t => .trade ⟨t.symbol, round t.price, t.size, t.enqueueTimestamp, 0⟩

/-- What is generated for a symbol is what the transports were proved for. -/
theorem rounded_generatedFor (round : ℚ → BitVec 64) (symbol : List Byte) (price : ℚ) (d : Draw) :
    GeneratedFor symbol ((msgAt symbol price d).rounded round) := by
  cases d with
  | quote idx step bidSize askSize now => exact GeneratedFor.quote _ _ bidSize askSize now
  | trade idx step size now => exact GeneratedFor.trade _ size now

end RandomWalkGenerator

end MarketData
