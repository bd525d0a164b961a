/-
`types.h`: the messages and their bytes.

Prices are the 64-bit patterns of the `double`s; nothing here computes with them.
`bytes` is the object representation of a struct on x86-64, which is what `memcpy`
of a whole struct copies: fields little-endian at their offsets, and in a `Trade`
four padding bytes after `size`, whose values the language leaves open.
-/
import MarketData.Lib.Bytes

namespace MarketData

open Lib

structure Quote where
  symbol : Bytes 8
  bidPrice : BitVec 64
  askPrice : BitVec 64
  bidSize : BitVec 32
  askSize : BitVec 32
  enqueueTimestamp : BitVec 64
  disseminateTimestamp : BitVec 64
deriving DecidableEq

structure Trade where
  symbol : Bytes 8
  price : BitVec 64
  size : BitVec 32
  enqueueTimestamp : BitVec 64
  disseminateTimestamp : BitVec 64
deriving DecidableEq

inductive MarketDataMsg
  | quote (q : Quote)
  | trade (t : Trade)
deriving DecidableEq

def sizeofQuote : Nat := 48

def sizeofTrade : Nat := 40

def topicHeaderSize : Nat := 10

namespace Quote

/-- Offsets 0, 8, 16, 24, 28, 32 and 40. -/
def bytes (q : Quote) : Bytes sizeofQuote :=
  q.symbol.append ((Bytes.ofBitVec (n := 8) q.bidPrice).append
    ((Bytes.ofBitVec (n := 8) q.askPrice).append ((Bytes.ofBitVec (n := 4) q.bidSize).append
      ((Bytes.ofBitVec (n := 4) q.askSize).append
        ((Bytes.ofBitVec (n := 8) q.enqueueTimestamp).append
          (Bytes.ofBitVec (n := 8) q.disseminateTimestamp))))))

/-- A `Quote` whose bytes have been copied in. -/
def ofBytes (bs : Bytes sizeofQuote) : Quote where
  symbol := bs.slice 0 8 (by decide)
  bidPrice := (bs.slice 8 8 (by decide)).toBitVec
  askPrice := (bs.slice 16 8 (by decide)).toBitVec
  bidSize := (bs.slice 24 4 (by decide)).toBitVec
  askSize := (bs.slice 28 4 (by decide)).toBitVec
  enqueueTimestamp := (bs.slice 32 8 (by decide)).toBitVec
  disseminateTimestamp := (bs.slice 40 8 (by decide)).toBitVec

end Quote

namespace Trade

/-- Offsets 0, 8, 16, 24 and 32; `padding` fills 20 to 23. -/
def bytes (t : Trade) (padding : Bytes 4) : Bytes sizeofTrade :=
  t.symbol.append ((Bytes.ofBitVec (n := 8) t.price).append
    ((Bytes.ofBitVec (n := 4) t.size).append (padding.append
      ((Bytes.ofBitVec (n := 8) t.enqueueTimestamp).append
        (Bytes.ofBitVec (n := 8) t.disseminateTimestamp)))))

/-- A `Trade` whose bytes have been copied in. -/
def ofBytes (bs : Bytes sizeofTrade) : Trade where
  symbol := bs.slice 0 8 (by decide)
  price := (bs.slice 8 8 (by decide)).toBitVec
  size := (bs.slice 16 4 (by decide)).toBitVec
  enqueueTimestamp := (bs.slice 24 8 (by decide)).toBitVec
  disseminateTimestamp := (bs.slice 32 8 (by decide)).toBitVec

end Trade

namespace MarketDataMsg

def symbol : MarketDataMsg → Bytes 8
  | quote q => q.symbol
  | trade t => t.symbol

def enqueueTimestamp : MarketDataMsg → BitVec 64
  | quote q => q.enqueueTimestamp
  | trade t => t.enqueueTimestamp

def disseminateTimestamp : MarketDataMsg → BitVec 64
  | quote q => q.disseminateTimestamp
  | trade t => t.disseminateTimestamp

def setEnqueueTimestamp (ts : BitVec 64) : MarketDataMsg → MarketDataMsg
  | quote q => quote { q with enqueueTimestamp := ts }
  | trade t => trade { t with enqueueTimestamp := ts }

def setDisseminateTimestamp (ts : BitVec 64) : MarketDataMsg → MarketDataMsg
  | quote q => quote { q with disseminateTimestamp := ts }
  | trade t => trade { t with disseminateTimestamp := ts }

@[simp] theorem symbol_setDisseminateTimestamp (ts : BitVec 64) (msg : MarketDataMsg) :
    (msg.setDisseminateTimestamp ts).symbol = msg.symbol := by
  cases msg <;> rfl

@[simp] theorem enqueueTimestamp_setEnqueueTimestamp (ts : BitVec 64) (msg : MarketDataMsg) :
    (msg.setEnqueueTimestamp ts).enqueueTimestamp = ts := by
  cases msg <;> rfl

@[simp] theorem enqueueTimestamp_setDisseminateTimestamp (ts : BitVec 64)
    (msg : MarketDataMsg) :
    (msg.setDisseminateTimestamp ts).enqueueTimestamp = msg.enqueueTimestamp := by
  cases msg <;> rfl

@[simp] theorem disseminateTimestamp_setDisseminateTimestamp (ts : BitVec 64)
    (msg : MarketDataMsg) : (msg.setDisseminateTimestamp ts).disseminateTimestamp = ts := by
  cases msg <;> rfl

end MarketDataMsg

/-! ### Reading back what was written -/

theorem Quote.ofBytes_bytes (q : Quote) : Quote.ofBytes q.bytes = q := by
  have hsymbol : q.bytes.slice 0 8 (by decide) = q.symbol := by
    ext1
    simp [Quote.bytes, Bytes.slice, Bytes.append]
  have hbid : q.bytes.slice 8 8 (by decide) = Bytes.ofBitVec (n := 8) q.bidPrice := by
    ext1
    simp [Quote.bytes, Bytes.slice, Bytes.append]
  have hask : q.bytes.slice 16 8 (by decide) = Bytes.ofBitVec (n := 8) q.askPrice := by
    ext1
    simp [Quote.bytes, Bytes.slice, Bytes.append, List.drop_append]
  have hbidSize : q.bytes.slice 24 4 (by decide) = Bytes.ofBitVec (n := 4) q.bidSize := by
    ext1
    simp [Quote.bytes, Bytes.slice, Bytes.append, List.drop_append]
  have haskSize : q.bytes.slice 28 4 (by decide) = Bytes.ofBitVec (n := 4) q.askSize := by
    ext1
    simp [Quote.bytes, Bytes.slice, Bytes.append, List.drop_append]
  have henqueue : q.bytes.slice 32 8 (by decide) =
      Bytes.ofBitVec (n := 8) q.enqueueTimestamp := by
    ext1
    simp [Quote.bytes, Bytes.slice, Bytes.append, List.drop_append]
  have hdisseminate : q.bytes.slice 40 8 (by decide) =
      Bytes.ofBitVec (n := 8) q.disseminateTimestamp := by
    ext1
    simp [Quote.bytes, Bytes.slice, Bytes.append, List.drop_append]
  simp only [Quote.ofBytes, hsymbol, hbid, hask, hbidSize, haskSize, henqueue, hdisseminate,
    Bytes.toBitVec_ofBitVec]

/-- The padding is not read. -/
theorem Trade.ofBytes_bytes (t : Trade) (padding : Bytes 4) :
    Trade.ofBytes (t.bytes padding) = t := by
  have hsymbol : (t.bytes padding).slice 0 8 (by decide) = t.symbol := by
    ext1
    simp [Trade.bytes, Bytes.slice, Bytes.append]
  have hprice : (t.bytes padding).slice 8 8 (by decide) = Bytes.ofBitVec (n := 8) t.price := by
    ext1
    simp [Trade.bytes, Bytes.slice, Bytes.append]
  have hsize : (t.bytes padding).slice 16 4 (by decide) = Bytes.ofBitVec (n := 4) t.size := by
    ext1
    simp [Trade.bytes, Bytes.slice, Bytes.append, List.drop_append]
  have henqueue : (t.bytes padding).slice 24 8 (by decide) =
      Bytes.ofBitVec (n := 8) t.enqueueTimestamp := by
    ext1
    simp [Trade.bytes, Bytes.slice, Bytes.append, List.drop_append]
  have hdisseminate : (t.bytes padding).slice 32 8 (by decide) =
      Bytes.ofBitVec (n := 8) t.disseminateTimestamp := by
    ext1
    simp [Trade.bytes, Bytes.slice, Bytes.append, List.drop_append]
  simp only [Trade.ofBytes, hsymbol, hprice, hsize, henqueue, hdisseminate,
    Bytes.toBitVec_ofBitVec]

end MarketData
