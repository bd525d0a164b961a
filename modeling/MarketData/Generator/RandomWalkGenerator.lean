/-
`RandomWalkGenerator`: the symbols file, and how a symbol gets into a message.

A file is its bytes.  `generateQuote` and `generateTrade` take the numbers that the
source draws or computes in floating point as arguments; what matters here is the
symbol field, which `strncpy` fills up to its last byte but one and the value
initialisation leaves zero there.

The subscription loop of `main` reads the same file by a copy of the same code.
-/
import MarketData.Disseminator.IDisseminator

namespace MarketData

open Lib

/-- `::isspace` in the C locale. -/
def isspace (b : Byte) : Bool :=
  b == byteOf ' ' || (decide (byteOf '\t' ≤ b) && decide (b ≤ byteOf '\r'))

/-- Repeated `std::getline`: the part of the line read so far, and the rest of the
file.  At the end of the file a call fails if it has extracted nothing. -/
def getlines (line : List Byte) : List Byte → List (List Byte)
  | [] => if line.isEmpty then [] else [line]
  | b :: rest => if b = byteOf '\n' then line :: getlines [] rest else getlines (line ++ [b]) rest

/-- The `strncpy` of the first `count` bytes: a C string, cut at its first zero byte and
padded with zeros. -/
def strncpy {n : Nat} (dst : Bytes n) (src : List Byte) (count : Nat) (h : count ≤ n) :
    Bytes n :=
  dst.memcpy 0 (Bytes.ofList count (src.takeWhile (· != 0))) (by omega)

namespace RandomWalkGenerator

/-- A line with everything erased that the source erases, in its order. -/
def stripLine (str : List Byte) : List Byte :=
  ((str.filter (· != byteOf '\r')).filter (· != byteOf '\n')).filter (fun b => !isspace b)

def readSymbolsFile (file : List Byte) : List (List Byte) :=
  (getlines [] file).filterMap fun str =>
    let str := stripLine str
    if !str.isEmpty && decide (str.length < 9) then some str else none

/-- The symbol field of a value-initialised message after the `strncpy`. -/
def symbolField (symbol : List Byte) : Bytes 8 := strncpy (Bytes.zero 8) symbol 7 (by decide)

def generateQuote (symbol : List Byte) (bidPrice askPrice : BitVec 64) (bidSize askSize : BitVec 32)
    (now : BitVec 64) : Quote where
  symbol := symbolField symbol
  bidPrice := bidPrice
  askPrice := askPrice
  bidSize := bidSize
  askSize := askSize
  enqueueTimestamp := now
  disseminateTimestamp := 0

def generateTrade (symbol : List Byte) (price : BitVec 64) (size : BitVec 32) (now : BitVec 64) :
    Trade where
  symbol := symbolField symbol
  price := price
  size := size
  enqueueTimestamp := now
  disseminateTimestamp := 0

/-- The messages `generate_quote` and `generate_trade` can make for a symbol. -/
inductive GeneratedFor (symbol : List Byte) : MarketDataMsg → Prop
  | quote (bidPrice askPrice : BitVec 64) (bidSize askSize : BitVec 32) (now : BitVec 64) :
      GeneratedFor symbol (.quote (generateQuote symbol bidPrice askPrice bidSize askSize now))
  | trade (price : BitVec 64) (size : BitVec 32) (now : BitVec 64) :
      GeneratedFor symbol (.trade (generateTrade symbol price size now))

end RandomWalkGenerator

namespace Main

/-- The symbols `run_benchmark_pipeline` subscribes to. -/
def subscribedSymbols (file : List Byte) : List (List Byte) :=
  (getlines [] file).filterMap fun sym =>
    let sym := ((sym.filter (· != byteOf '\r')).filter (· != byteOf '\n')).filter
      (fun b => !isspace b)
    if !sym.isEmpty && decide (sym.length < 9) then some sym else none

end Main

end MarketData
