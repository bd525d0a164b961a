/-
The files that `~LatencyMonitor` leaves behind.

`save_to_csv` writes one file for the quotes and one for the trades: a header, and a line
of three decimal numbers for each record.  Opening a file for writing empties it first.
The constructor has made the directory, so a file that cannot be opened is left out.

`run_throughput_test` of `plot_throughput.py` reads the number of messages received off
the two files: their lines, less the headers.  Python takes "\n", "\r" and "\r\n" for the
end of a line, and counts a last line that has none.
-/
import MarketData.Lib.Csv
import MarketData.Monitor.LatencyMonitor
import Mathlib.Logic.Function.Basic

namespace MarketData

open Lib
open Lib.Csv (Text)

/-- The contents of the files there are. -/
abbrev Files := String → Option Text

namespace LatencyMonitor

def quoteFile (outDir : String) : String := outDir ++ "/quote_latencies.csv"

def tradeFile (outDir : String) : String := outDir ++ "/trade_latencies.csv"

def csvHeader : Text := "queue_ns,network_ns,total_ns".toList

/-- One pass of the loop that writes the records. -/
def csvLine (lat : LatencyRecord) : Text :=
  Nat.toDigits 10 lat.queueNs.toNat ++ [','] ++ Nat.toDigits 10 lat.networkNs.toNat ++ [','] ++
    Nat.toDigits 10 lat.totalNs.toNat ++ ['\n']

def csvText (latencies : List LatencyRecord) : Text :=
  csvHeader ++ ['\n'] ++ latencies.flatMap csvLine

def saveToCsv (outDir : String) (m : State) (files : Files) : Files :=
  Function.update
    (Function.update files (quoteFile outDir) (some (csvText m.quoteLatencies)))
    (tradeFile outDir) (some (csvText m.tradeLatencies))

end LatencyMonitor

namespace PlotThroughput

/-- What a text file in Python reads as. -/
def universalNewlines : Text → Text
  | '\r' :: '\n' :: rest => '\n' :: universalNewlines rest
  | '\r' :: rest => '\n' :: universalNewlines rest
  | c :: rest => c :: universalNewlines rest
  | [] => []

/-- `sum(1 for line in file)`. -/
def lineCount (text : Text) : Nat :=
  let read := universalNewlines text
  read.count '\n' + if read.getLast?.all (· == '\n') then 0 else 1

/-- The lines of a file that exists, less one. -/
def received (file : Option Text) : Int := file.elim 0 fun text => (lineCount text : Int) - 1

/-- `run_throughput_test`, after the program has run. -/
def totalReceived (dataDir : String) (files : Files) : Int :=
  received (files (LatencyMonitor.quoteFile dataDir)) +
    received (files (LatencyMonitor.tradeFile dataDir))

end PlotThroughput

end MarketData
