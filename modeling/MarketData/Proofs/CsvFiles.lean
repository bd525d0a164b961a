/-
What the files say about a run.

The text of a file is a table in the sense of `Csv`, so its records can be read back
from it.  Along a run the monitor has one record for each callback, in the order in
which they were made, quotes and trades apart.  So the files of a finished run list the
deliveries of that run, and the number `plot_throughput.py` reports is how many there
were.
-/
import MarketData.Monitor.SaveToCsv
import MarketData.Proofs.Latency

namespace MarketData

open Lib IFeedHandler
open Lib.Csv (Text)

namespace LatencyMonitor

/-! ### Reading a file back -/

/-- The numbers of a record. -/
def fieldsOf (lat : LatencyRecord) : List Nat :=
  [lat.queueNs.toNat, lat.networkNs.toNat, lat.totalNs.toNat]

theorem csvText_eq_table (latencies : List LatencyRecord) :
    csvText latencies = Csv.table csvHeader (latencies.map fieldsOf) := by
  have hlines : ∀ ls : List LatencyRecord,
      ls.flatMap csvLine = Csv.ofLines ((ls.map fieldsOf).map Csv.row) := by
    intro ls
    induction ls with
    | nil => rfl
    | cons lat ls ih =>
        rw [List.flatMap_cons, ih]
        simp [Csv.ofLines, csvLine, Csv.row, Csv.ofFields, fieldsOf, List.intercalate_cons_cons]
  unfold csvText Csv.table
  rw [hlines]
  simp [Csv.ofLines]

/-- A record from its three fields, if they are 64-bit numbers. -/
def record? : List Nat → Option LatencyRecord
  | [queue, network, total] =>
      if queue < 2 ^ 64 ∧ network < 2 ^ 64 ∧ total < 2 ^ 64 then
        some ⟨BitVec.ofNat 64 queue, BitVec.ofNat 64 network, BitVec.ofNat 64 total⟩
      else none
  | _ => none

/-- The records in a file of the monitor. -/
def readCsv (text : Text) : Option (List LatencyRecord) :=
  (Csv.table? csvHeader text).bind fun rows => rows.mapM record?

theorem record?_fieldsOf (lat : LatencyRecord) : record? (fieldsOf lat) = some lat := by
  have hq := lat.queueNs.isLt
  have hn := lat.networkNs.isLt
  have ht := lat.totalNs.isLt
  simp only [record?, fieldsOf]
  rw [if_pos ⟨hq, hn, ht⟩]
  simp

/-- The records can be read back from the text. -/
theorem readCsv_csvText (latencies : List LatencyRecord) :
    readCsv (csvText latencies) = some latencies := by
  have hrows : ∀ ns ∈ latencies.map fieldsOf, ns ≠ [] := by
    intro ns hns
    obtain ⟨lat, -, rfl⟩ := List.mem_map.mp hns
    simp [fieldsOf]
  unfold readCsv
  rw [csvText_eq_table, Csv.table?_table (by decide) hrows, Option.bind_some,
    Csv.mapM_map record?_fieldsOf]

end LatencyMonitor

/-! ### Counting lines -/

namespace PlotThroughput

theorem universalNewlines_eq {text : Text} (h : '\r' ∉ text) : universalNewlines text = text := by
  induction text with
  | nil => rfl
  | cons c rest ih =>
      have hc : c ≠ '\r' := fun heq => h (by simp [heq])
      have hrest := ih fun hmem => h (by simp [hmem])
      rw [universalNewlines]
      · rw [hrest]
      · intro rest' heq
        exact absurd heq hc
      · exact hc

/-- The lines of a file of the monitor are the header and the records. -/
theorem lineCount_csvText (latencies : List LatencyRecord) :
    lineCount (LatencyMonitor.csvText latencies) = latencies.length + 1 := by
  have hr : '\r' ∉ LatencyMonitor.csvText latencies := by
    rw [LatencyMonitor.csvText_eq_table]
    exact Csv.not_mem_table rfl (by decide) (by decide) (by decide) _
  simp only [lineCount, universalNewlines_eq hr]
  rw [LatencyMonitor.csvText_eq_table, Csv.getLast?_table, Csv.count_newline_table (by decide)]
  simp

end PlotThroughput

/-! ### Along a run -/

namespace System

variable {W : Nat} {Q : QueueCode MarketDataMsg W} {T : Transport} {cb : Callbacks}

def isQuote (d : Delivery) : Bool :=
  match d.msg with
  | .quote _ => true
  | .trade _ => false

/-- The monitor after some callbacks. -/
theorem foldl_callback (ds : List Delivery) : ∀ m : LatencyMonitor.State,
    ds.foldl LatencyMonitor.callback m =
      { quoteLatencies := m.quoteLatencies ++ (ds.filter isQuote).map recordOf,
        tradeLatencies := m.tradeLatencies ++ (ds.filter fun d => !isQuote d).map recordOf } := by
  induction ds with
  | nil =>
      intro m
      simp
  | cons d ds ih =>
      intro m
      rw [List.foldl_cons, ih]
      obtain ⟨msg, receiveTimestamp⟩ := d
      cases msg with
      | quote q =>
          rw [List.filter_cons_of_pos rfl, List.filter_cons_of_neg (by simp [isQuote])]
          simp only [LatencyMonitor.callback, LatencyMonitor.onQuote, List.append_assoc]
          rfl
      | trade t =>
          rw [List.filter_cons_of_neg (by simp [isQuote]), List.filter_cons_of_pos rfl]
          simp only [LatencyMonitor.callback, LatencyMonitor.onTrade, List.append_assoc]
          rfl

/-- The monitor has got every callback of the run, in order. -/
theorem monitor_eq_foldl {es : List (Event T)} {s : State Q T}
    (h : (machine Q T cb).Exec es s) :
    s.monitor = ((machine Q T cb).log (delivered cb) es).foldl LatencyMonitor.callback
      LatencyMonitor.State.initial := by
  refine Machine.Exec.induction (P := fun es s => s.monitor =
    ((machine Q T cb).log (delivered cb) es).foldl LatencyMonitor.callback
      LatencyMonitor.State.initial) rfl ?_ h
  intro es s e s' hex ih hs
  rw [Machine.log_snoc _ hex hs, List.foldl_append, ← ih]
  cases e with
  | pipeline e padding env =>
      simp only [machine, step, pipelineStep] at hs
      split at hs
      · obtain ⟨p, -, rfl⟩ := Option.map_eq_some_iff.mp hs
        rfl
      · simp at hs
  | handler e =>
      simp only [machine, step, handlerStep] at hs
      split at hs
      · obtain ⟨h', -, rfl⟩ := Option.map_eq_some_iff.mp hs
        simp only [delivered]
        cases T.delivered cb s.handler e <;> rfl
      · simp at hs

/-! ### Main result -/

/-- What the files of a run that made the deliveries `ds` say. -/
structure Reports (outDir : String) (files : Files) (ds : List Delivery) : Prop where
  quotes : (files (LatencyMonitor.quoteFile outDir)).bind LatencyMonitor.readCsv =
    some ((ds.filter isQuote).map recordOf)
  trades : (files (LatencyMonitor.tradeFile outDir)).bind LatencyMonitor.readCsv =
    some ((ds.filter fun d => !isQuote d).map recordOf)
  total : PlotThroughput.totalReceived outDir files = ds.length

theorem quoteFile_ne_tradeFile (outDir : String) :
    LatencyMonitor.quoteFile outDir ≠ LatencyMonitor.tradeFile outDir := by
  intro h
  have hlists := congrArg String.toList h
  simp [LatencyMonitor.quoteFile, LatencyMonitor.tradeFile] at hlists

theorem Reports.of_exec (outDir : String) (files : Files) {es : List (Event T)} {s : State Q T}
    (h : (machine Q T cb).Exec es s) :
    Reports outDir (LatencyMonitor.saveToCsv outDir s.monitor files)
      ((machine Q T cb).log (delivered cb) es) := by
  have hne := quoteFile_ne_tradeFile outDir
  have hmonitor := monitor_eq_foldl h
  rw [foldl_callback] at hmonitor
  have hquote : LatencyMonitor.saveToCsv outDir s.monitor files (LatencyMonitor.quoteFile outDir) =
      some (LatencyMonitor.csvText s.monitor.quoteLatencies) := by
    simp [LatencyMonitor.saveToCsv, hne]
  have htrade : LatencyMonitor.saveToCsv outDir s.monitor files (LatencyMonitor.tradeFile outDir) =
      some (LatencyMonitor.csvText s.monitor.tradeLatencies) := by
    simp [LatencyMonitor.saveToCsv]
  refine ⟨?_, ?_, ?_⟩
  · rw [hquote, Option.bind_some, LatencyMonitor.readCsv_csvText, hmonitor]
    rfl
  · rw [htrade, Option.bind_some, LatencyMonitor.readCsv_csvText, hmonitor]
    rfl
  · unfold PlotThroughput.totalReceived PlotThroughput.received
    rw [hquote, htrade]
    simp only [Option.elim_some, PlotThroughput.lineCount_csvText]
    rw [hmonitor]
    have hsplit := List.length_eq_length_filter_add
      (l := (machine Q T cb).log (delivered cb) es) isQuote
    simp only [LatencyMonitor.State.initial, List.nil_append, List.length_map]
    omega

/-- **The files report the deliveries of the run.**  Whatever was in the files before,
`save_to_csv` at the end of any run leaves one record for each callback made, in the
order of the callbacks, from which the three differences can be read back; and the
number of messages that `run_throughput_test` gets from the files is the number of
callbacks. -/
theorem files_report_deliveries (Q : QueueCode MarketDataMsg W) (T : Transport) (cb : Callbacks)
    (outDir : String) (files : Files) :
    ∀ es s, (machine Q T cb).Exec es s →
      Reports outDir (LatencyMonitor.saveToCsv outDir s.monitor files)
        ((machine Q T cb).log (delivered cb) es) :=
  fun _ _ h => Reports.of_exec outDir files h

/-- One trade is delivered twice, and the files are new. -/
theorem files_report_deliveries_deliveryRun :
    PlotThroughput.totalReceived "data" (LatencyMonitor.saveToCsv "data"
      ((machine (SpinSpscQueue slots128) .zmq Callbacks.both).final deliveryRun
        deliveryRun_goes).monitor fun _ => none) = 2 := by
  have h := files_report_deliveries (SpinSpscQueue slots128) .zmq Callbacks.both "data"
    (fun _ => none) deliveryRun _ (Machine.exec_final deliveryRun_goes)
  have htwo : ((machine (SpinSpscQueue slots128) .zmq Callbacks.both).log
      (delivered Callbacks.both) deliveryRun).length = 2 := by
    decide +kernel
  rw [h.total, htwo]
  rfl

end System

end MarketData
