import MarketData.Benchmark
import MarketData.Disseminator.IDisseminator
import MarketData.Disseminator.RunLoop
import MarketData.FeedHandler.IFeedHandler
import MarketData.FeedHandler.UdpFeedHandler
import MarketData.FeedHandler.ZmqFeedHandler
import MarketData.Generator.BaseGenerator
import MarketData.Generator.RandomWalk
import MarketData.Generator.RandomWalkGenerator
import MarketData.Lib.BoundedQueue
import MarketData.Lib.Bytes
import MarketData.Lib.Csv
import MarketData.Lib.History
import MarketData.Lib.Instr
import MarketData.Lib.Lifetime
import MarketData.Lib.Machine
import MarketData.Lib.Progress
import MarketData.Lib.Projection
import MarketData.Lib.Ring
import MarketData.Lib.Updates
import MarketData.Lib.Vec
import MarketData.Lifecycle
import MarketData.Main
import MarketData.Monitor.LatencyMonitor
import MarketData.Monitor.SaveToCsv
import MarketData.Pipeline
import MarketData.Proofs.BenchmarkRuns
import MarketData.Proofs.BufferedFifo
import MarketData.Proofs.BufferedStores
import MarketData.Proofs.Conservation
import MarketData.Proofs.CsvFiles
import MarketData.Proofs.CustomSpscQueue
import MarketData.Proofs.DisseminatorStops
import MarketData.Proofs.Drain
import MarketData.Proofs.EndToEnd
import MarketData.Proofs.Fifo
import MarketData.Proofs.FirstDatagram
import MarketData.Proofs.FrameBoundaries
import MarketData.Proofs.GeneratorTables
import MarketData.Proofs.HandlerStops
import MarketData.Proofs.Latency
import MarketData.Proofs.Lifecycle
import MarketData.Proofs.Linearizable
import MarketData.Proofs.LostWakeup
import MarketData.Proofs.MainThread
import MarketData.Proofs.MessageRate
import MarketData.Proofs.ObjectLifetimes
import MarketData.Proofs.PackedSymbols
import MarketData.Proofs.PipelineSteps
import MarketData.Proofs.PriceWalks
import MarketData.Proofs.QueueSimulation
import MarketData.Proofs.QueueSteps
import MarketData.Proofs.ReservedStorage
import MarketData.Proofs.RoundTrip
import MarketData.Proofs.SlotOwnership
import MarketData.Proofs.StopRequest
import MarketData.Proofs.StopReturns
import MarketData.Proofs.SubscriptionRestart
import MarketData.Proofs.Subscriptions
import MarketData.Proofs.SymbolIdentity
import MarketData.Proofs.SymbolsFile
import MarketData.Proofs.Throughput
import MarketData.Proofs.TransportFilters
import MarketData.Proofs.UdpDelivery
import MarketData.Proofs.VisibleItems
import MarketData.Proofs.WaitableProgram
import MarketData.Proofs.WaitableRefinesSpin
import MarketData.System
import MarketData.Utils.CustomSpscQueue
import MarketData.Utils.MarketDataQueue
import MarketData.Utils.SpinSpscQueue
import MarketData.Utils.StaleCounters
import MarketData.Utils.StoreBuffers
import MarketData.Utils.Types
import MarketData.Utils.WaitableSpscQueue
