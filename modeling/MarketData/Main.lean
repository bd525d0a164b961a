/-
`main`, from the command line up to the point where the threads are started.

The command line has been parsed into values of the types that the options declare.
`main` turns them into a `BenchmarkConfig`, `dispatch_size` accepts the sizes that the
queue is compiled for, and `run_benchmark_pipeline` makes the latency monitor and
configures the generator.  Any of these can throw, and then nothing is started.

A file is its bytes; one that cannot be opened reads like an empty one.
-/
import MarketData.Generator.RandomWalk
import MarketData.Monitor.LatencyMonitor

namespace MarketData

open Lib
open BaseGenerator (Error)

inductive QueueWaitStrategy
  | spin
  | waitable
deriving DecidableEq, Repr

inductive TransportProtocol
  | udpMulticast
  | zmq
deriving DecidableEq, Repr

inductive UnderlyingQueue
  | custom
  | boost
deriving DecidableEq, Repr

structure BenchmarkConfig where
  queueStrategy : QueueWaitStrategy := .spin
  transport : TransportProtocol := .udpMulticast
  underlyingQueue : UnderlyingQueue := .custom
  queueSize : BitVec 64 := 1024
  messageRate : BitVec 32 := 10000
  durationSec : BitVec 32 := 10
  symbolsFile : String := "tickers.txt"
deriving DecidableEq, Repr

namespace Main

/-- The values of the options, with their defaults. -/
structure ParseResult where
  queue : String := "spin"
  size : BitVec 64 := 1024
  transport : String := "udp"
  rate : BitVec 32 := 10000
  duration : BitVec 32 := 10
  help : Bool := false
  symbols : String := "../data/symbols.txt"
  underlying : String := "custom"

/-- The value that goes with a name, if it is one of two. -/
def oneOf {α : Type} (first second : String × α) (what name : String) : Except Error α :=
  if name = first.1 then .ok first.2
  else if name = second.1 then .ok second.2
  else .error (.invalidArgument what)

def queueStrategy (qType : String) : Except Error QueueWaitStrategy :=
  oneOf ("spin", .spin) ("waitable", .waitable)
    "Invalid queue type. Use 'spin' or 'waitable'." qType

def underlyingQueue (uType : String) : Except Error UnderlyingQueue :=
  oneOf ("custom", .custom) ("boost", .boost)
    "Invalid underlying queue. Use 'custom' or 'boost'." uType

def transport (tType : String) : Except Error TransportProtocol :=
  oneOf ("udp", .udpMulticast) ("zmq", .zmq) "Invalid transport type. Use 'udp' or 'zmq'." tType

/-- The configuration, its members checked in the order of the source. -/
def benchmarkConfig (result : ParseResult) : Except Error BenchmarkConfig := do
  let strategy ← queueStrategy result.queue
  let underlying ← underlyingQueue result.underlying
  let protocol ← transport result.transport
  return { queueStrategy := strategy, transport := protocol, underlyingQueue := underlying,
           queueSize := result.size, messageRate := result.rate,
           durationSec := result.duration, symbolsFile := result.symbols }

/-- The sizes with a `case` of their own. -/
def queueSizes : List (BitVec 64) := [128, 512, 1024, 4096, 16384, 65536]

def dispatchSize (config : BenchmarkConfig) : Except Error Unit :=
  if config.queueSize ∈ queueSizes then .ok ()
  else .error (.invalidArgument
    "Unsupported queue size. Allowed: 128, 512, 1024, 4096, 16384, 65536")

/-- The argument of the monitor's constructor: a product of two `uint32_t`, which becomes a
`size_t` afterwards. -/
def preallocateCount (config : BenchmarkConfig) : BitVec 64 :=
  (config.messageRate * config.durationSec).setWidth 64

/-- What `run_benchmark_pipeline` has made when it starts the first thread. -/
structure Benchmark where
  config : BenchmarkConfig
  monitor : LatencyMonitor.Vectors
  generator : RandomWalkGenerator.State

def setUp (G : Growth) (files : String → List Byte) (config : BenchmarkConfig) :
    Except Error Benchmark :=
  let monitor := LatencyMonitor.Vectors.construct G (preallocateCount config)
  match RandomWalkGenerator.configure .initial config.messageRate (files config.symbolsFile) with
  | (generator, .ok ()) => .ok { config := config, monitor := monitor, generator := generator }
  | (_, .error e) => .error e

/-- `main`; there is no benchmark when only the usage is asked for. -/
def main (G : Growth) (files : String → List Byte) (result : ParseResult) :
    Except Error (Option Benchmark) :=
  if result.help then .ok none
  else do
    let config ← benchmarkConfig result
    dispatchSize config
    let benchmark ← setUp G files config
    return some benchmark

end Main

end MarketData
