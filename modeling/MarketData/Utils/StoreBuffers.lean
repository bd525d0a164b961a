/-
The queue classes on a machine with store buffers.

`MarketDataQueue.machine` lets every access take effect at once.  Here the same
code runs behind one FIFO store buffer for each of the two threads: an access
reads its own thread's buffered stores first, a release or relaxed store waits in
the buffer until it is flushed, a sequentially consistent store needs an empty
buffer.  A notify releases a blocked pop at once, whatever is still buffered.

Nobody requests a stop on this machine, so the stop state is never raised.
-/
import MarketData.Utils.MarketDataQueue

namespace MarketData

open Lib

variable {T : Type} {W : Nat}

abbrev Buf (T : Type) (W : Nat) := Instr.Buffer Loc (Cell T W)

namespace StoreBuffers

structure State (Q : QueueCode T W) where
  mem : Mem T W
  prodBuf : Buf T W
  consBuf : Buf T W
  stop : StopState
  prod : Option Q.PushPc
  cons : Option Q.PopPc

/-- A thread calls, makes its next step or returns; the oldest entry of a buffer
reaches memory; a blocked pop is unblocked spuriously. -/
inductive Event (T : Type)
  | callPush (item : T)
  | callPop
  | push
  | pop
  | flushProd
  | flushCons
  | spurious
  | retPush
  | retPop
deriving DecidableEq

variable {Q : QueueCode T W}

def stepPush (s : State Q) (p : Q.PushPc) : Option (State Q) :=
  ((Q.pushCode p).tso s.mem s.prodBuf s.stop).map fun n =>
    { s with mem := n.mem, prodBuf := n.buf, stop := n.obj, prod := some n.pc,
             cons := MarketDataQueue.woken n.woken s.cons }

def stepPop (s : State Q) (c : Q.PopPc) : Option (State Q) :=
  ((Q.popCode c).tso s.mem s.consBuf s.stop).map fun n =>
    { s with mem := n.mem, consBuf := n.buf, stop := n.obj, cons := some n.pc }

def step (s : State Q) : Event T → Option (State Q)
  | .callPush item =>
      match s.prod with
      | none => some { s with prod := some (Q.push item) }
      | some _ => none
  | .callPop =>
      match s.cons with
      | none => some { s with cons := some Q.pop }
      | some _ => none
  | .push => s.prod.bind (stepPush s)
  | .pop => s.cons.bind (stepPop s)
  | .flushProd => (Instr.flush s.mem s.prodBuf).map fun f =>
      { s with mem := f.1, prodBuf := f.2 }
  | .flushCons => (Instr.flush s.mem s.consBuf).map fun f =>
      { s with mem := f.1, consBuf := f.2 }
  | .spurious => some { s with cons := s.cons.map Q.wake }
  | .retPush =>
      match s.prod.bind Q.pushRet with
      | some _ => some { s with prod := none }
      | none => none
  | .retPop =>
      match s.cons.bind Q.popRet with
      | some _ => some { s with cons := none }
      | none => none

def machine (Q : QueueCode T W) : Machine (State Q) (Event T) where
  init := { mem := Mem.initial, prodBuf := [], consBuf := [], stop := StopState.initial,
            prod := none, cons := none }
  step := step

end StoreBuffers

end MarketData
