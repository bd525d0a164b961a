/-
`SpinSpscQueue<T, CustomSpscQueue<T, Capacity>>`.

`push` is the underlying push.  `pop` tries the underlying pop again and again,
looking at the stop token before each try.
-/
import MarketData.Utils.MarketDataQueue

namespace MarketData

open Lib

variable {T : Type} {W : Nat}

inductive SpinPopPc (T : Type) (W : Nat)
  | checkStop
  | queue (p : PopPc T W)
  | done (res : Option T)

def SpinPopPc.code (N : Capacity W) : SpinPopPc T W → Code T W StopState (SpinPopPc T W)
  | .checkStop => .lib fun st => (st, if st.requested then .done none else .queue .loadRead)
  | .queue p => p.call N .queue fun res =>
      match res with
      | some item => .done (some item)
      | none => .checkStop
  | .done _ => .halt

def PushPc.ret : PushPc T W → Option Bool
  | .done _ ok => some ok
  | _ => none

def SpinPopPc.ret : SpinPopPc T W → Option (Option T)
  | .done res => some res
  | _ => none

@[reducible] def SpinSpscQueue (N : Capacity W) : QueueCode T W where
  PushPc := PushPc T W
  PopPc := SpinPopPc T W
  push := .loadWrite
  pushCode := PushPc.code N
  pushRet := PushPc.ret
  pop := .checkStop
  popCode := SpinPopPc.code N
  popRet := SpinPopPc.ret
  wake := id

end MarketData
