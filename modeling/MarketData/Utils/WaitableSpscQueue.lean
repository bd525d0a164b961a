/-
`WaitableSpscQueue<T, CustomSpscQueue<T, Capacity>>`.

A pop that finds nothing announces in `is_sleeping_` that it is about to sleep,
tries once more, and waits on the flag; a push that has put an item in looks at
the flag, and clears it and notifies if it is set.  `is_sleeping_.wait(true)`
loads the flag and blocks if it is set; a notify makes it load again.  The stop
callback is an object of `pop`: registered on entry, deregistered on return.
-/
import MarketData.Utils.MarketDataQueue

namespace MarketData

open Lib

variable {T : Type} {W : Nat}

/-! ### `push` -/

inductive WaitPushPc (T : Type) (W : Nat)
  | queue (p : PushPc T W)
  | loadSleeping (item : T)
  | storeSleeping (item : T)
  | notify (item : T)
  | done (item : T) (ok : Bool)

def WaitPushPc.code (N : Capacity W) : WaitPushPc T W → Code T W StopState (WaitPushPc T W)
  | .queue p => p.call N .queue fun item ok =>
      if ok then .loadSleeping item else .done item false
  | .loadSleeping item => .load .isSleeping_ .relaxed fun b =>
      if b then .storeSleeping item else .done item true
  | .storeSleeping item => .store .isSleeping_ false .release (.notify item)
  | .notify item => .notify (.done item true)
  | .done _ _ => .halt

def WaitPushPc.ret : WaitPushPc T W → Option Bool
  | .done _ ok => some ok
  | _ => none

/-! ### `pop` -/

inductive WaitPopPc (T : Type) (W : Nat)
  | registerCallback
  /-- The stop was requested before the callback was constructed: the constructor
  runs it. -/
  | callbackStore
  | callbackNotify
  | checkStop
  | firstPop (p : PopPc T W)
  | storeTrue
  | secondPop (p : PopPc T W)
  | storeFalse (item : T)
  | wait
  | blocked
  | deregisterCallback (res : Option T)
  | done (res : Option T)

def WaitPopPc.code (N : Capacity W) : WaitPopPc T W → Code T W StopState (WaitPopPc T W)
  | .registerCallback => .lib fun st =>
      if st.requested then (st, .callbackStore)
      else ({ st with callback := .registered }, .checkStop)
  | .callbackStore => .store .isSleeping_ false .release .callbackNotify
  | .callbackNotify => .notify .checkStop
  | .checkStop => .lib fun st =>
      (st, if st.requested then .deregisterCallback none else .firstPop .loadRead)
  | .firstPop p => p.call N .firstPop fun res =>
      match res with
      | some item => .deregisterCallback (some item)
      | none => .storeTrue
  | .storeTrue => .store .isSleeping_ true .seqCst (.secondPop .loadRead)
  | .secondPop p => p.call N .secondPop fun res =>
      match res with
      | some item => .storeFalse item
      | none => .wait
  | .storeFalse item => .store .isSleeping_ false .relaxed (.deregisterCallback (some item))
  | .wait => .load .isSleeping_ .acquire fun b => if b then .blocked else .checkStop
  | .blocked => .halt
  | .deregisterCallback res => .lib fun st =>
      if st.callback = .running then (st, .deregisterCallback res)
      else ({ st with callback := .none }, .done res)
  | .done _ => .halt

def WaitPopPc.ret : WaitPopPc T W → Option (Option T)
  | .done res => some res
  | _ => none

/-- A notify releases a blocked wait, which then loads the flag again. -/
def WaitPopPc.wake : WaitPopPc T W → WaitPopPc T W
  | .blocked => .wait
  | p => p

@[reducible] def WaitableSpscQueue (N : Capacity W) : QueueCode T W where
  PushPc := WaitPushPc T W
  PopPc := WaitPopPc T W
  push := fun item => .queue (.loadWrite item)
  pushCode := WaitPushPc.code N
  pushRet := WaitPushPc.ret
  pop := .registerCallback
  popCode := WaitPopPc.code N
  popRet := WaitPopPc.ret
  wake := WaitPopPc.wake

end MarketData
