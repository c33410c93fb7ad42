import Aic8800.Lib.Threads
import Aic8800.TcpAck.Filter

/-! # The ACK filter under concurrency

`rwnx_start_xmit`, the timers and the receive path run at once. `ack_m->lock` is
held over the whole of `tcp_ack_update` and `tcp_ack_alloc_index`, and each access
to a slot is a section of its `seqlock`, which readers repeat when a writer came
between. A point of a thread is where it takes a lock or touches a slot. Every
action reads the time afresh: it is the choice of the step.
-/

namespace Aic8800.TcpAck

open Lib Threads

/-- Beside the filter: whether `ack_m->lock` is held, and the sequence number of
    each `seqlock`, which a write section raises. -/
structure Shared where
  filter : TcpAckManage
  locked : Bool
  sequence : Index → Nat

/-- A call of `filter_send_tcp_ack` that is past `tcp_check_ack`. -/
structure SendCall where
  msg : MsgBuf
  ack : TcpAckMsg
  drop : Nat
  winScale : Nat
  deriving DecidableEq

/-- For whom `tcp_ack_match` looks. -/
inductive Lookup where
  | send (call : SendCall)
  | rx (ack : TcpAckMsg)
  deriving DecidableEq

def Lookup.ack : Lookup → TcpAckMsg
  | .send call => call.ack
  | .rx ack => ack

inductive Point where
  | update (msg : MsgBuf)
  | updateLock (msg : MsgBuf)
  | updateSlot (msg : MsgBuf) (i : Index)
  | checkAck (msg : MsgBuf)
  | matchSlot (lookup : Lookup) (i : Index)
  | rescale (call : SendCall) (i : Index)
  | handle (call : SendCall) (type : Nat) (i : Index)
  | alloc (call : SendCall)
  | scanBegin (call : SendCall) (i : Index)
  | scanRead (call : SendCall) (i : Index) (start : Nat)
  | scanRetry (call : SendCall) (i : Index) (start : Nat) (found : Bool)
  | mark (call : SendCall) (i : Index)
  | quick (ack : TcpAckMsg) (i : Index)
  | expired (i : Index)
  | move (msg : MsgBuf) (i : Index)
  deriving DecidableEq

/-- The slot that a call has been counted for and that it has not yet marked. -/
def Point.slot : Point → Option Index
  | .scanRetry _ i _ true | .mark _ i => some i
  | _ => none

/-- Where a call takes a slot, or uses the one it has. -/
def Point.takes : Point → Bool
  | .alloc _ | .scanRead _ _ _ | .scanRetry _ _ _ true | .mark _ _ => true
  | _ => false

namespace Index

def last : Index := ⟨31, by decide⟩

def next (i : Index) : Option Index := if more : i.val + 1 < 32 then some ⟨i.val + 1, more⟩ else none

def prev (i : Index) : Option Index :=
  if 0 < i.val then some ⟨i.val - 1, by have := i.isLt; omega⟩ else none

end Index

/-- A call of the driver into the filter: a frame to send or received, or a timer
    that expires. -/
inductive Call where
  | send (msg : MsgBuf)
  | rx (buf : List UInt8) (plen : Nat)
  | timeout (i : Index)

namespace Shared

def init (jiffies timeout : BitVec 64) : Shared :=
  { filter := tcpAckInit jiffies timeout, locked := false, sequence := fun _ => 0 }

/-- A write section of the slot `i`. -/
def write (s : Shared) (i : Index) (info : TcpAckInfo) : Shared :=
  { s with
    filter := s.filter.setInfo i info
    sequence := Function.update s.sequence i (s.sequence i + 1) }

def unlock (s : Shared) : Shared := { s with locked := false }

def pass (s : Shared) (msg : MsgBuf) : Shared := { s with filter := s.filter.pass msg }

/-- A message that is not kept is sent on: its way starts in `move_tcpack_msg`. -/
def moves (s : Shared) (msg : MsgBuf) : Shared × Option Point := (s, some (.move msg Index.first))

/-- What starts outside of the filter. -/
def event (s : Shared) (_ : List Point) : Call → Option (Shared × Option Point)
  | .send msg =>
      if msg.len ≤ maxTcpAck then some (s, some (.update msg))
      else some (s.pass msg, none)
  | .rx buf plen =>
      if !s.filter.enable || decide (maxTcpAck < plen) then some (s, none)
      else (tcpCheckQuickAck buf).map fun
        | none => (s, none)
        | some ack => (s, some (.matchSlot (.rx ack) Index.first))
  | .timeout i =>
      if (s.filter.ackInfo i).timer then
        let filter := s.filter.setInfo i { s.filter.ackInfo i with timer := false }
        some ({ s with filter }, some (.expired i))
      else none

/-- The section of `tcp_ack_update` on one slot. -/
def updateSlot (s : Shared) (i : Index) (jiffies : BitVec 64) : Shared :=
  let info := s.filter.ackInfo i
  if info.old jiffies then
    let s := s.write i { info with busy := false }
    { s with filter := { s.filter with freeIndex := some i, maxNum := s.filter.maxNum - 1 } }
  else s.write i info

/-- `filter_send_tcp_ack` stores a window scale that is new to the slot. -/
def rescaleSlot (s : Shared) (call : SendCall) (i : Index) : Shared :=
  let info := s.filter.ackInfo i
  if call.winScale ≠ 0 ∧ info.winScale ≠ call.winScale then
    s.write i { info with winScale := call.winScale }
  else s

/-- The section of `move_tcpack_msg` on one slot. -/
def moveSlot (s : Shared) (msg : MsgBuf) (i : Index) : Shared :=
  let info := s.filter.ackInfo i
  if info.busy && info.inSendMsg == some msg.ptr then s.write i { info with inSendMsg := none }
  else s.write i info

/-- `tcp_ack_timeout`. The timer may have been armed again since it expired. -/
def timeoutSlot (s : Shared) (i : Index) : Shared × Option Point :=
  let (info, send) := (s.filter.ackInfo i).tcpAckTimeout
  let s := s.write i { info with timer := (s.filter.ackInfo i).timer }
  match send with
  | some msg => s.moves msg
  | none => (s, none)

/-- What `tcp_ack_alloc_index` does when it counts a slot for its caller. -/
def count (s : Shared) : Shared :=
  { s with filter := { s.filter with freeIndex := none, maxNum := s.filter.maxNum + 1 } }

/-- One action of a thread. The functions return where the result is `none`. -/
def action (s : Shared) (_others : List Point) (t : Point) (jiffies : BitVec 64) :
    Option (Shared × Option Point) :=
  match t with
  | .update msg =>
      if timeAfter jiffies (s.filter.lastTime + s.filter.timeout) then
        some (s, some (.updateLock msg))
      else some (s, some (.checkAck msg))
  | .updateLock msg =>
      if s.locked then none
      else
        some ({ s with locked := true, filter := { s.filter with lastTime := jiffies } },
          some (.updateSlot msg Index.last))
  | .updateSlot msg i =>
      let s := s.updateSlot i jiffies
      match i.prev with
      | some i => some (s, some (.updateSlot msg i))
      | none => some (s.unlock, some (.checkAck msg))
  | .checkAck msg =>
      (tcpCheckAck msg.data).bind fun check =>
        if check.drop = 0 ∧ check.winScale = 0 then some (s.moves msg)
        else
          check.msg.map fun ack =>
            (s, some (.matchSlot (.send ⟨msg, ack, check.drop, check.winScale⟩) Index.first))
  -- the reader repeats until no writer came between, so that it reads one state
  | .matchSlot lookup i =>
      if (s.filter.ackInfo i).follows lookup.ack then
        match lookup with
        | .send call => some (s, some (.rescale call i))
        | .rx ack => some (s, some (.quick ack i))
      else
        match i.next, lookup with
        | some i, _ => some (s, some (.matchSlot lookup i))
        | none, .send call => some (s, some (.alloc call))
        | none, .rx _ => some (s, none)
  | .rescale call i =>
      let s := s.rescaleSlot call i
      if 0 < call.drop && s.filter.enable then
        let type := s.filter.handlerType (s.filter.ackInfo i) call.ack call.drop call.winScale
        some (s, some (.handle call type i))
      else some (s.moves call.msg)
  | .handle call type i =>
      let (info, dropMsg, kept) :=
        (s.filter.ackInfo i).tcpAckHandleNew call.msg call.ack s.filter.maxDropCnt jiffies
      let s := s.write i info
      let filter :=
        { s.filter with
          freed := s.filter.freed ++ dropMsg.toList
          withheld := if kept then s.filter.withheld ++ [(call.msg, type)] else s.filter.withheld }
      let s := { s with filter }
      if kept then some (s, none) else some (s.moves call.msg)
  | .alloc call =>
      if s.locked then none
      else if s.filter.maxNum = 32 then some (s.moves call.msg)
      else
        match s.filter.freeIndex with
        | some i => some (s.count, some (.mark call i))
        | none => some ({ s with locked := true }, some (.scanBegin call Index.first))
  | .scanBegin call i => some (s, some (.scanRead call i (s.sequence i)))
  | .scanRead call i start =>
      if (s.filter.ackInfo i).busy then some (s, some (.scanRetry call i start false))
      else some (s.count, some (.scanRetry call i start true))
  -- `ret` is set to -1 again before the slot is read once more
  | .scanRetry call i start found =>
      if s.sequence i ≠ start then some (s, some (.scanBegin call i))
      else if found then some (s.unlock, some (.mark call i))
      else
        match i.next with
        | some i => some (s, some (.scanBegin call i))
        | none => some (s.unlock.moves call.msg)
  | .mark call i =>
      let info :=
        (s.filter.ackInfo i).assign call.msg call.ack call.winScale s.filter.maxDropCnt jiffies
      some ((s.write i info).moves call.msg)
  | .quick ack i =>
      some (s.write i { s.filter.ackInfo i with pshFlag := true, pshSeq := ack.seq }, none)
  | .expired i => some (s.timeoutSlot i)
  | .move msg i =>
      if s.filter.enable then
        let s := s.moveSlot msg i
        match i.next with
        | some i => some (s, some (.move msg i))
        | none => some (s.pass msg, none)
      else some (s.pass msg, none)

end Shared

/-- The filter, with any number of calls under way. -/
def filterProgram : Program Shared Point Call (BitVec 64) := ⟨Shared.event, Shared.action⟩

abbrev FilterConfig := Config Shared Point

end Aic8800.TcpAck
