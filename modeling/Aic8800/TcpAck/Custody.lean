import Aic8800.Lib.Ledger
import Aic8800.TcpAck.Concurrent
import Mathlib

/-! # Who has a message

`rwnx_start_xmit` makes a `msg_buf` for each short frame. Either the filter keeps it, or it comes to
`move_tcpack_msg`, `kfree` and the transmit queue, as does one that a timer takes out of its slot. The
calls of the filter are those of `filterProgram`; around them are the callers, the timers' handlers
and `tcp_ack_deinit`.
-/

namespace Aic8800.TcpAck

open Lib Threads

/-- What a frame meets between the filter and the queue. -/
structure TxPath where
  sta : Bool
  active : Bool
  swTxhdr : Bool
  deriving DecidableEq

/-- What became of an `skb`. -/
inductive SkbEnd where
  | queued
  | freed
  deriving DecidableEq

/-- The rest of `rwnx_start_xmit` and of `intf_tx`. -/
def TxPath.transmit (path : TxPath) : SkbEnd :=
  if path.sta && path.active && path.swTxhdr then .queued else .freed

/-- What an action finds: the time, and the way of a frame. -/
structure Choice where
  jiffies : BitVec 64
  path : TxPath
  deriving DecidableEq

/-- Beside the filter, what became of each `msg_buf`, and of each `skb`. -/
structure Custody where
  shared : Shared
  buffers : Ledger Unit
  skbs : Ledger SkbEnd

inductive Spot where
  | filter (p : Point)
  /-- `intf_tcp_drop_msg`, before the caller sends another message or returns. -/
  | drop (msg : MsgBuf) (send : Option MsgBuf)
  /-- The handler of a timer that has expired. -/
  | expired (i : Index)
  | move (msg : MsgBuf)
  | moveSlot (msg : MsgBuf) (i : Index)
  | kfree (msg : MsgBuf)
  | transmit (msg : MsgBuf)
  | deinit (i : Index)
  | deinitDrop (msg : MsgBuf) (i : Index)
  deriving DecidableEq

/-- The message that a call of the filter is about. -/
def Point.msg : Point → Option MsgBuf
  | .update msg | .updateLock msg | .updateSlot msg _ | .checkAck msg | .move msg _ => some msg
  | .matchSlot (.send call) _ | .rescale call _ | .handle call _ _ | .alloc call | .scanBegin call _
  | .scanRead call _ _ | .scanRetry call _ _ _ | .mark call _ => some call.msg
  | .matchSlot (.rx _) _ | .quick _ _ | .expired _ => none

namespace Spot

/-- The `msg_buf`s that only this call knows. -/
def buffers : Spot → List MsgBuf
  | .filter p => p.msg.toList
  | .drop msg send => msg :: send.toList
  | .move msg | .moveSlot msg _ | .kfree msg | .deinitDrop msg _ => [msg]
  | .expired _ | .transmit _ | .deinit _ => []

/-- The messages whose `skb` only this call knows. -/
def skbs : Spot → List MsgBuf
  | .transmit msg => [msg]
  | t => t.buffers

/-- The call has still to look whether it is a message at `ptr` that the slot has in transmission. -/
def Clears (i : Index) (ptr : Nat) : Spot → Prop
  | .drop _ (some msg) | .move msg => msg.ptr = ptr
  | .moveSlot msg k => msg.ptr = ptr ∧ k ≤ i
  | _ => False

/-- The slot whose `in_send_msg` is looked at next. -/
def compares : Spot → Option Index
  | .filter (.handle _ _ i) | .expired i | .moveSlot _ i => some i
  | _ => none

end Spot

inductive XmitCall where
  | xmit (msg : MsgBuf)
  | rx (buf : List UInt8) (plen : Nat)
  | expire (i : Index)
  | deinit

namespace Custody

def init (jiffies timeout : BitVec 64) : Custody :=
  { shared := .init jiffies timeout, buffers := .empty, skbs := .empty }

variable (s : Custody)

def info (i : Index) : TcpAckInfo := s.shared.filter.ackInfo i

def write (i : Index) (info : TcpAckInfo) : Custody := { s with shared := s.shared.write i info }

/-- The messages that wait in the slots. -/
def held : List MsgBuf := (List.finRange 32).filterMap fun i => (s.info i).msgbuf

/-- The `msg_buf`s that `kfree` has not been given. -/
def live (threads : List Spot) : List MsgBuf := threads.flatMap Spot.buffers ++ s.held

/-- The messages whose `skb` is still in the driver's hands. -/
def cargo (threads : List Spot) : List MsgBuf := threads.flatMap Spot.skbs ++ s.held

/-- The allocator gives a `msg_buf` that is not in use. Each message has a number of its own. -/
def alloc (msg : MsgBuf) : Custody × MsgBuf :=
  ({ s with buffers := s.buffers.issue, skbs := s.skbs.issue },
    { msg with serial := s.buffers.issued })

def kfree (msg : MsgBuf) : Custody := { s with buffers := s.buffers.settle msg.serial () }

def finish (msg : MsgBuf) (how : SkbEnd) : Custody := { s with skbs := s.skbs.settle msg.serial how }

/-- `intf_tcp_drop_msg` -/
def dropMsg (msg : MsgBuf) : Custody := (s.finish msg .freed).kfree msg

/-- A call that leaves the filter with its message goes on to `move_tcpack_msg`. -/
def lift : Shared × Option Point → Custody × Option Spot
  | (shared, some (.move msg _)) => ({ s with shared }, some (.move msg))
  | (shared, some p) => ({ s with shared }, some (.filter p))
  | (shared, none) => ({ s with shared }, none)

def event (threads : List Spot) : XmitCall → Option (Custody × Option Spot)
  | .xmit msg =>
      if maxTcpAck < msg.len then some (s, none)
      else if msg.ptr ∈ (s.live threads).map MsgBuf.ptr then none
      else
        let (s, msg) := s.alloc msg
        some (s, some (.filter (.update msg)))
  | .rx buf plen => (s.shared.event [] (.rx buf plen)).map s.lift
  | .expire i =>
      if (s.info i).timer then
        let filter := s.shared.filter.setInfo i { s.info i with timer := false }
        some ({ s with shared := { s.shared with filter } }, some (.expired i))
      else none
  | .deinit =>
      let filter := { s.shared.filter with enable := false }
      some ({ s with shared := { s.shared with filter } }, some (.deinit Index.first))

/-- `tcp_ack_handle_new`, and what its caller does with what it returns. -/
def handle (call : SendCall) (i : Index) (jiffies : BitVec 64) : Custody × Option Spot :=
  let (info, dropMsg, kept) :=
    (s.info i).tcpAckHandleNew call.msg call.ack s.shared.filter.maxDropCnt jiffies
  match dropMsg, kept with
  | some old, true => (s.write i info, some (.drop old none))
  | some old, false => (s.write i info, some (.drop old (some call.msg)))
  | none, true => (s.write i info, none)
  | none, false => (s.write i info, some (.move call.msg))

/-- `tcp_ack_timeout`. The timer may have been armed again since. -/
def timeout (i : Index) : Custody × Option Spot :=
  let (info, send) := (s.info i).tcpAckTimeout
  (s.write i { info with timer := (s.info i).timer }, send.map .move)

/-- The section of `tcp_ack_deinit` on one slot. -/
def deinitSlot (i : Index) : Custody :=
  s.write i { s.info i with msgbuf := none, timer := false }

def action (_others : List Spot) (t : Spot) (choice : Choice) : Option (Custody × Option Spot) :=
  match t with
  | .filter (.handle call _ i) => some (s.handle call i choice.jiffies)
  | .filter (.move _ _) | .filter (.expired _) => none
  | .filter p => (s.shared.action [] p choice.jiffies).map s.lift
  | .drop msg send => some (s.dropMsg msg, send.map .move)
  | .expired i => some (s.timeout i)
  | .move msg =>
      if s.shared.filter.enable then some (s, some (.moveSlot msg Index.first))
      else some (s, some (.kfree msg))
  | .moveSlot msg i =>
      let s := { s with shared := s.shared.moveSlot msg i }
      match i.next with
      | some i => some (s, some (.moveSlot msg i))
      | none => some (s, some (.kfree msg))
  | .kfree msg => some (s.kfree msg, some (.transmit msg))
  | .transmit msg => some (s.finish msg choice.path.transmit, none)
  | .deinit i =>
      match (s.info i).msgbuf with
      | some msg => some (s.deinitSlot i, some (.deinitDrop msg i))
      | none => some (s.deinitSlot i, i.next.map .deinit)
  | .deinitDrop msg i => some (s.dropMsg msg, i.next.map .deinit)

end Custody

/-- The filter and its callers, with any number of calls under way. -/
def custodyProgram : Program Custody Spot XmitCall Choice := ⟨Custody.event, Custody.action⟩

abbrev CustodyConfig := Config Custody Spot

end Aic8800.TcpAck
