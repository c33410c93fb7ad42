import Aic8800.Cmd.Manager
import Aic8800.Lib.Run
import Mathlib

/-! # The commands of the firmware loader

The loader has a command manager of its own, in `aicbluetooth_cmds.c`. A call of
`rwnx_send_msg` allocates a command, links it into `cmds` and waits for its
confirmation. Calls are numbered, and a command has the number of its call. A step
is one section under `cmd_mgr->lock`, or what a sender does between two of them.
-/

namespace Aic8800.Loader

open Lib Cmd

/-- `RWNX_CMD_MAX_QUEUED` -/
def rwnxCmdMaxQueued : Nat := 8

/-- `RWNX_CMD_E2AMSG_LEN_MAX` -/
def rwnxCmdE2amsgLenMax : Nat := 1024

/-- The arguments of `rwnx_send_msg`, with the buffer `cfm` by its number. -/
structure Send where
  id : Nat
  reqcfm : Bool
  reqid : Nat
  cfm : Option Nat
  deriving DecidableEq

/-- A `rwnx_cmd`, with the message by the number of its call and the completion as
    its count. Tokens are kept unwrapped, since nothing compares them. -/
structure RwnxCmd where
  id : Nat
  reqid : Nat
  a2eMsg : Nat
  e2aMsg : Option Nat
  tkn : Nat
  flags : CmdFlags
  complete : Nat
  result : Int
  deriving DecidableEq

/-- What `cmd_complete` does to a command, `kfree` apart. -/
def RwnxCmd.finish (c : RwnxCmd) : RwnxCmd :=
  let flags := { c.flags with done := true }
  if flags.nonblock = false ∧ flags.waitComplete = true then
    { c with flags, result := 0, complete := c.complete + 1 }
  else { c with flags }

def RwnxCmd.stopWaiting (c : RwnxCmd) : RwnxCmd :=
  { c with flags := { c.flags with waitCfm := false } }

/-- Where a call of `rwnx_send_msg` is. -/
inductive Point where
  | called (send : Send)
  | filled
  | linked
  | waiting
  | timedOut
  | woken
  | returned (ret : Int)
  deriving DecidableEq

structure CmdMgr where
  state : RwnxCmdMgrState
  nextTkn : Nat
  queueSz : Nat
  maxQueueSz : Nat
  cmds : List Nat
  busUp : Bool
  calls : Nat
  point : Nat → Option Point
  cmd : Nat → RwnxCmd
  /-- The callers' buffers for confirmations. -/
  bufs : Nat → List UInt8
  kallocs : List Nat
  kfrees : List Nat
  /-- Calls whose message was given to the bus. -/
  sent : List Nat
  /-- Calls whose message was freed. -/
  msgFrees : List Nat
  /-- Commands confirmed, with the parameters they were confirmed with. -/
  confirmed : List (Nat × List UInt8)
  /-- Commands whose confirmation was copied to a buffer, with where the call was. -/
  copies : List (Nat × Option Point)
  /-- A freed command or a poisoned list entry was used. -/
  oops : Bool
  /-- A confirmation was longer than the buffer it was copied to. -/
  overrun : Bool

def noCmd : RwnxCmd :=
  { id := 0, reqid := 0, a2eMsg := 0, e2aMsg := none, tkn := 0
    flags := ⟨false, false, false, false, false, false⟩, complete := 0, result := 0 }

def rwnxCmdMgrInit (bufs : Nat → List UInt8) : CmdMgr :=
  { state := .inited, nextTkn := 0, queueSz := 0, maxQueueSz := rwnxCmdMaxQueued, cmds := []
    busUp := true, calls := 0, point := fun _ => none, cmd := fun _ => noCmd, bufs, kallocs := []
    kfrees := [], sent := [], msgFrees := [], confirmed := [], copies := [], oops := false
    overrun := false }

namespace CmdMgr

def modify (s : CmdMgr) (n : Nat) (f : RwnxCmd → RwnxCmd) : CmdMgr :=
  { s with cmd := Function.update s.cmd n (f (s.cmd n)) }

def move (s : CmdMgr) (n : Nat) (p : Point) : CmdMgr :=
  { s with point := Function.update s.point n (some p) }

/-- Going through the list reads its entries. -/
def touch (s : CmdMgr) : CmdMgr := { s with oops := s.oops || s.cmds.any (s.kfrees.contains ·) }

/-- `queue_sz` is a `u32`. -/
def shrunk (size count : Nat) : Nat :=
  if count ≤ size then size - count else size + 4294967296 - count

def grown (size : Nat) : Nat := if size = 4294967295 then 0 else size + 1

/-- `list_del` of an entry, and the count. -/
def unlinkCmd (s : CmdMgr) (n : Nat) : CmdMgr :=
  { s.touch with
    cmds := s.cmds.erase n
    queueSz := shrunk s.queueSz 1
    oops := s.touch.oops || !s.cmds.contains n }

def kfree (s : CmdMgr) (n : Nat) : CmdMgr :=
  { s with kfrees := s.kfrees ++ [n], oops := s.oops || s.kfrees.contains n }

def cmdComplete (s : CmdMgr) (n : Nat) : CmdMgr :=
  let t := (s.unlinkCmd n).modify n RwnxCmd.finish
  if (s.cmd n).flags.nonblock then t.kfree n else t

def kzallocCmd (s : CmdMgr) (n : Nat) (send : Send) : CmdMgr :=
  { s with
    kallocs := s.kallocs ++ [n]
    cmd := Function.update s.cmd n
      { id := send.id, reqid := send.reqid, a2eMsg := n, e2aMsg := send.cfm, tkn := 0
        flags := ⟨false, send.reqcfm, false, false, false, false⟩, complete := 0
        result := -eintr } }

def aicwfSetCmdTx (s : CmdMgr) (msg : Nat) : CmdMgr := { s with sent := s.sent ++ [msg] }

def rwnxMsgFree (s : CmdMgr) (msg : Nat) : CmdMgr := { s with msgFrees := s.msgFrees ++ [msg] }

/-- The first part of `rwnx_send_msg`. `nonblock` is the constant 0. -/
def rwnxSendMsg (s : CmdMgr) (n : Nat) (send : Send) : CmdMgr :=
  if s.busUp then
    let s := s.kzallocCmd n send
    if send.reqcfm then s.move n .filled
    else ((s.aicwfSetCmdTx n).kfree n).move n (.returned 0)
  else (s.rwnxMsgFree n).move n (.returned 0)

/-- Whether the push is left to somebody else. -/
def defers (s : CmdMgr) : Bool :=
  s.cmds.getLast?.elim false fun last => (s.cmd last).flags.waitAck || (s.cmd last).flags.waitPush

def linkCmd (s : CmdMgr) (n : Nat) : CmdMgr :=
  { s.touch.modify n fun c =>
      { c with
        tkn := s.nextTkn, result := -eintr
        complete := if c.flags.nonblock then c.complete else 0
        flags := { c.flags with
          waitPush := c.flags.waitPush || s.defers
          waitCfm := c.flags.waitCfm || c.flags.reqCfm } } with
    nextTkn := s.nextTkn + 1, queueSz := grown s.queueSz, cmds := s.cmds ++ [n] }

/-- The first section of `cmd_mgr_queue`. -/
def cmdMgrQueue (s : CmdMgr) (n : Nat) : CmdMgr :=
  if s.state = .crashed then
    (s.modify n fun c => { c with result := -epipe }).move n (.returned (-epipe))
  else if s.cmds ≠ [] ∧ s.queueSz = s.maxQueueSz then
    (s.modify n fun c => { c with result := -enomem }).move n (.returned (-enomem))
  else (s.linkCmd n).move n (if s.defers then .returned 0 else .linked)

/-- `aicwf_set_cmd_tx` and `kfree` of the message. -/
def push (s : CmdMgr) (n : Nat) : CmdMgr :=
  let s := (s.aicwfSetCmdTx (s.cmd n).a2eMsg).rwnxMsgFree (s.cmd n).a2eMsg
  if (s.cmd n).flags.nonblock then
    (s.modify n fun c => { c with result := 0 }).move n (.returned 0)
  else s.move n .waiting

/-- The locked part of the timeout branch. -/
def giveUp (s : CmdMgr) (n : Nat) : CmdMgr :=
  let s := { s with state := .crashed }
  let s :=
    if (s.cmd n).flags.done then s
    else (s.modify n fun c => { c with result := -etimedout }).cmdComplete n
  s.move n (.returned 0)

/-- The command that the loop of `cmd_mgr_msgind` finds. No message has a callback. -/
def cfmTarget (s : CmdMgr) (id : Nat) : Option Nat :=
  s.cmds.find? fun n => (s.cmd n).reqid == id && (s.cmd n).flags.waitCfm

/-- The `memcpy` to the buffer of a command. -/
def copyParam (s : CmdMgr) (n : Nat) (param : List UInt8) : CmdMgr :=
  match (s.cmd n).e2aMsg with
  | none => s
  | some buf =>
      if param = [] then s
      else
        { s with
          bufs := Function.update s.bufs buf (param ++ (s.bufs buf).drop param.length)
          copies := s.copies ++ [(n, s.point n)]
          overrun := s.overrun || decide ((s.bufs buf).length < param.length) }

/-- What `cmd_mgr_msgind` does with the command it has found. -/
def confirmCmd (s : CmdMgr) (n : Nat) (param : List UInt8) : CmdMgr :=
  let s := s.modify n RwnxCmd.stopWaiting
  let s := { s.copyParam n param with confirmed := s.confirmed ++ [(n, param)] }
  if (s.cmd n).flags.waitComplete then s.cmdComplete n else s

def cmdMgrMsgind (s : CmdMgr) (id : Nat) (param : List UInt8) : CmdMgr :=
  match s.cfmTarget id with
  | none => s.touch
  | some n => s.touch.confirmCmd n (param.take rwnxCmdE2amsgLenMax)

def cmdMgrDrain (s : CmdMgr) : CmdMgr :=
  { s.touch with
    cmds := []
    queueSz := shrunk s.queueSz s.cmds.length
    cmd := fun n =>
      if n ∈ s.cmds ∧ (s.cmd n).flags.nonblock = false then
        { s.cmd n with complete := (s.cmd n).complete + 1 }
      else s.cmd n }

/-- What a sender does next; a wait ends when the completion is there. -/
def act (s : CmdMgr) (n : Nat) : Point → Option CmdMgr
  | .called send => some (s.rwnxSendMsg n send)
  | .filled => some (s.cmdMgrQueue n)
  | .linked => some (s.push n)
  | .waiting =>
      if (s.cmd n).complete = 0 then none
      else some ((s.modify n fun c => { c with complete := c.complete - 1 }).move n .woken)
  | .timedOut => some (s.giveUp n)
  | .woken => some ((s.kfree n).move n (.returned 0))
  | .returned _ => none

end CmdMgr

inductive Label where
  | call (send : Send)
  | run (n : Nat)
  | timeout (n : Nat)
  | signal (n : Nat)
  | msgind (id : Nat) (param : List UInt8)
  | drain
  | bus (up : Bool)

def CmdMgr.startCall (s : CmdMgr) (send : Send) : CmdMgr :=
  { s with
    calls := s.calls + 1
    point := Function.update s.point s.calls (some (.called send)) }

/-- Whether a wait without a completion can end. -/
def CmdMgr.stuck (s : CmdMgr) (n : Nat) : Bool :=
  s.point n == some .waiting && (s.cmd n).complete == 0

def CmdMgr.step (s : CmdMgr) : Label → Option CmdMgr
  | .call send => some (s.startCall send)
  | .run n => (s.point n).bind (s.act n)
  | .timeout n => if s.stuck n then some (s.move n .timedOut) else none
  | .signal n => if s.stuck n then some (s.move n .woken) else none
  | .msgind id param => some (s.cmdMgrMsgind id param)
  | .drain => some s.cmdMgrDrain
  | .bus up => some { s with busUp := up }

end Aic8800.Loader
