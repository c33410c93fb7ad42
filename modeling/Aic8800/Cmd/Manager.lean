import Mathlib.Data.List.FinRange
import Mathlib.Logic.Function.Basic

/-! # The command manager

Commands to the firmware live in the slots of `cmd_array` and are queued on
`cmd_mgr->cmds`. The definitions below are the sections of `rwnx_cmds.c` and
`rwnx_msg_tx.c` that run under `cmd_mgr->lock` or `cmd_array_lock`, or on a slot
that only their thread knows. The state also keeps logs of what happened, which
no section reads.
-/

namespace Aic8800.Cmd

/-- An index into `cmd_array`, of `RWNX_CMD_ARRAY_SIZE` slots. -/
abbrev Slot := Fin 40

def slot (n : Nat) : Slot := Fin.ofNat 40 n

/-- `RWNX_CMD_MAX_QUEUED` -/
def rwnxCmdMaxQueued : Nat := 16

/-- `LMAC_FIRST_MSG(TASK_ME)` plus the place of the message among those of its task. -/
def meTrafficIndReq : Nat := 5132

def mmSetArpoffloadReq : Nat := 97

def eintr : Int := 4

def enomem : Int := 12

def epipe : Int := 32

def etimedout : Int := 110

/-- The bits `RWNX_CMD_FLAG_*`. -/
structure CmdFlags where
  nonblock : Bool
  reqCfm : Bool
  waitPush : Bool
  waitAck : Bool
  waitCfm : Bool
  done : Bool
  deriving Repr, DecidableEq

/-- `RWNX_CMD_WAIT_COMPLETE` -/
def CmdFlags.waitComplete (f : CmdFlags) : Bool := !(f.waitAck || f.waitCfm)

/-- The test on the last queued command. -/
def CmdFlags.waiting (f : CmdFlags) : Bool := f.waitAck || f.waitPush || f.waitCfm

/-- An `lmac_msg`: its allocation and the message identifier in its header. -/
structure LmacMsg where
  buf : Nat
  id : Nat
  deriving Repr, DecidableEq

/-- A slot. The completion is its count, the result buffer an allocation of the
    caller. Tokens are kept unwrapped, since nothing compares them. -/
structure RwnxCmd where
  id : Nat
  reqid : Nat
  a2eMsg : LmacMsg
  e2aMsg : Option Nat
  tkn : Nat
  flags : CmdFlags
  complete : Nat
  result : Int
  used : Bool
  deriving Repr, DecidableEq

inductive RwnxCmdMgrState where
  | inited
  | crashed
  deriving Repr, DecidableEq

/-- What `cmd_mgr_queue` returns for a command it has queued, whether it has left
    the push to the work item, and whether the command had been confirmed by then. -/
structure Report where
  tkn : Nat
  ret : Int
  deferred : Bool
  confirmed : Bool
  deriving Repr, DecidableEq

structure CmdMgr where
  state : RwnxCmdMgrState
  nextTkn : Nat
  queueSz : Nat
  maxQueueSz : Nat
  cmds : List Slot
  cmdWork : Bool
  array : Slot → RwnxCmd
  usbUp : Bool
  /-- Messages given to the bus. -/
  sent : List LmacMsg
  /-- Messages freed by the functions modelled here. -/
  msgFreed : List LmacMsg
  /-- Tokens of queued commands, in the order of their pushes. -/
  pushed : List Nat
  /-- Tokens of confirmed commands. -/
  confirmed : List Nat
  /-- Result buffers written, with the slot they were found in. -/
  copies : List (Slot × Nat)
  /-- Slots linked so far. -/
  linked : List Slot
  reports : List Report
  /-- A null pointer, a poisoned list entry or an entry linked twice was met. -/
  oops : Bool

def emptyCmd : RwnxCmd :=
  { id := 0, reqid := 0, a2eMsg := ⟨0, 0⟩, e2aMsg := none, tkn := 0
    flags := ⟨false, false, false, false, false, false⟩, complete := 0, result := 0, used := false }

def rwnxCmdMgrInit : CmdMgr :=
  { state := .inited, nextTkn := 0, queueSz := 0, maxQueueSz := rwnxCmdMaxQueued, cmds := []
    cmdWork := false, array := fun _ => emptyCmd, usbUp := true, sent := [], msgFreed := []
    pushed := [], confirmed := [], copies := [], linked := [], reports := [], oops := false }

inductive Entry where
  | sendMsg
  | sendMsg1 (defer : Bool)
  deriving Repr, DecidableEq

/-- A call of `rwnx_send_msg` or `rwnx_send_msg1`. -/
structure Call where
  entry : Entry
  msg : LmacMsg
  reqcfm : Bool
  reqid : Nat
  cfm : Option Nat
  deriving Repr, DecidableEq

namespace CmdMgr

def modify (s : CmdMgr) (i : Slot) (f : RwnxCmd → RwnxCmd) : CmdMgr :=
  { s with array := Function.update s.array i (f (s.array i)) }

/-- The first slot that `rwnx_cmd_malloc` finds unused. -/
def freeSlot (s : CmdMgr) : Option Slot := (List.finRange 40).find? fun i => !(s.array i).used

def rwnxCmdMalloc (s : CmdMgr) : CmdMgr × Option Slot :=
  match s.freeSlot with
  | some i => (s.modify i fun c => { c with used := true }, some i)
  | none => (s, none)

def rwnxCmdFree (s : CmdMgr) (i : Slot) : CmdMgr := s.modify i fun c => { c with used := false }

/-- `nonblock` is the constant 0, so the flags of the slot are only added to. -/
def fillCmd (s : CmdMgr) (i : Slot) (call : Call) : CmdMgr :=
  s.modify i fun c =>
    { c with
      result := -eintr, id := call.msg.id, reqid := call.reqid, a2eMsg := call.msg
      e2aMsg := call.cfm
      flags := { c.flags with
        reqCfm := c.flags.reqCfm || call.reqcfm
        waitAck := c.flags.waitAck && !call.reqcfm } }

def aicwfSetCmdTx (s : CmdMgr) (msg : LmacMsg) : CmdMgr :=
  if s.usbUp then { s with sent := s.sent ++ [msg] } else s

def cmdComplete (s : CmdMgr) (i : Slot) : CmdMgr :=
  s.modify i fun c =>
    let flags := { c.flags with done := true }
    if flags.nonblock then { c with flags, used := false }
    else if flags.waitComplete then { c with flags, result := 0, complete := c.complete + 1 }
    else { c with flags }

/-- The end of both queue functions: an entry that is linked already would
    corrupt the list. -/
def linkCmd (s : CmdMgr) (i : Slot) (waitPush : Bool) : CmdMgr :=
  if i ∈ s.cmds then { s with oops := true }
  else
    { s.modify i fun c =>
        { c with
          tkn := s.nextTkn, result := -eintr
          complete := if c.flags.nonblock then c.complete else 0
          flags := { c.flags with
            waitPush := c.flags.waitPush || waitPush
            waitCfm := c.flags.waitCfm || c.flags.reqCfm } } with
      nextTkn := s.nextTkn + 1, queueSz := s.queueSz + 1, cmds := s.cmds ++ [i]
      linked := s.linked ++ [i] }

/-- The checks both queue functions make: a crashed manager, a full queue. -/
def rejection (s : CmdMgr) : Option Int :=
  if s.state = .crashed then some (-epipe)
  else if s.cmds ≠ [] ∧ s.queueSz = s.maxQueueSz then some (-enomem)
  else none

/-- Whether `cmd_mgr_queue` leaves the push to the work item. -/
def defers (s : CmdMgr) (i : Slot) : Bool :=
  (s.cmds.getLast?.elim false fun last => (s.array last).flags.waiting) ||
    (s.array i).a2eMsg.id == meTrafficIndReq || (s.array i).a2eMsg.id == mmSetArpoffloadReq

/-- Before it takes the lock for good, `cmd_mgr_queue` polls until the list is
    empty if the command has a result buffer. -/
def polls (s : CmdMgr) (i : Slot) : Bool :=
  (s.array i).e2aMsg.isSome && s.state == .inited && !s.cmds.isEmpty

/-- `list_del` of an entry, and the count. -/
def unlinkCmd (s : CmdMgr) (i : Slot) : CmdMgr :=
  if i ∈ s.cmds then { s with cmds := s.cmds.erase i, queueSz := s.queueSz - 1 }
  else { s with oops := true }

/-- `aicwf_set_cmd_tx` of a queued command, and `kfree` of its message. -/
def pushCmd (s : CmdMgr) (i : Slot) : CmdMgr :=
  let c := s.array i
  let s := s.aicwfSetCmdTx c.a2eMsg
  { s with msgFreed := s.msgFreed ++ [c.a2eMsg], pushed := s.pushed ++ [c.tkn] }

/-- The locked part of both timeout branches. -/
def timeoutCmd (s : CmdMgr) (i : Slot) : CmdMgr :=
  let s := { s with state := .crashed }
  if (s.array i).flags.done then s
  else (s.modify i fun c => { c with result := -etimedout }).cmdComplete i

/-- A thread that has met a bad pointer reports nothing. -/
def report (s : CmdMgr) (i : Slot) (ret : Int) (deferred : Bool) : CmdMgr :=
  if s.oops then s
  else
    let tkn := (s.array i).tkn
    { s with reports := s.reports ++ [⟨tkn, ret, deferred, decide (tkn ∈ s.confirmed)⟩] }

/-- The first list entry, if it still waits for its push. -/
def nextPush (s : CmdMgr) : Option Slot :=
  s.cmds.head?.filter fun i => (s.array i).flags.waitPush

end CmdMgr

/-- A message from the firmware: the callback refuses the commands it does not
    accept. -/
structure E2aMsg where
  id : Nat
  paramLen : Nat
  accepts : RwnxCmd → Bool

namespace CmdMgr

/-- The command a message is for, as the loop of `cmd_mgr_msgind` finds it. -/
def cfmTarget (s : CmdMgr) (m : E2aMsg) : Option Slot :=
  s.cmds.find? fun i =>
    (s.array i).reqid == m.id && (s.array i).flags.waitCfm && m.accepts (s.array i)

/-- The result buffer that `cmd_mgr_msgind` copies a message to. -/
def copyTarget (s : CmdMgr) (m : E2aMsg) : Option (Slot × Nat) :=
  (s.cfmTarget m).bind fun i =>
    if m.paramLen = 0 then none else (s.array i).e2aMsg.map fun buf => (i, buf)

def confirmCmd (s : CmdMgr) (i : Slot) : CmdMgr :=
  let s := { s.modify i fun c => { c with flags := { c.flags with waitCfm := false } } with
    confirmed := s.confirmed ++ [(s.array i).tkn] }
  if (s.array i).flags.waitComplete then s.cmdComplete i else s

def cmdMgrMsgind (s : CmdMgr) (m : E2aMsg) : CmdMgr :=
  match s.cfmTarget m with
  | none => s
  | some i => { s with copies := s.copies ++ (s.copyTarget m).toList }.confirmCmd i

/-- `queue_sz` is left alone. -/
def cmdMgrDrain (s : CmdMgr) : CmdMgr :=
  { s with
    cmds := []
    array := fun i =>
      let c := s.array i
      if i ∈ s.cmds ∧ !c.flags.nonblock then { c with complete := c.complete + 1 } else c }

/-! ## What the sections leave alone -/

/-- A section that works on one slot leaves the others, and links no other. -/
structure Local (i : Slot) (s t : CmdMgr) : Prop where
  array : ∀ j, j ≠ i → t.array j = s.array j
  cmds : ∀ j, j ≠ i → j ∈ t.cmds → j ∈ s.cmds

theorem Local.refl (i : Slot) (s : CmdMgr) : Local i s s := ⟨fun _ _ => rfl, fun _ _ => id⟩

theorem Local.trans {i : Slot} {s t u : CmdMgr} (h : Local i s t) (k : Local i t u) : Local i s u :=
  ⟨fun j other => (k.array j other).trans (h.array j other),
    fun j other member => h.cmds j other (k.cmds j other member)⟩

/-- What a step on one slot keeps there, it keeps in every slot. -/
theorem Local.same {α : Type} {g : RwnxCmd → α} {i : Slot} {s t : CmdMgr} (h : Local i s t)
    (here : g (t.array i) = g (s.array i)) (j : Slot) : g (t.array j) = g (s.array j) := by
  by_cases at_ : j = i
  · subst at_
    exact here
  · rw [h.array j at_]

variable (s : CmdMgr) (i : Slot)

@[simp] theorem modify_self (f : RwnxCmd → RwnxCmd) : (s.modify i f).array i = f (s.array i) :=
  Function.update_self ..

theorem modify_other (f : RwnxCmd → RwnxCmd) {j : Slot} (other : j ≠ i) :
    (s.modify i f).array j = s.array j := Function.update_of_ne other ..

@[simp] theorem modify_cmds (f : RwnxCmd → RwnxCmd) : (s.modify i f).cmds = s.cmds := rfl

theorem modify_local (f : RwnxCmd → RwnxCmd) : Local i s (s.modify i f) :=
  ⟨fun _ other => s.modify_other i f other, fun _ _ => id⟩

theorem cmdComplete_local : Local i s (s.cmdComplete i) := s.modify_local i _

/-- `cmd_complete` of a blocking command. -/
theorem cmdComplete_self (blocking : (s.array i).flags.nonblock = false) :
    (s.cmdComplete i).array i =
      { s.array i with
        flags := { (s.array i).flags with done := true }
        result := if (s.array i).flags.waitComplete then 0 else (s.array i).result
        complete := (s.array i).complete + if (s.array i).flags.waitComplete then 1 else 0 } := by
  simp only [cmdComplete, modify_self, blocking, Bool.false_eq_true, if_false,
    CmdFlags.waitComplete]
  split
  · rename_i ends
    simp only [ends, if_true]
  · rename_i ends
    simp only [ends, if_false, Nat.add_zero, Bool.false_eq_true]

theorem linkCmd_of_notMem {i : Slot} (new : i ∉ s.cmds) (waitPush : Bool) :
    (s.linkCmd i waitPush).cmds = s.cmds ++ [i] ∧
      (s.linkCmd i waitPush).array = Function.update s.array i
        { s.array i with
          tkn := s.nextTkn, result := -eintr
          complete := if (s.array i).flags.nonblock then (s.array i).complete else 0
          flags := { (s.array i).flags with
            waitPush := (s.array i).flags.waitPush || waitPush
            waitCfm := (s.array i).flags.waitCfm || (s.array i).flags.reqCfm } } := by
  unfold linkCmd
  rw [if_neg new]
  exact ⟨rfl, rfl⟩

theorem linkCmd_local (waitPush : Bool) : Local i s (s.linkCmd i waitPush) := by
  unfold linkCmd
  split
  · exact ⟨fun _ _ => rfl, fun _ _ => id⟩
  · refine ⟨fun j other => Function.update_of_ne other _ _, fun j other member => ?_⟩
    simpa [other] using member

theorem unlinkCmd_local : Local i s (s.unlinkCmd i) := by
  unfold unlinkCmd
  split
  · exact ⟨fun _ _ => rfl, fun _ _ => List.mem_of_mem_erase⟩
  · exact ⟨fun _ _ => rfl, fun _ _ => id⟩

@[simp] theorem unlinkCmd_array : (s.unlinkCmd i).array = s.array := by
  unfold unlinkCmd
  split <;> rfl

@[simp] theorem report_array (ret : Int) (deferred : Bool) :
    (s.report i ret deferred).array = s.array := by
  unfold report
  split <;> rfl

@[simp] theorem report_cmds (ret : Int) (deferred : Bool) :
    (s.report i ret deferred).cmds = s.cmds := by
  unfold report
  split <;> rfl

theorem report_local (ret : Int) (deferred : Bool) : Local i s (s.report i ret deferred) :=
  ⟨fun _ _ => by rw [report_array], fun _ _ member => by rwa [report_cmds] at member⟩

@[simp] theorem aicwfSetCmdTx_array (msg : LmacMsg) : (s.aicwfSetCmdTx msg).array = s.array := by
  unfold aicwfSetCmdTx
  split <;> rfl

@[simp] theorem aicwfSetCmdTx_cmds (msg : LmacMsg) : (s.aicwfSetCmdTx msg).cmds = s.cmds := by
  unfold aicwfSetCmdTx
  split <;> rfl

@[simp] theorem pushCmd_array : (s.pushCmd i).array = s.array := aicwfSetCmdTx_array ..

@[simp] theorem pushCmd_cmds : (s.pushCmd i).cmds = s.cmds := aicwfSetCmdTx_cmds ..

theorem pushCmd_local : Local i s (s.pushCmd i) :=
  ⟨fun _ _ => by rw [pushCmd_array], fun _ _ member => by rwa [pushCmd_cmds] at member⟩

/-- The timeout branch completes a command that is not done, and leaves a done one. -/
theorem timeoutCmd_self (blocking : (s.array i).flags.nonblock = false) :
    (s.timeoutCmd i).cmds = s.cmds ∧
      ∃ result complete, (s.timeoutCmd i).array i =
        { s.array i with flags := { (s.array i).flags with done := true }, result, complete } := by
  simp only [timeoutCmd]
  split
  · rename_i done
    refine ⟨rfl, (s.array i).result, (s.array i).complete, ?_⟩
    have same : { (s.array i).flags with done := true } = (s.array i).flags := by
      rw [← show (s.array i).flags.done = true from done]
    rw [same]
  · refine ⟨rfl, ?_⟩
    rw [cmdComplete_self]
    · simp only [modify_self]
      exact ⟨_, _, rfl⟩
    · simpa using blocking

theorem timeoutCmd_local : Local i s (s.timeoutCmd i) := by
  simp only [timeoutCmd]
  split
  · exact ⟨fun _ _ => rfl, fun _ _ => id⟩
  · have first : Local i s { s with state := .crashed } := ⟨fun _ _ => rfl, fun _ _ => id⟩
    exact (first.trans (modify_local _ i _)).trans (cmdComplete_local _ i)

/-- A confirmation clears `WAIT_CFM` of its command and completes it. -/
theorem confirmCmd_self (blocking : (s.array i).flags.nonblock = false)
    (noAck : (s.array i).flags.waitAck = false) :
    (s.confirmCmd i).cmds = s.cmds ∧ (s.confirmCmd i).array = Function.update s.array i
      { s.array i with
        flags := { (s.array i).flags with waitCfm := false, done := true }
        result := 0
        complete := (s.array i).complete + 1 } := by
  simp only [confirmCmd, modify_self, CmdFlags.waitComplete, noAck, Bool.or_self, Bool.not_false,
    if_true]
  refine ⟨rfl, funext fun j => ?_⟩
  by_cases here : j = i
  · subst here
    rw [cmdComplete_self, Function.update_self]
    · simp [modify, CmdFlags.waitComplete, noAck]
    · simpa [modify] using blocking
  · rw [(cmdComplete_local _ i).array j here, Function.update_of_ne here]
    exact Function.update_of_ne here _ _

theorem freeSlot_unused {s : CmdMgr} {i : Slot} (found : s.freeSlot = some i) :
    (s.array i).used = false := by
  simpa using List.find?_some found

end CmdMgr

end Aic8800.Cmd
