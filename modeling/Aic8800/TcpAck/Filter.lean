import Mathlib.Data.List.FinRange
import Mathlib.Logic.Function.Basic
import Aic8800.TcpAck.Frame
import Aic8800.Lib.Run

/-! # The ACK filter

`tcp_ack_manage` follows up to 32 flows. A slot remembers the newest number of its
flow and may hold one acknowledgement back until a newer one replaces it or its
timer expires. The sections that work on one slot under its `seqlock` come first,
then the functions, then the steps of the filter.
-/

namespace Aic8800.TcpAck

/-- An index into `ack_info`, of `TCP_ACK_NUM` slots. -/
abbrev Index := Fin 32

/-- The first slot. -/
def Index.first : Index := ⟨0, by decide⟩

def tcpAckDropCnt : Nat := 10

/-- `MAX_TCP_ACK`: longer frames do not reach the filter. -/
def maxTcpAck : Nat := 200

/-- `MIN_WIN`, in units of `SIZE_KB`. -/
def minWin : Nat := 256

def sizeKb : Nat := 1024

/-- A `msg_buf`: its address, and of its `skb` the length and what lies at `data`.
    Addresses are used again, and no function reads the `serial` number. -/
structure MsgBuf where
  ptr : Nat
  len : Nat
  data : List UInt8
  serial : Nat
  deriving Repr, DecidableEq

/-- A slot. Of the timer the code asks whether it is pending. No function reads
    `recorded`, the message that `ackMsg.seq` was taken from. -/
structure TcpAckInfo where
  busy : Bool
  dropCnt : Nat
  pshFlag : Bool
  pshSeq : BitVec 32
  winScale : Nat
  lastTime : BitVec 64
  timeout : BitVec 64
  timer : Bool
  msgbuf : Option MsgBuf
  inSendMsg : Option Nat
  ackMsg : TcpAckMsg
  recorded : Option MsgBuf
  deriving DecidableEq

/-- `free_index` is -1 where there is none here. The lists are logs: the messages
    given to the transmit path, those freed, and those that `filter_send_tcp_ack`
    did not let through, with the class its handler was told. -/
structure TcpAckManage where
  enable : Bool
  maxNum : Int
  freeIndex : Option Index
  lastTime : BitVec 64
  timeout : BitVec 64
  maxDropCnt : Nat
  ackInfo : Index → TcpAckInfo
  ackWinsize : Nat
  passed : List MsgBuf
  freed : List MsgBuf
  withheld : List (MsgBuf × Nat)

/-- `time_after` -/
def timeAfter (a b : BitVec 64) : Bool := (b - a).slt 0

/-- The state `tcp_ack_init` leaves at the time `jiffies`, where `timeout` is
    `msecs_to_jiffies(ACK_OLD_TIME)`. -/
def tcpAckInit (jiffies timeout : BitVec 64) : TcpAckManage :=
  { enable := true, maxNum := 0, freeIndex := some 0, lastTime := jiffies, timeout
    maxDropCnt := tcpAckDropCnt
    ackInfo := fun _ =>
      { busy := false, dropCnt := 0, pshFlag := false, pshSeq := 0, winScale := 0
        lastTime := jiffies, timeout, timer := false, msgbuf := none, inSendMsg := none
        ackMsg := ⟨0, 0, 0, 0, 0, 0⟩, recorded := none }
    ackWinsize := minWin, passed := [], freed := [], withheld := [] }

namespace TcpAckInfo

/-- The test that `tcp_ack_match` makes on a slot. -/
def follows (info : TcpAckInfo) (ack : TcpAckMsg) : Bool :=
  info.busy && info.ackMsg.dest == ack.dest && info.ackMsg.source == ack.source &&
    info.ackMsg.saddr == ack.saddr && info.ackMsg.daddr == ack.daddr

/-- The test that `tcp_ack_update` makes on a slot. -/
def old (info : TcpAckInfo) (jiffies : BitVec 64) : Bool :=
  info.busy && timeAfter jiffies (info.lastTime + info.timeout)

/-- `tcp_ack_handle_new` on a slot: the slot, the message freed, and whether the
    new message is kept from the caller. -/
def tcpAckHandleNew (info : TcpAckInfo) (msg : MsgBuf) (ack : TcpAckMsg) (maxDropCnt : Nat)
    (jiffies : BitVec 64) : TcpAckInfo × Option MsgBuf × Bool :=
  let info := { info with lastTime := jiffies }
  if u32Before info.ackMsg.seq ack.seq then
    let dropMsg := info.msgbuf
    let quickAck := info.pshFlag && !u32Before ack.seq info.pshSeq
    let info :=
      { info with
        msgbuf := none
        pshFlag := info.pshFlag && !quickAck
        dropCnt := if quickAck then info.dropCnt else info.dropCnt + 1
        ackMsg := { info.ackMsg with seq := ack.seq }
        recorded := some msg }
    if quickAck || (info.inSendMsg.isNone && decide (maxDropCnt ≤ info.dropCnt)) then
      ({ info with dropCnt := 0, inSendMsg := some msg.ptr, timer := false }, dropMsg, false)
    else ({ info with msgbuf := some msg, timer := true }, dropMsg, true)
  else (info, some msg, true)

/-- A slot taken for a new flow. What it held is left in it. -/
def assign (info : TcpAckInfo) (msg : MsgBuf) (ack : TcpAckMsg) (winScale maxDropCnt : Nat)
    (jiffies : BitVec 64) : TcpAckInfo :=
  { info with
    busy := true, pshFlag := false, lastTime := jiffies, dropCnt := maxDropCnt
    winScale := if winScale ≠ 0 then winScale else 1
    ackMsg := { ack with win := info.ackMsg.win }
    recorded := some msg }

/-- `tcp_ack_timeout`, which the expired timer runs, and the message it sends. -/
def tcpAckTimeout (info : TcpAckInfo) : TcpAckInfo × Option MsgBuf :=
  let info := { info with timer := false }
  match info.msgbuf with
  | some msg =>
      if info.busy && info.inSendMsg.isNone then
        ({ info with msgbuf := none, dropCnt := 0, inSendMsg := some msg.ptr }, some msg)
      else (info, none)
  | none => (info, none)

end TcpAckInfo

namespace TcpAckManage

def setInfo (s : TcpAckManage) (i : Index) (info : TcpAckInfo) : TcpAckManage :=
  { s with ackInfo := Function.update s.ackInfo i info }

/-- The loop runs from the last slot to the first, so the first of the slots that
    are old becomes `free_index`. -/
def tcpAckUpdate (s : TcpAckManage) (jiffies : BitVec 64) : TcpAckManage :=
  if timeAfter jiffies (s.lastTime + s.timeout) then
    let old := fun i => (s.ackInfo i).old jiffies
    { s with
      lastTime := jiffies
      freeIndex := ((List.finRange 32).find? old).or s.freeIndex
      maxNum := s.maxNum - (List.finRange 32).countP old
      ackInfo := fun i => if old i then { s.ackInfo i with busy := false } else s.ackInfo i }
  else s

def tcpAckMatch (s : TcpAckManage) (ack : TcpAckMsg) : Option Index :=
  (List.finRange 32).find? fun i => (s.ackInfo i).follows ack

def tcpAckAllocIndex (s : TcpAckManage) : TcpAckManage × Option Index :=
  if s.maxNum = 32 then (s, none)
  else
    match s.freeIndex with
    | some i => ({ s with freeIndex := none, maxNum := s.maxNum + 1 }, some i)
    | none =>
        match (List.finRange 32).find? fun i => !(s.ackInfo i).busy with
        | some i => ({ s with maxNum := s.maxNum + 1 }, some i)
        | none => (s, none)

/-- The class that the handler is told: a segment that announces a window scale
    for a small window counts as one with more information. -/
def handlerType (s : TcpAckManage) (info : TcpAckInfo) (ack : TcpAckMsg) (drop winScale : Nat) :
    Nat :=
  if winScale ≠ 0 ∧ info.winScale * ack.win < s.ackWinsize * sizeKb then 2 else drop

/-- The slot as the handler finds it: a new window scale has been stored. -/
def rescaled (s : TcpAckManage) (i : Index) (winScale : Nat) : TcpAckInfo :=
  if winScale ≠ 0 then { s.ackInfo i with winScale } else s.ackInfo i

/-- The part for a flow that has a slot. -/
def sendMatched (s : TcpAckManage) (i : Index) (msg : MsgBuf) (ack : TcpAckMsg)
    (drop winScale : Nat) (jiffies : BitVec 64) : TcpAckManage × Bool :=
  let info := s.rescaled i winScale
  if 0 < drop && s.enable then
    let (next, dropMsg, kept) := info.tcpAckHandleNew msg ack s.maxDropCnt jiffies
    let type := s.handlerType info ack drop winScale
    ({ s.setInfo i next with
        freed := s.freed ++ dropMsg.toList
        withheld := if kept then s.withheld ++ [(msg, type)] else s.withheld }, kept)
  else (s.setInfo i info, false)

/-- The part for a flow that has none. -/
def sendUnmatched (s : TcpAckManage) (msg : MsgBuf) (ack : TcpAckMsg) (winScale : Nat)
    (jiffies : BitVec 64) : TcpAckManage :=
  match s.tcpAckAllocIndex with
  | (s, some i) => s.setInfo i ((s.ackInfo i).assign msg ack winScale s.maxDropCnt jiffies)
  | (s, none) => s

/-- Whether the filter keeps the message; the caller transmits it if not. -/
def filterSendTcpAck (s : TcpAckManage) (msg : MsgBuf) (jiffies : BitVec 64) :
    Option (TcpAckManage × Bool) :=
  let s := s.tcpAckUpdate jiffies
  (tcpCheckAck msg.data).bind fun check =>
    if check.drop = 0 ∧ check.winScale = 0 then some (s, false)
    else
      check.msg.map fun ack =>
        match s.tcpAckMatch ack with
        | some i => s.sendMatched i msg ack check.drop check.winScale jiffies
        | none => (s.sendUnmatched msg ack check.winScale jiffies, false)

def filterRxTcpAck (s : TcpAckManage) (buf : List UInt8) (plen : Nat) : Option TcpAckManage :=
  if !s.enable || decide (maxTcpAck < plen) then some s
  else
    (tcpCheckQuickAck buf).map fun
      | none => s
      | some ack =>
          match s.tcpAckMatch ack with
          | some i => s.setInfo i { s.ackInfo i with pshFlag := true, pshSeq := ack.seq }
          | none => s

def moveTcpackMsg (s : TcpAckManage) (ptr : Nat) : TcpAckManage :=
  if s.enable then
    { s with
      ackInfo := fun i =>
        let info := s.ackInfo i
        if info.busy && info.inSendMsg == some ptr then { info with inSendMsg := none } else info }
  else s

end TcpAckManage

/-- The transmit path takes the message. -/
def TcpAckManage.pass (s : TcpAckManage) (msg : MsgBuf) : TcpAckManage :=
  { s with passed := s.passed ++ [msg] }

/-- A frame comes to `rwnx_start_xmit`, a timer expires, the transmit path has
    taken over a message, or a frame is received. -/
inductive Event where
  | send (msg : MsgBuf) (jiffies : BitVec 64)
  | timeout (i : Index)
  | move (ptr : Nat)
  | rx (buf : List UInt8) (plen : Nat)

namespace TcpAckManage

/-- One operation, of which the sections come one after the other; a call that others
    cut in on is told by its points. There is no next state after a fault, nor for a
    timer that is not pending. -/
def step (s : TcpAckManage) : Event → Option TcpAckManage
  | .send msg jiffies =>
      if msg.len ≤ maxTcpAck then
        (s.filterSendTcpAck msg jiffies).map fun (s, kept) =>
          if kept then s else s.pass msg
      else some (s.pass msg)
  | .timeout i =>
      if (s.ackInfo i).timer then
        match (s.ackInfo i).tcpAckTimeout with
        | (info, some msg) => some ((s.setInfo i info).pass msg)
        | (info, none) => some (s.setInfo i info)
      else none
  | .move ptr => some (s.moveTcpackMsg ptr)
  | .rx buf plen => s.filterRxTcpAck buf plen

end TcpAckManage

/-! ## What an operation can do -/

namespace TcpAckInfo

/-- A `PSH` was received that the acknowledgement answers. -/
def quickAck (info : TcpAckInfo) (ack : TcpAckMsg) : Bool :=
  info.pshFlag && !u32Before ack.seq info.pshSeq

/-- The handler lets the acknowledgement through. -/
def goesOut (info : TcpAckInfo) (ack : TcpAckMsg) (maxDropCnt : Nat) : Bool :=
  u32Before info.ackMsg.seq ack.seq &&
    (info.quickAck ack || (info.inSendMsg.isNone && decide (maxDropCnt ≤ info.dropCnt + 1)))

/-- What the handler makes of a slot, the message it frees, and whether it keeps
    the new one. -/
inductive Handles (info : TcpAckInfo) (msg : MsgBuf) (ack : TcpAckMsg) (maxDropCnt : Nat) :
    TcpAckInfo → Option MsgBuf → Bool → Prop where
  | late (lastTime : BitVec 64) : u32Before info.ackMsg.seq ack.seq = false →
      Handles info msg ack maxDropCnt { info with lastTime } (some msg) true
  | out {next : TcpAckInfo} : info.goesOut ack maxDropCnt = true →
      u32Before info.ackMsg.seq ack.seq = true → next.busy = info.busy →
      next.ackMsg = { info.ackMsg with seq := ack.seq } → next.recorded = some msg →
      next.msgbuf = none → Handles info msg ack maxDropCnt next info.msgbuf false
  | held {next : TcpAckInfo} : info.goesOut ack maxDropCnt = false →
      u32Before info.ackMsg.seq ack.seq = true → next.busy = info.busy →
      next.ackMsg = { info.ackMsg with seq := ack.seq } → next.recorded = some msg →
      next.msgbuf = some msg → next.timer = true →
      Handles info msg ack maxDropCnt next info.msgbuf true

theorem handleNew_handles (info : TcpAckInfo) (msg : MsgBuf) (ack : TcpAckMsg) (maxDropCnt : Nat)
    (jiffies : BitVec 64) :
    Handles info msg ack maxDropCnt (info.tcpAckHandleNew msg ack maxDropCnt jiffies).1
      (info.tcpAckHandleNew msg ack maxDropCnt jiffies).2.1
      (info.tcpAckHandleNew msg ack maxDropCnt jiffies).2.2 := by
  simp only [tcpAckHandleNew]
  cases newer : u32Before info.ackMsg.seq ack.seq with
  | false => exact .late jiffies newer
  | true =>
      simp only [if_true]
      cases quick : info.quickAck ack with
      | true =>
          have answers : (info.pshFlag && !u32Before ack.seq info.pshSeq) = true := quick
          simp only [answers, Bool.true_or, if_true]
          exact .out (by simp [goesOut, newer, quick]) newer rfl rfl rfl rfl
      | false =>
          have waits : (info.pshFlag && !u32Before ack.seq info.pshSeq) = false := quick
          simp only [waits, Bool.false_or, Bool.false_eq_true, if_false]
          split
          · rename_i due
            exact .out (by simpa [goesOut, newer, quick] using due) newer rfl rfl rfl rfl
          · rename_i early
            exact .held (by simpa [goesOut, newer, quick] using early) newer rfl rfl rfl rfl rfl

/-- The handler of the timer sends what the slot holds, or does nothing. -/
theorem tcpAckTimeout_cases (info : TcpAckInfo) :
    (∃ msg, info.msgbuf = some msg ∧ info.busy = true ∧ info.inSendMsg = none ∧
      info.tcpAckTimeout =
        ({ info with timer := false, msgbuf := none, dropCnt := 0, inSendMsg := some msg.ptr },
          some msg)) ∨
      ((info.msgbuf = none ∨ info.busy = false ∨ info.inSendMsg ≠ none) ∧
        info.tcpAckTimeout = ({ info with timer := false }, none)) := by
  simp only [tcpAckTimeout]
  split
  · rename_i msg held
    split
    · rename_i sends
      simp only [Bool.and_eq_true, Option.isNone_iff_eq_none] at sends
      exact .inl ⟨msg, held, sends.1, sends.2, rfl⟩
    · rename_i keeps
      refine .inr ⟨.inr ?_, rfl⟩
      cases busy : info.busy with
      | false => exact .inl rfl
      | true => exact .inr fun none => keeps (by simp [busy, none])
  · rename_i held
    exact .inr ⟨.inl held, rfl⟩

/-- What a slot holds and for whom. -/
def core (info : TcpAckInfo) : Bool × Bool × Option MsgBuf × TcpAckMsg × Option MsgBuf :=
  (info.busy, info.timer, info.msgbuf, info.ackMsg, info.recorded)

end TcpAckInfo

/-- A change that neither moves a message nor gives a slot to a flow. -/
structure Quiet (s s' : TcpAckManage) : Prop where
  core : ∀ i, (s'.ackInfo i).core = (s.ackInfo i).core
  freeIndex : s'.freeIndex = s.freeIndex
  passed : s'.passed = s.passed
  freed : s'.freed = s.freed
  withheld : s'.withheld = s.withheld

theorem Quiet.refl (s : TcpAckManage) : Quiet s s := ⟨fun _ => rfl, rfl, rfl, rfl, rfl⟩

@[simp] theorem TcpAckManage.setInfo_self (s : TcpAckManage) (i : Index) (info : TcpAckInfo) :
    (s.setInfo i info).ackInfo i = info := Function.update_self ..

theorem TcpAckManage.setInfo_other (s : TcpAckManage) {i j : Index} (info : TcpAckInfo)
    (other : j ≠ i) : (s.setInfo i info).ackInfo j = s.ackInfo j :=
  Function.update_of_ne other ..

theorem TcpAckManage.setInfo_forall (s : TcpAckManage) {i : Index} {info : TcpAckInfo}
    {P : Index → TcpAckInfo → Prop} (others : ∀ j, P j (s.ackInfo j)) (here : P i info)
    (j : Index) : P j ((s.setInfo i info).ackInfo j) := by
  by_cases same : j = i
  · subst same
    rwa [s.setInfo_self]
  · rw [s.setInfo_other info same]
    exact others j

theorem Quiet.setInfo (s : TcpAckManage) (i : Index) (info : TcpAckInfo)
    (same : info.core = (s.ackInfo i).core) : Quiet s (s.setInfo i info) :=
  ⟨s.setInfo_forall (P := fun j info => info.core = (s.ackInfo j).core) (fun _ => rfl) same,
    rfl, rfl, rfl, rfl⟩

namespace TcpAckManage

theorem rescaled_core (s : TcpAckManage) (i : Index) (winScale : Nat) :
    (s.rescaled i winScale).core = (s.ackInfo i).core := by
  unfold rescaled
  split <;> rfl

theorem rescaled_goesOut (s : TcpAckManage) (i : Index) (winScale : Nat) (ack : TcpAckMsg)
    (maxDropCnt : Nat) :
    (s.rescaled i winScale).goesOut ack maxDropCnt = (s.ackInfo i).goesOut ack maxDropCnt := by
  unfold rescaled
  split <;> rfl

/-- What the filter, past its ageing, can do with a frame, transmission included. -/
inductive Sends (s : TcpAckManage) (msg : MsgBuf) (jiffies : BitVec 64) : TcpAckManage → Prop where
  | through {t : TcpAckManage} : Quiet s t →
      (∀ check ack i, tcpCheckAck msg.data = some check → check.msg = some ack →
        s.tcpAckMatch ack = some i → s.enable = false) → Sends s msg jiffies (t.pass msg)
  | handled {check : AckCheck} {ack : TcpAckMsg} {i : Index} {next : TcpAckInfo}
      {dropMsg : Option MsgBuf} {kept : Bool} : tcpCheckAck msg.data = some check →
      check.msg = some ack → s.tcpAckMatch ack = some i → s.enable = true →
      (s.rescaled i check.winScale).Handles msg ack s.maxDropCnt next dropMsg kept →
      Sends s msg jiffies
        (let type := s.handlerType (s.rescaled i check.winScale) ack check.drop check.winScale
        let t :=
          { s.setInfo i next with
            freed := s.freed ++ dropMsg.toList
            withheld := if kept then s.withheld ++ [(msg, type)] else s.withheld }
        if kept then t else t.pass msg)
  | assigned {check : AckCheck} {ack : TcpAckMsg} {i : Index} {t : TcpAckManage} :
      tcpCheckAck msg.data = some check → check.msg = some ack →
      s.tcpAckMatch ack = none → s.tcpAckAllocIndex = (t, some i) →
      Sends s msg jiffies ((t.setInfo i
        ((t.ackInfo i).assign msg ack check.winScale t.maxDropCnt jiffies)).pass msg)

theorem alloc_none {s t : TcpAckManage} (alloc : s.tcpAckAllocIndex = (t, none)) : t = s := by
  unfold tcpAckAllocIndex at alloc
  split at alloc
  · exact (Prod.mk.inj alloc).1.symm
  · split at alloc
    · cases (Prod.mk.inj alloc).2
    · split at alloc
      · cases (Prod.mk.inj alloc).2
      · exact (Prod.mk.inj alloc).1.symm

/-- A slot is taken from `free_index` or because it is not busy. -/
theorem alloc_some {s t : TcpAckManage} {i : Index} (alloc : s.tcpAckAllocIndex = (t, some i)) :
    (s.freeIndex = some i ∨ (s.ackInfo i).busy = false) ∧
      ∃ maxNum, t = { s with freeIndex := none, maxNum } := by
  unfold tcpAckAllocIndex at alloc
  split at alloc
  · cases (Prod.mk.inj alloc).2
  · split at alloc
    · rename_i j free
      obtain ⟨rfl, same⟩ := Prod.mk.inj alloc
      obtain rfl := Option.some.inj same
      exact ⟨.inl free, _, rfl⟩
    · rename_i none
      split at alloc
      · rename_i j found
        obtain ⟨rfl, same⟩ := Prod.mk.inj alloc
        obtain rfl := Option.some.inj same
        exact ⟨.inr (by simpa using List.find?_some found), _, by rw [← none]⟩
      · cases (Prod.mk.inj alloc).2

theorem filterSend_sends {s t : TcpAckManage} {msg : MsgBuf} {jiffies : BitVec 64} {kept : Bool}
    (went : s.filterSendTcpAck msg jiffies = some (t, kept)) :
    (s.tcpAckUpdate jiffies).Sends msg jiffies (if kept then t else t.pass msg) := by
  simp only [filterSendTcpAck] at went
  obtain ⟨check, checked, rest⟩ := Option.bind_eq_some_iff.mp went
  have only : ∀ other, tcpCheckAck msg.data = some other → other = check := fun other same =>
    (Option.some.inj (checked.symm.trans same)).symm
  split at rest
  · rename_i zero
    obtain ⟨rfl, rfl⟩ := Prod.mk.inj (Option.some.inj rest)
    refine .through (.refl _) fun other ack i same filled => ?_
    obtain rfl := only other same
    have drops := (tcpCheckAck_spec checked).1.mp (by simp [filled])
    omega
  · obtain ⟨ack, filled, result⟩ := Option.map_eq_some_iff.mp rest
    have drops := (tcpCheckAck_spec checked).1.mp (by simp [filled])
    split at result
    · rename_i i found
      simp only [sendMatched, drops, decide_true, Bool.true_and] at result
      split at result
      · rename_i enabled
        obtain ⟨rfl, rfl⟩ := Prod.mk.inj result
        exact .handled checked filled found enabled (TcpAckInfo.handleNew_handles ..)
      · rename_i disabled
        obtain ⟨rfl, rfl⟩ := Prod.mk.inj result
        exact .through (.setInfo _ i _ (rescaled_core _ i _)) fun _ _ _ _ _ _ => by
          simpa using disabled
    · rename_i unmatched
      obtain ⟨rfl, rfl⟩ := Prod.mk.inj result
      simp only [sendUnmatched]
      cases alloc : (s.tcpAckUpdate jiffies).tcpAckAllocIndex with
      | mk u index =>
          cases index with
          | some i => exact .assigned checked filled unmatched alloc
          | none =>
              obtain rfl := alloc_none alloc
              refine .through (.refl _) fun other ack' i same filled' found => ?_
              obtain rfl := only other same
              obtain rfl := Option.some.inj (filled.symm.trans filled')
              cases unmatched.symm.trans found

/-- A slot that ages is only marked. -/
theorem update_info (s : TcpAckManage) (jiffies : BitVec 64) (i : Index) :
    (s.tcpAckUpdate jiffies).ackInfo i =
      if timeAfter jiffies (s.lastTime + s.timeout) && (s.ackInfo i).old jiffies then
        { s.ackInfo i with busy := false }
      else s.ackInfo i := by
  unfold tcpAckUpdate
  split
  · rename_i due
    simp only [due, Bool.true_and]
  · rename_i early
    simp [early]

theorem update_logs (s : TcpAckManage) (jiffies : BitVec 64) :
    (s.tcpAckUpdate jiffies).passed = s.passed ∧ (s.tcpAckUpdate jiffies).freed = s.freed ∧
      (s.tcpAckUpdate jiffies).withheld = s.withheld := by
  unfold tcpAckUpdate
  split <;> exact ⟨rfl, rfl, rfl⟩

/-- What one operation can do. -/
inductive Steps (s : TcpAckManage) : Event → TcpAckManage → Prop where
  | long {msg : MsgBuf} {jiffies : BitVec 64} : maxTcpAck < msg.len →
      Steps s (.send msg jiffies) (s.pass msg)
  | send {msg : MsgBuf} {jiffies : BitVec 64} {t : TcpAckManage} : msg.len ≤ maxTcpAck →
      (s.tcpAckUpdate jiffies).Sends msg jiffies t → Steps s (.send msg jiffies) t
  | expires {i : Index} {msg : MsgBuf} {next : TcpAckInfo} : (s.ackInfo i).timer = true →
      (s.ackInfo i).msgbuf = some msg → (s.ackInfo i).busy = true →
      (s.ackInfo i).inSendMsg = none → next.busy = true → next.msgbuf = none →
      next.ackMsg = (s.ackInfo i).ackMsg → next.recorded = (s.ackInfo i).recorded →
      Steps s (.timeout i) ((s.setInfo i next).pass msg)
  | expiresIdle {i : Index} : (s.ackInfo i).timer = true →
      ((s.ackInfo i).msgbuf = none ∨ (s.ackInfo i).busy = false ∨
        (s.ackInfo i).inSendMsg ≠ none) →
      Steps s (.timeout i) (s.setInfo i { s.ackInfo i with timer := false })
  | move {ptr : Nat} {t : TcpAckManage} : Quiet s t → Steps s (.move ptr) t
  | rx {buf : List UInt8} {plen : Nat} {t : TcpAckManage} : Quiet s t → Steps s (.rx buf plen) t

theorem step_steps {s t : TcpAckManage} {e : Event} (went : s.step e = some t) : s.Steps e t := by
  cases e with
  | send msg jiffies =>
      simp only [step] at went
      split at went
      · rename_i short
        obtain ⟨⟨u, kept⟩, filtered, rfl⟩ := Option.map_eq_some_iff.mp went
        exact .send short (filterSend_sends filtered)
      · rename_i long
        obtain rfl := Option.some.inj went
        exact .long (by omega)
  | timeout i =>
      simp only [step, Option.ite_none_right_eq_some] at went
      obtain ⟨pending, went⟩ := went
      obtain ⟨msg, held, busy, unsent, result⟩ | ⟨idle, result⟩ :=
        (s.ackInfo i).tcpAckTimeout_cases
      · rw [result] at went
        obtain rfl := Option.some.inj went
        exact .expires pending held busy unsent busy rfl rfl rfl
      · rw [result] at went
        obtain rfl := Option.some.inj went
        exact .expiresIdle pending idle
  | move ptr =>
      obtain rfl := Option.some.inj went
      refine .move ?_
      unfold moveTcpackMsg
      split
      · refine ⟨fun i => ?_, rfl, rfl, rfl, rfl⟩
        simp only
        split <;> rfl
      · exact .refl s
  | rx buf plen =>
      simp only [step, filterRxTcpAck] at went
      split at went
      · obtain rfl := Option.some.inj went
        exact .rx (.refl s)
      · obtain ⟨answer, -, rfl⟩ := Option.map_eq_some_iff.mp went
        cases answer with
        | none => exact .rx (.refl s)
        | some ack =>
            simp only
            split
            · exact .rx (.setInfo s _ _ rfl)
            · exact .rx (.refl s)

end TcpAckManage

/-- A segment without options and payload, from port `port` of 0.0.0.1 to port 80 of
    0.0.0.2. -/
def sampleFrame (port ack flags : UInt8) : List UInt8 :=
  [0, 0, 0, 0, 0, 0, 0, 0, 0, 0, 0, 0, 8, 0] ++
    [0x45, 0, 0, 40, 0, 0, 0, 0, 64, 6, 0, 0, 0, 0, 0, 1, 0, 0, 0, 2] ++
    [0, port, 0, 80, 0, 0, 0, 0, 0, 0, 0, ack, 0x50, flags, 255, 255, 0, 0, 0, 0]

def sampleMsg (port ack flags : UInt8) : MsgBuf :=
  { ptr := port.toNat * 256 + ack.toNat, len := 54, data := sampleFrame port ack flags, serial := 0 }

/-- A frame with only `ACK`, sent at the time 0. -/
def sendAck (port ack : UInt8) : Event := .send (sampleMsg port ack 0x10) 0

/-- Four acknowledgements of one flow, of which the last replaces the third. -/
def replacedRun : List Event :=
  [sendAck 1 1, sendAck 1 2, .move (sampleMsg 1 2 0x10).ptr, sendAck 1 3, sendAck 1 4]

end Aic8800.TcpAck
