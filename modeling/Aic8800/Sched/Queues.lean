import Aic8800.Lib.Run
import Mathlib

/-! # TX queues and hardware queues

Every peer has a TX queue for each of its TIDs and one for management frames,
every interface one for multicast and one for unknown peers, and the device one
for off-channel frames. A TX queue that has buffers and is not stopped is linked
in the list of its hardware queue, from which `rwnx_hwq_process` takes it.

`tx_lock` makes the operations atomic, except for `rwnx_txq_init` and
`rwnx_txq_flush`, which do not take it. The loop of `rwnx_hwq_process` is one step
for each queue it takes, with the rest of its list in the state.
-/

namespace Aic8800.Sched

/-- `RWNX_HWQ_*` -/
inductive HwqId where
  | bk
  | be
  | vi
  | vo
  | bcmc
  deriving DecidableEq, Repr

/-- `nx_txdesc_cnt` -/
def HwqId.size : HwqId → Nat
  | .bk => 8
  | .be => 64
  | .vi => 64
  | .vo => 32
  | .bcmc => 8

/-- A peer, or the multicast station of an interface. -/
inductive StaId where
  | remote (staIdx : Nat)
  | multicast (vifIdx : Nat)
  deriving DecidableEq, Repr

/-- A position in `rwnx_hw->txq`. TID 8 is the queue for management frames. -/
inductive TxqId where
  | sta (staIdx : Nat) (tid : Fin 9)
  | bcmc (vifIdx : Nat)
  | unk (vifIdx : Nat)
  | offChan
  deriving DecidableEq, Repr

/-- `LEGACY_PS_ID` and `UAPSD_ID` -/
inductive PsId where
  | legacy
  | uapsd
  deriving DecidableEq, Repr

/-- `rwnx_tid2hwq` -/
def tid2hwq (tid : Fin 9) : HwqId :=
  match tid.val with
  | 0 | 3 => .be
  | 1 | 2 => .bk
  | 4 | 5 => .vi
  | _ => .vo

/-- `nx_tid_prio` -/
def nxTidPrio : List (Fin 9) :=
  [⟨7, by decide⟩, ⟨6, by decide⟩, ⟨5, by decide⟩, ⟨4, by decide⟩, ⟨3, by decide⟩,
    ⟨0, by decide⟩, ⟨2, by decide⟩, ⟨1, by decide⟩]

namespace TxqId

/-- The hardware queue that the queue is initialised with. -/
def hwq : TxqId → HwqId
  | .sta _ tid => tid2hwq tid
  | .bcmc _ => .be
  | .unk _ | .offChan => .vo

/-- The station that the queue is initialised with. -/
def station : TxqId → Option StaId
  | .sta staIdx _ => some (.remote staIdx)
  | .bcmc vifIdx => some (.multicast vifIdx)
  | .unk _ | .offChan => none

/-- Whether the queue has an `ndev_idx`. -/
def hasNdev : TxqId → Bool
  | .sta _ tid => tid.val < 8
  | .bcmc _ => true
  | .unk _ | .offChan => false

end TxqId

/-- `foreach_sta_txq` -/
def StaId.txqs : StaId → List TxqId
  | .remote staIdx => (List.finRange 9).map (.sta staIdx)
  | .multicast vifIdx => [.bcmc vifIdx]

theorem StaId.mem_txqs {st : StaId} {q : TxqId} : q ∈ st.txqs ↔ q.station = some st := by
  cases st <;> cases q <;> simp [StaId.txqs, TxqId.station, eq_comm]

theorem StaId.nodup_txqs (st : StaId) : st.txqs.Nodup := by
  cases st with
  | remote staIdx =>
      exact (List.nodup_finRange 9).map (fun _ _ same => (TxqId.sta.inj same).2)
  | multicast vifIdx => exact List.nodup_singleton _

/-! ## The status word -/

/-- `RWNX_TXQ_IN_HWQ_LIST` -/
def inHwqListBit : BitVec 8 := 0x01#8

/-- `RWNX_TXQ_STOP`. The bit for the MU position is not in it. -/
def stopMask : BitVec 8 := 0x3e#8

/-- `RWNX_TXQ_NDEV_FLOW_CTRL` -/
def ndevFlowCtrl : BitVec 8 := 0x80#8

/-- Reasons to stop a queue, and the status it is initialised with: any bits but
    `RWNX_TXQ_IN_HWQ_LIST`. -/
structure StopReason where
  bits : BitVec 8
  notListed : bits.getLsbD 0 = false

namespace StopReason

def clear : StopReason := ⟨0x00#8, by decide⟩
def full : StopReason := ⟨0x02#8, by decide⟩
def staPs : StopReason := ⟨0x08#8, by decide⟩
def chan : StopReason := ⟨0x20#8, by decide⟩

end StopReason

/-! ## The queues -/

/-- `struct rwnx_txq`. `active` is `idx != TXQ_INACTIVE`, buffers are known by
    number. `push_limit` and `pkt_sent` are `u8`. -/
structure Txq where
  active : Bool
  status : BitVec 8
  credits : Int8
  pktSent : Nat
  skList : List Nat
  lastRetrySkb : Option Nat
  nbRetry : Nat
  hwq : Option HwqId
  pushLimit : Nat
  sta : Option StaId
  psId : PsId

/-- `rwnx_skb_append`: the buffer goes right behind `old`, which is in the list. -/
def skbAppend (old skb : Nat) : List Nat → List Nat
  | [] => [skb]
  | x :: rest => if x = old then x :: skb :: rest else x :: skbAppend old skb rest

theorem length_skbAppend (old skb : Nat) (xs : List Nat) :
    (skbAppend old skb xs).length = xs.length + 1 := by
  induction xs with
  | nil => rfl
  | cons x rest ih =>
      simp only [skbAppend]
      split
      · simp
      · simp [ih]

namespace Txq

/-- A queue as the accounting of power save sees it. -/
def account (t : Txq) : Txq :=
  { t with status := 0#8, credits := .ofInt 0, pktSent := 0, lastRetrySkb := none, nbRetry := 0 }

section

variable {t u : Txq} (same : t.account = u.account)
include same

theorem active_eq_of_account : t.active = u.active :=
  have fields := congrArg active same
  fields

theorem skList_eq_of_account : t.skList = u.skList :=
  have fields := congrArg skList same
  fields

theorem hwq_eq_of_account : t.hwq = u.hwq :=
  have fields := congrArg hwq same
  fields

theorem pushLimit_eq_of_account : t.pushLimit = u.pushLimit :=
  have fields := congrArg pushLimit same
  fields

theorem sta_eq_of_account : t.sta = u.sta :=
  have fields := congrArg sta same
  fields

theorem psId_eq_of_account : t.psId = u.psId :=
  have fields := congrArg psId same
  fields

end

def inHwqList (t : Txq) : Bool := t.status.getLsbD 0

theorem inHwqList_congr {t u : Txq} (same : t.status = u.status) : t.inHwqList = u.inHwqList :=
  congrArg (·.getLsbD 0) same

def isStopped (t : Txq) : Bool := t.status &&& stopMask ≠ 0#8

def isFull (t : Txq) : Bool := t.status &&& StopReason.full.bits ≠ 0#8

/-- A queue of the zeroed table. -/
def unused : Txq where
  active := false
  status := 0#8
  credits := .ofInt 0
  pktSent := 0
  skList := []
  lastRetrySkb := none
  nbRetry := 0
  hwq := none
  pushLimit := 0
  sta := none
  psId := .legacy

/-- `rwnx_txq_init`; only a queue of a peer follows its U-APSD setting. -/
def init (q : TxqId) (status : StopReason) (uapsd : Bool) : Txq where
  active := true
  status := status.bits
  credits := .ofInt 64
  pktSent := 0
  skList := []
  lastRetrySkb := none
  nbRetry := 0
  hwq := some q.hwq
  pushLimit := 0
  sta := q.station
  psId :=
    match q with
    | .sta _ _ => if uapsd then .uapsd else .legacy
    | _ => .legacy

@[simps]
def setStatus (t : Txq) (status : BitVec 8) : Txq := { t with status := status }

@[simp] theorem inHwqList_setStatus_add (t : Txq) :
    (t.setStatus (t.status ||| inHwqListBit)).inHwqList = true := by
  simp [inHwqList, setStatus, inHwqListBit]

@[simp] theorem inHwqList_setStatus_del (t : Txq) :
    (t.setStatus (t.status &&& ~~~inHwqListBit)).inHwqList = false := by
  simp [inHwqList, setStatus, inHwqListBit]

@[simp] theorem inHwqList_setStatus_start (t : Txq) (reason : StopReason) :
    (t.setStatus (t.status &&& ~~~reason.bits)).inHwqList = t.inHwqList := by
  have clear : reason.bits[0] = false := by simpa using reason.notListed
  simp [inHwqList, setStatus, clear]

@[simp] theorem inHwqList_setStatus_stop (t : Txq) (reason : StopReason) :
    (t.setStatus (t.status ||| reason.bits)).inHwqList = t.inHwqList := by
  have clear : reason.bits[0] = false := by simpa using reason.notListed
  simp [inHwqList, setStatus, clear]

/-- The list part of `rwnx_txq_queue_skb`. A retry goes behind the last retry. -/
def enqueue (t : Txq) (skb : Nat) (retry : Bool) : Txq :=
  { t with
    skList :=
      if retry then
        match t.lastRetrySkb with
        | some last => skbAppend last skb t.skList
        | none => skb :: t.skList
      else t.skList ++ [skb]
    lastRetrySkb := if retry then some skb else t.lastRetrySkb
    nbRetry := if retry then t.nbRetry + 1 else t.nbRetry }

/-- The net device queue is stopped above 64 buffers. -/
def flowCtrlStop (t : Txq) (q : TxqId) (tbusy : Bool) : Txq :=
  t.setStatus
    (if q.hasNdev && !tbusy && 64 < t.skList.length then t.status ||| ndevFlowCtrl else t.status)

/-- What `rwnx_txq_queue_skb` does to the queue, but for linking it. -/
def queued (t : Txq) (q : TxqId) (skb : Nat) (retry tbusy : Bool) : Txq :=
  (t.enqueue skb retry).flowCtrlStop q tbusy

theorem queued_inHwqList (t : Txq) (q : TxqId) (skb : Nat) (retry tbusy : Bool) :
    (t.queued q skb retry tbusy).inHwqList = t.inHwqList := by
  unfold queued flowCtrlStop
  split <;> simp [inHwqList, enqueue, ndevFlowCtrl]

theorem length_queued (t : Txq) (q : TxqId) (skb : Nat) (retry tbusy : Bool) :
    (t.queued q skb retry tbusy).skList.length = t.skList.length + 1 := by
  simp only [queued, flowCtrlStop, enqueue, setStatus_skList]
  split
  · cases t.lastRetrySkb with
    | none => simp
    | some last => exact length_skbAppend last skb t.skList
  · simp

theorem queued_ne_nil (t : Txq) (q : TxqId) (skb : Nat) (retry tbusy : Bool) :
    (t.queued q skb retry tbusy).skList ≠ [] := by
  rw [← List.length_pos_iff, length_queued]
  exact Nat.succ_pos _

/-- The net device queue is restarted below 64 buffers. -/
def flowCtrlRestart (t : Txq) : Txq :=
  t.setStatus
    (if t.status &&& ndevFlowCtrl ≠ 0#8 ∧ t.skList.length < 64 then t.status &&& ~~~ndevFlowCtrl
      else t.status)

/-- `rwnx_txq_get_credits` -/
def getCredits (t : Txq) : Int :=
  if t.pushLimit ≠ 0 ∧ (t.pushLimit : Int) < t.credits.toInt then t.pushLimit else t.credits.toInt

/-- `rwnx_txq_get_skb_to_push`: how many buffers, and whether the queue is done
    with them. -/
def getSkbToPush (t : Txq) : Nat × Bool :=
  if (t.skList.length : Int) ≤ t.getCredits then (t.skList.length, true)
  else (t.getCredits.toNat, decide (t.pushLimit ≠ 0 ∧ t.getCredits = t.pushLimit))

/-- A queue that is not done with has buffers left. -/
theorem length_getSkbToPush (t : Txq) (credits : 0 < t.credits.toInt) :
    t.getSkbToPush.1 ≤ t.skList.length ∧
      (t.getSkbToPush.2 = false → t.getSkbToPush.1 < t.skList.length) := by
  have positive : 0 ≤ t.getCredits := by
    unfold getCredits
    split <;> omega
  unfold getSkbToPush
  split
  · simp
  · dsimp only
    omega

/-- A service period is not exceeded. -/
theorem getSkbToPush_le {t : Txq} (limited : t.pushLimit ≠ 0) :
    t.getSkbToPush.1 ≤ t.pushLimit := by
  have bound : t.getCredits ≤ t.pushLimit := by
    unfold getCredits
    split <;> omega
  unfold getSkbToPush
  split
  · dsimp only
    omega
  · dsimp only
    omega

def extract (t : Txq) (n : Nat) : Txq := { t with skList := t.skList.drop n }

/-- The queue's own counters in `rwnx_tx_push`; a retry is not counted as sent. The
    credits are not touched: that line is compiled out. -/
def countPush (t : Txq) : Txq :=
  { t with
    nbRetry := t.nbRetry - 1
    lastRetrySkb := if t.nbRetry = 1 then none else t.lastRetrySkb
    pktSent := if t.nbRetry = 0 then (t.pktSent + 1) % 256 else t.pktSent
    pushLimit := t.pushLimit - 1 }

/-- The credit that a retry gives back. The `s8` wraps. -/
def addCredit (t : Txq) : Txq := { t with credits := .ofInt (t.credits.toInt + 1) }

def setPushLimit (t : Txq) (n : Nat) : Txq := { t with pushLimit := n % 256 }

/-- What a traffic request takes of the queue at most, a `u16` that the signed
    credits are assigned to. -/
def available (t : Txq) : Nat :=
  let txqLen := t.skList.length % 65536
  if t.credits.toInt < txqLen then (t.credits.toInt % 65536).toNat else txqLen

theorem available_le {t : Txq} (credits : 0 ≤ t.credits.toInt) : t.available ≤ 127 := by
  have small := t.credits.toInt_lt
  unfold available
  dsimp only
  split <;> omega

theorem skList_of_available {t : Txq} (credits : 0 ≤ t.credits.toInt) (some : t.available ≠ 0) :
    t.skList ≠ [] := by
  intro empty
  simp only [available, empty, List.length_nil, Nat.zero_mod] at some
  split at some <;> omega

end Txq

/-! ## Stations in power save -/

/-- `struct rwnx_sta_ps`; the counters are `u16`. -/
structure StaPs where
  active : Bool
  pktReady : PsId → Nat
  spCnt : PsId → Nat

namespace StaPs

/-- A buffer is queued. -/
@[simps]
def queued (ps : StaPs) (p : PsId) : StaPs :=
  { ps with pktReady := Function.update ps.pktReady p ((ps.pktReady p + 1) % 65536) }

/-- A buffer is pushed: both counters go down, and wrap at zero. -/
@[simps]
def pushed (ps : StaPs) (p : PsId) : StaPs :=
  { ps with
    pktReady := Function.update ps.pktReady p ((ps.pktReady p + 65535) % 65536)
    spCnt := Function.update ps.spCnt p ((ps.spCnt p + 65535) % 65536) }

/-- The service period loses `n` buffers, a `u8`. -/
@[simps]
def abort (ps : StaPs) (p : PsId) (n : Nat) : StaPs :=
  { ps with spCnt := Function.update ps.spCnt p ((ps.spCnt p + 65536 - n) % 65536) }

/-- The service period is given `n` more buffers. -/
@[simps]
def grant (ps : StaPs) (p : PsId) (n : Nat) : StaPs :=
  { ps with spCnt := Function.update ps.spCnt p ((ps.spCnt p + n) % 65536) }

end StaPs

/-! ## The device -/

/-- The part of `struct rwnx_hw` that schedules. `scan` is the loop of
    `rwnx_hwq_process`: the hardware queue and the entries still to come. `crashed`
    tells that a `BUG_ON` was met, or a queue linked that no hardware queue owns. -/
structure Hw where
  txqs : TxqId → Txq
  ps : StaId → StaPs
  lists : HwqId → List TxqId
  scan : Option (HwqId × List TxqId)
  crashed : Bool

namespace Hw

def fresh : Hw where
  txqs := fun _ => .unused
  ps := fun _ => ⟨false, fun _ => 0, fun _ => 0⟩
  lists := fun _ => []
  scan := none
  crashed := false

def onTxq (s : Hw) (q : TxqId) (f : Txq → Txq) : Hw :=
  { s with txqs := Function.update s.txqs q (f (s.txqs q)) }

@[simp] theorem onTxq_self (s : Hw) (q : TxqId) (f : Txq → Txq) :
    (s.onTxq q f).txqs q = f (s.txqs q) := Function.update_self ..

@[simp] theorem onTxq_of_ne (s : Hw) {q q' : TxqId} (f : Txq → Txq) (other : q' ≠ q) :
    (s.onTxq q f).txqs q' = s.txqs q' := Function.update_of_ne other ..

@[simp] theorem onTxq_lists (s : Hw) (q : TxqId) (f : Txq → Txq) :
    (s.onTxq q f).lists = s.lists := rfl

def onPs (s : Hw) (st : StaId) (f : StaPs → StaPs) : Hw :=
  { s with ps := Function.update s.ps st (f (s.ps st)) }

@[simp] theorem onPs_self (s : Hw) (st : StaId) (f : StaPs → StaPs) :
    (s.onPs st f).ps st = f (s.ps st) := Function.update_self ..

@[simp] theorem onPs_of_ne (s : Hw) {st st' : StaId} (f : StaPs → StaPs) (other : st' ≠ st) :
    (s.onPs st f).ps st' = s.ps st' := Function.update_of_ne other ..

@[simp] theorem onPs_txqs (s : Hw) (st : StaId) (f : StaPs → StaPs) :
    (s.onPs st f).txqs = s.txqs := rfl

@[simp] theorem onTxq_ps (s : Hw) (q : TxqId) (f : Txq → Txq) : (s.onTxq q f).ps = s.ps := rfl

/-- An update of the counters of the queue's station while it is in power save. -/
def accountPs (s : Hw) (q : TxqId) (f : StaPs → StaPs) : Hw :=
  match (s.txqs q).sta with
  | some st => if (s.ps st).active then s.onPs st f else s
  | none => s

/-! ### Lists -/

/-- `rwnx_txq_add_to_hw_list` -/
def addToHwList (s : Hw) (q : TxqId) : Hw :=
  if (s.txqs q).inHwqList then s
  else
    match (s.txqs q).hwq with
    | none => { s with crashed := true }
    | some h =>
        { s.onTxq q (fun t => t.setStatus (t.status ||| inHwqListBit)) with
          lists := Function.update s.lists h (s.lists h ++ [q]) }

/-- `rwnx_txq_del_from_hw_list`. The links of the queue do not tell which list they
    are in. -/
def delFromHwList (s : Hw) (q : TxqId) : Hw :=
  if (s.txqs q).inHwqList then
    { s.onTxq q (fun t => t.setStatus (t.status &&& ~~~inHwqListBit)) with
      lists := fun h => (s.lists h).erase q }
  else s

theorem addToHwList_of_ne (s : Hw) {q q' : TxqId} (other : q' ≠ q) :
    (s.addToHwList q).txqs q' = s.txqs q' := by
  unfold addToHwList
  split
  · rfl
  · split
    · rfl
    · exact Function.update_of_ne other ..

@[simp] theorem addToHwList_scan (s : Hw) (q : TxqId) : (s.addToHwList q).scan = s.scan := by
  unfold addToHwList
  split
  · rfl
  · split <;> rfl

/-- Only a queue that was never initialised cannot be linked. -/
theorem addToHwList_crashed (s : Hw) {q : TxqId} (placed : (s.txqs q).hwq ≠ none) :
    (s.addToHwList q).crashed = s.crashed := by
  unfold addToHwList
  split
  · rfl
  · split
    · contradiction
    · rfl

theorem delFromHwList_of_ne (s : Hw) {q q' : TxqId} (other : q' ≠ q) :
    (s.delFromHwList q).txqs q' = s.txqs q' := by
  unfold delFromHwList
  split
  · exact Function.update_of_ne other ..
  · rfl

@[simp] theorem delFromHwList_scan (s : Hw) (q : TxqId) :
    (s.delFromHwList q).scan = s.scan := by
  unfold delFromHwList
  split <;> rfl

@[simp] theorem delFromHwList_crashed (s : Hw) (q : TxqId) :
    (s.delFromHwList q).crashed = s.crashed := by
  unfold delFromHwList
  split <;> rfl

/-- `rwnx_txq_start` -/
def start (s : Hw) (q : TxqId) (reason : StopReason) : Hw :=
  if (s.txqs q).active ∧ (s.txqs q).status &&& reason.bits ≠ 0#8 then
    let s := s.onTxq q (fun t => t.setStatus (t.status &&& ~~~reason.bits))
    if (s.txqs q).isStopped = false ∧ (s.txqs q).skList ≠ [] then s.addToHwList q else s
  else s

/-- `rwnx_txq_stop` -/
def stop (s : Hw) (q : TxqId) (reason : StopReason) : Hw :=
  if (s.txqs q).active then
    (s.onTxq q (fun t => t.setStatus (t.status ||| reason.bits))).delFromHwList q
  else s

/-- `rwnx_txq_sta_start` -/
def staStart (s : Hw) (st : StaId) (reason : StopReason) : Hw :=
  st.txqs.foldl (fun s q => s.start q reason) s

/-- `rwnx_txq_sta_stop` -/
def staStop (s : Hw) (st : StaId) (reason : StopReason) : Hw :=
  st.txqs.foldl (fun s q => s.stop q reason) s

/-- `rwnx_txq_flush` -/
def flush (s : Hw) (q : TxqId) : Hw := s.onTxq q (fun t => { t with skList := [] })

/-- The part of `rwnx_txq_deinit` under the lock; the flush comes after it. -/
def deinit (s : Hw) (q : TxqId) : Hw :=
  if (s.txqs q).active then (s.delFromHwList q).onTxq q (fun t => { t with active := false }) else s

/-! ### Buffers -/

/-- `rwnx_txq_queue_skb` -/
def queueSkb (s : Hw) (q : TxqId) (skb : Nat) (retry tbusy : Bool) : Hw :=
  let s := s.accountPs q (·.queued (s.txqs q).psId)
  let s := s.onTxq q (·.queued q skb retry tbusy)
  if (s.txqs q).isStopped then s else s.addToHwList q

/-- `rwnx_tx_retry` -/
def txRetry (s : Hw) (q : TxqId) (skb : Nat) (tbusy : Bool) : Hw :=
  let s := s.onTxq q Txq.addCredit
  let s := if 0 < (s.txqs q).credits.toInt then s.start q .full else s
  s.queueSkb q skb true tbusy

/-- `rwnx_tx_push`, with `rwnx_set_more_data_flag` -/
def txPush (s : Hw) (q : TxqId) : Hw :=
  (s.accountPs q (·.pushed (s.txqs q).psId)).onTxq q Txq.countPush

/-- The loop over the extracted buffers. -/
def txPushes (s : Hw) (q : TxqId) : Nat → Hw
  | 0 => s
  | n + 1 => (s.txPush q).txPushes q n

/-- A legacy service period ends with this round, whatever is left of it. -/
def abortLegacy (s : Hw) (q : TxqId) : Hw :=
  match (s.txqs q).sta with
  | some st =>
      if (s.txqs q).pushLimit ≠ 0 ∧ (s.txqs q).psId = .legacy then
        (s.onPs st (·.abort .legacy (s.txqs q).pushLimit)).onTxq q (·.setPushLimit 0)
      else s
  | none => s

/-- After the pushes the queue leaves the list, or lets another one come first when
    it has sent too much in a row. `rest` are the entries after `q`. When the list is
    rotated, its first entry is met again, except behind the last one: the loop has
    read the next entry before. -/
def requeue (s : Hw) (h : HwqId) (q : TxqId) (rest : List TxqId) (txqEmpty : Bool) : Hw :=
  if txqEmpty then
    { (s.delFromHwList q).onTxq q (fun t => { t with pktSent := 0 }) with scan := some (h, rest) }
  else if h.size < (s.txqs q).pktSent then
    { s.onTxq q (fun t => { t with pktSent := 0 }) with
      lists := Function.update s.lists h ((s.lists h).rotate 1)
      scan := some (h, if rest = [] then [] else rest ++ (s.lists h).take 1) }
  else { s with scan := some (h, rest) }

/-- One pass of the loop of `rwnx_hwq_process`. -/
def visit (s : Hw) (h : HwqId) (q : TxqId) (rest : List TxqId) : Hw :=
  let t := s.txqs q
  if t.inHwqList = false then { s with crashed := true }
  else if t.active = false then { (s.delFromHwList q).flush q with scan := some (h, rest) }
  else if t.credits.toInt ≤ 0 ∨ t.skList = [] then { s with crashed := true }
  else
    let n := t.getSkbToPush.1
    let s := ((s.onTxq q (·.extract n)).txPushes q n).requeue h q rest t.getSkbToPush.2
    (s.abortLegacy q).onTxq q Txq.flowCtrlRestart

/-! ### Power save -/

/-- The buffers of the station's queues with one `ps_id`. -/
def tally (s : Hw) (st : StaId) (p : PsId) (f : Txq → Nat) : Nat :=
  (st.txqs.map fun q => if (s.txqs q).psId = p then f (s.txqs q) else 0).sum

/-- The count of `rwnx_ps_bh_enable`. For a multicast station the `ps_id` of the
    queue is not looked at. -/
def countReady (s : Hw) (st : StaId) (p : PsId) : Nat :=
  match st with
  | .remote _ => s.tally st p (·.skList.length) % 65536
  | .multicast vifIdx =>
      match p with
      | .legacy => (s.txqs (.bcmc vifIdx)).skList.length % 65536
      | .uapsd => 0

def psEnable (s : Hw) (st : StaId) : Hw :=
  let s := s.onPs st (fun ps => { ps with active := true, spCnt := fun _ => 0 })
  let s := s.staStop st .staPs
  s.onPs st (fun ps => { ps with pktReady := s.countReady st })

/-- The push limits of a station's queues are cleared. -/
def clearPushLimits (s : Hw) (st : StaId) : Hw :=
  st.txqs.foldl (fun s q => s.onTxq q (·.setPushLimit 0)) s

/-- The multicast queue is given back to the best effort hardware queue. -/
def resetHwq (s : Hw) (st : StaId) : Hw :=
  match st with
  | .remote _ => s
  | .multicast vifIdx => s.onTxq (.bcmc vifIdx) (fun t => { t with hwq := some .be })

def psDisable (s : Hw) (st : StaId) : Hw :=
  let s := s.onPs st (fun ps => { ps with active := false })
  ((s.resetHwq st).clearPushLimits st).staStart st .staPs

/-- Whether a traffic request stops the service period: `PS_SP_INTERRUPTED`. -/
def interrupts (pktReq : UInt16) (p : PsId) : Bool := pktReq.toNat = 255 ∧ p = .uapsd

/-- Whether a traffic request starts a service period. -/
def startsSp (s : Hw) (st : StaId) (p : PsId) : Bool :=
  (s.ps st).spCnt p = 0 ∧ (s.ps st).spCnt p < (s.ps st).pktReady p

/-- The request, reduced to what is ready. -/
def adaptReq (s : Hw) (st : StaId) (pktReq : UInt16) (p : PsId) : Nat :=
  let pktReadyAll := (s.ps st).pktReady p - (s.ps st).spCnt p
  if pktReq.toNat = 0 ∨ pktReadyAll < pktReq.toNat then pktReadyAll else pktReq.toNat

/-- One queue is given a part of the service period and linked. -/
def grant (s : Hw) (st : StaId) (p : PsId) (q : TxqId) (n : Nat) : Hw :=
  ((s.onTxq q (·.setPushLimit n)).onPs st (·.grant p n)).addToHwList q

/-- The request is dispatched between the queues of a peer. -/
def dispatch (s : Hw) (st : StaId) (p : PsId) : List TxqId → Nat → Hw
  | [], _ => s
  | q :: rest, pktReq =>
      let txqLen := (s.txqs q).available
      if (s.txqs q).psId ≠ p ∨ txqLen = 0 then s.dispatch st p rest pktReq
      else if txqLen < pktReq then
        (s.grant st p q txqLen).dispatch st p rest (pktReq - txqLen)
      else s.grant st p q pktReq

/-- A multicast station has one queue, which takes what its credits allow. -/
def grantMulticast (s : Hw) (vifIdx : Nat) (p : PsId) (pktReq : Nat) : Hw :=
  let t := s.txqs (.bcmc vifIdx)
  s.grant (.multicast vifIdx) p (.bcmc vifIdx)
    (if t.credits.toInt < pktReq then (t.credits.toInt % 65536).toNat else pktReq)

/-- `rwnx_ps_bh_traffic_req` -/
def trafficReq (s : Hw) (st : StaId) (pktReq : UInt16) (p : PsId) : Hw :=
  if (s.ps st).active = false then s
  else if interrupts pktReq p then
    (s.onPs st (fun ps => { ps with spCnt := Function.update ps.spCnt p 0 })).clearPushLimits st
  else if s.startsSp st p = false then s
  else
    match st with
    | .multicast vifIdx => s.grantMulticast vifIdx p (s.adaptReq st pktReq p)
    | .remote staIdx => s.dispatch st p (nxTidPrio.map (.sta staIdx)) (s.adaptReq st pktReq p)

end Hw

/-! ## Steps -/

/-- A confirmation of the firmware: the status word, whether the frame was a
    management frame, and whether the device is gone. -/
structure TxCfm where
  status : BitVec 32
  mgmt : Bool
  usbDown : Bool

/-- `retry_required || sw_retry_required` -/
def TxCfm.retryRequired (cfm : TxCfm) : Bool := cfm.status.getLsbD 1 || cfm.status.getLsbD 2

/-- Whether the confirmation is looked at. -/
def TxCfm.taken (cfm : TxCfm) : Bool := cfm.status ≠ 0#32 && !cfm.usbDown

/-- Whether the confirmed buffer is queued again. -/
def Txq.retries (t : Txq) (cfm : TxCfm) : Bool :=
  cfm.taken && (!cfm.mgmt && t.active && cfm.retryRequired)

/-- Whether the confirmation continues a service period. -/
def Txq.continuesSp (t : Txq) (cfm : TxCfm) : Bool :=
  cfm.taken && !t.retries cfm && (t.active && t.pushLimit ≠ 0 && !t.isFull)

inductive Op where
  | init (q : TxqId) (status : StopReason) (uapsd : Bool)
  | deinit (q : TxqId)
  | flush (q : TxqId)
  | start (q : TxqId) (reason : StopReason)
  | stop (q : TxqId) (reason : StopReason)
  | queueSkb (q : TxqId) (skb : Nat) (tbusy : Bool)
  | txdatacfm (q : TxqId) (skb : Nat) (cfm : TxCfm) (tbusy : Bool)
  | creditUpdate (q : TxqId)
  | psEnable (st : StaId)
  | psDisable (st : StaId)
  | psState (st : StaId) (active : Bool)
  | trafficReq (st : StaId) (pktReq : UInt16) (p : PsId)
  | process (h : HwqId)
  | visit

namespace Hw

/-- `rwnx_txdatacfm` -/
def txdatacfm (s : Hw) (q : TxqId) (skb : Nat) (cfm : TxCfm) (tbusy : Bool) : Hw :=
  if (s.txqs q).retries cfm then s.txRetry q skb tbusy
  else if (s.txqs q).continuesSp cfm then s.addToHwList q
  else s

/-- `rwnx_txq_credit_update`. The update itself is commented out. -/
def creditUpdate (s : Hw) (q : TxqId) : Hw :=
  if (s.txqs q).active = false then s
  else if (s.txqs q).credits.toInt ≤ 0 then s.stop q .full
  else s.start q .full

def perform (s : Hw) : Op → Hw
  | .init q status uapsd => s.onTxq q fun _ => .init q status uapsd
  | .deinit q => s.deinit q
  | .flush q => s.flush q
  | .start q reason => s.start q reason
  | .stop q reason => s.stop q reason
  | .queueSkb q skb tbusy => s.queueSkb q skb false tbusy
  | .txdatacfm q skb cfm tbusy => s.txdatacfm q skb cfm tbusy
  | .creditUpdate q => s.creditUpdate q
  | .psEnable st => s.psEnable st
  | .psDisable st => s.psDisable st
  | .psState st active => s.onPs st fun ps => { ps with active := active }
  | .trafficReq st pktReq p => s.trafficReq st pktReq p
  | .process h => { s with scan := some (h, s.lists h) }
  | .visit =>
      match s.scan with
      | some (h, q :: rest) => s.visit h q rest
      | _ => { s with scan := none }

/-- The loop of `rwnx_hwq_process` keeps out whatever takes `tx_lock`. Buffers are
    queued on a queue, and the power state of a valid station changed, once the
    queues concerned have been initialised. -/
def enabled (s : Hw) : Op → Bool
  | .init _ _ _ | .flush _ => true
  | .visit => s.scan.isSome
  | .queueSkb q _ _ => s.scan.isNone && (s.txqs q).hwq.isSome
  | .psEnable st | .psDisable st => s.scan.isNone && st.txqs.all fun q => (s.txqs q).hwq.isSome
  | _ => s.scan.isNone

def step (s : Hw) (op : Op) : Option Hw :=
  if s.crashed = false ∧ s.enabled op = true then some (s.perform op) else none

theorem step_eq_some {s t : Hw} {op : Op} :
    s.step op = some t ↔ (s.crashed = false ∧ s.enabled op = true) ∧ s.perform op = t := by
  simp [step]

end Hw

/-! ## What the scheduling leaves alone -/

/-- The counters of the stations and the accounted part of the queues are the same. -/
structure SameBooks (s t : Hw) : Prop where
  ps : t.ps = s.ps
  txqs : ∀ q, (t.txqs q).account = (s.txqs q).account

namespace SameBooks

theorem refl (s : Hw) : SameBooks s s := ⟨rfl, fun _ => rfl⟩

theorem trans {s t u : Hw} (h : SameBooks s t) (h' : SameBooks t u) : SameBooks s u where
  ps := h'.ps.trans h.ps
  txqs q := (h'.txqs q).trans (h.txqs q)

theorem onTxq (s : Hw) (q : TxqId) (f : Txq → Txq) (same : ∀ t, (f t).account = t.account) :
    SameBooks s (s.onTxq q f) where
  ps := rfl
  txqs q' := by
    by_cases its : q' = q
    · subst its
      rw [Hw.onTxq_self]
      exact same _
    · rw [Hw.onTxq_of_ne s f its]

theorem setStatus (s : Hw) (q : TxqId) (b : Txq → BitVec 8) :
    SameBooks s (s.onTxq q fun t => t.setStatus (b t)) := onTxq s q _ fun _ => rfl

theorem addToHwList (s : Hw) (q : TxqId) : SameBooks s (s.addToHwList q) := by
  unfold Hw.addToHwList
  split
  · exact refl s
  · split
    · exact ⟨rfl, (refl s).txqs⟩
    · exact ⟨rfl, (setStatus s q fun t => t.status ||| inHwqListBit).txqs⟩

theorem delFromHwList (s : Hw) (q : TxqId) : SameBooks s (s.delFromHwList q) := by
  unfold Hw.delFromHwList
  split
  · exact ⟨rfl, (setStatus s q fun t => t.status &&& ~~~inHwqListBit).txqs⟩
  · exact refl s

theorem start (s : Hw) (q : TxqId) (reason : StopReason) : SameBooks s (s.start q reason) := by
  unfold Hw.start
  split
  · have cleared := setStatus s q (fun t => t.status &&& ~~~reason.bits)
    dsimp only
    split
    · exact cleared.trans (addToHwList _ q)
    · exact cleared
  · exact refl s

theorem stop (s : Hw) (q : TxqId) (reason : StopReason) : SameBooks s (s.stop q reason) := by
  unfold Hw.stop
  split
  · exact (setStatus s q (fun t => t.status ||| reason.bits)).trans (delFromHwList _ q)
  · exact refl s

theorem staStart (s : Hw) (st : StaId) (reason : StopReason) :
    SameBooks s (s.staStart st reason) := by
  unfold Hw.staStart
  induction st.txqs generalizing s with
  | nil => exact refl s
  | cons q rest ih => exact (start s q reason).trans (ih _)

theorem staStop (s : Hw) (st : StaId) (reason : StopReason) :
    SameBooks s (s.staStop st reason) := by
  unfold Hw.staStop
  induction st.txqs generalizing s with
  | nil => exact refl s
  | cons q rest ih => exact (stop s q reason).trans (ih _)

end SameBooks

end Aic8800.Sched
