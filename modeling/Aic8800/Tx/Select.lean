import Mathlib
import Aic8800.Sched.Queues

/-! # The queue of a frame

The network stack asks `rwnx_select_queue` for the subqueue of a frame, and gives the frame to
`rwnx_start_xmit` with no more than that number and the priority that it left in the frame. From
these `rwnx_get_tx_priv` finds the station again. A queue that is full stops its own subqueue.

Between the two `rwnx_start_xmit` takes all priorities below 3 for best effort. On its way to a
queue a frame may be lost for want of memory, and a short one is shown to the filter of TCP
acknowledgements, which may keep it. (The build is without bridges and without A-MSDUs.)
-/

namespace Aic8800.Tx.Select

open Sched (HwqId TxqId)

/-- `NX_NB_TID_PER_STA` -/
def nxNbTidPerSta : Nat := 8

/-- `NX_NB_TXQ_PER_STA` -/
def nxNbTxqPerSta : Nat := 9

/-- `NX_VIRT_DEV_MAX` -/
def nxVirtDevMax : Nat := 4

/-- `NDEV_NO_TXQ` -/
def ndevNoTxq : Nat := 0xffff

/-- `PRIO_STA_NULL` -/
def prioStaNull : Nat := 0xaa

/-- `ETH_P_TDLS` -/
def ethPTdls : Nat := 0x890d

/-- `MAX_TCP_ACK` -/
def maxTcpAck : Nat := 200

abbrev Mac := Vector UInt8 6

/-- `struct rwnx_sta` -/
structure Sta where
  staIdx : Nat
  vifIdx : Nat
  mac : Mac
  qos : Bool
  acm : BitVec 8

/-- `struct rwnx_txq` -/
structure Txq where
  active : Bool
  ndevIdx : Nat

/-- `struct rwnx_mesh_proxy` -/
structure MeshProxy where
  extStaAddr : Mac
  proxyAddr : Mac
  isLocal : Bool

/-- `struct rwnx_mesh_path` -/
structure MeshPath where
  tgt : Mac
  nhop : Option Nat

/-- The interfaces of an access point: its stations, and the index of the multicast one -/
structure Ap where
  bcmcIndex : Nat
  staList : List Nat
  mpathList : List MeshPath
  proxyList : List MeshProxy

/-- What an interface is, with the part of its union. Stations are known by their place in
    `sta_table`, and a VLAN has its master's part at hand. -/
inductive Mode where
  | station (tdlsActive : Bool) (tdlsSta ap : Option Nat)
  | apVlan (sta4a : Option Nat) (master : Ap) (masterIdx : Nat)
  | ap (ap : Ap)
  | mesh (ap : Ap) (isResending : Bool) (permAddr : Mac)
  | other

structure Vif where
  vifIndex : Nat
  mode : Mode

/-- `master_vif_idx` -/
def Vif.masterVifIdx (vif : Vif) : Nat :=
  match vif.mode with
  | .apVlan _ _ masterIdx => masterIdx
  | _ => vif.vifIndex

/-- `struct rwnx_hw`. The chip is an old one or not. -/
structure Hw where
  oldIc : Bool
  staTable : Nat → Sta
  txq : Nat → Txq

/-- A frame, with what `cfg80211_classify8021d` says of it. A TDLS frame comes with the TID that
    the driver has given it. -/
structure Skb where
  dest : Mac
  source : Mac
  proto : Nat
  priority : Nat
  tag : Nat
  tdls : proto = ethPTdls → priority < nxNbTidPerSta

namespace Hw

variable (hw : Hw)

/-- `NX_REMOTE_STA_MAX` or `NX_REMOTE_STA_MAX_FOR_OLD_IC` -/
def remoteStaMax : Nat := if hw.oldIc then 8 else 32

/-- `NX_BCMC_TXQ_NDEV_IDX` -/
def bcmcTxqNdevIdx : Nat := nxNbTidPerSta * hw.remoteStaMax

/-- `NX_FIRST_VIF_TXQ_IDX` -/
def firstVifTxqIdx : Nat := hw.remoteStaMax * nxNbTxqPerSta

/-- `NX_FIRST_UNK_TXQ_IDX` -/
def firstUnkTxqIdx : Nat := hw.firstVifTxqIdx + nxVirtDevMax

def isMulticastSta (staIdx : Nat) : Bool := hw.remoteStaMax ≤ staIdx

/-- `rwnx_txq_sta_idx` -/
def txqStaIdx (sta : Sta) (tid : Nat) : Nat :=
  if hw.isMulticastSta sta.staIdx then hw.firstVifTxqIdx + sta.vifIdx
  else sta.staIdx * nxNbTxqPerSta + tid

/-- `rwnx_txq_sta_get`, whose TID is a byte -/
def txqStaGet (sta : Sta) (tid : Nat) : Nat :=
  hw.txqStaIdx sta (if nxNbTxqPerSta ≤ tid % 256 then 0 else tid % 256)

/-- The `ndev_idx` that `rwnx_txq_init` gives a queue -/
def txqInit (idx : Nat) (staIdx : Nat) : Nat :=
  if idx < hw.firstVifTxqIdx then
    if idx - staIdx * nxNbTxqPerSta < nxNbTidPerSta then
      idx - staIdx * nxNbTxqPerSta + staIdx * nxNbTidPerSta
    else ndevNoTxq
  else if idx < hw.firstUnkTxqIdx then hw.bcmcTxqNdevIdx
  else ndevNoTxq

end Hw

/-! ## The choice -/

/-- `rwnx_tid2hwq` -/
def tid2hwq : List HwqId :=
  [.be, .bk, .bk, .be, .vi, .vi, .vo, .vo, .vo, .be, .be, .be, .be, .be, .be, .be]

/-- `RWNX_HWQ_*` -/
def ac : HwqId → Nat
  | .bk => 0
  | .be => 1
  | .vi => 2
  | .vo => 3
  | .bcmc => 4

/-- What `rwnx_start_xmit` says of a frame to the firmware, and the queue it puts it in -/
structure Queued where
  staid : Nat
  tid : Nat
  vifIdx : Nat
  txq : Nat

/-- What `rwnx_start_xmit` comes by besides the queue -/
structure Env where
  /-- The frame has to be copied: it is shared, cloned on a bridge, or has no headroom. -/
  copies : Bool
  /-- `skb_copy_expand` has memory. -/
  copied : Bool
  len : Nat
  /-- What `filter_send_tcp_ack` returns, if `intf_tcp_alloc_msg` has memory -/
  filter : Option Bool
  /-- `kmem_cache_alloc` has memory. -/
  allocated : Bool

/-- What becomes of a frame -/
inductive Fate where
  | freed
  /-- The filter has it. -/
  | kept
  | queued (out : Queued)

namespace Hw

variable (hw : Hw)

/-- `rwnx_get_tx_priv` -/
def getTxPriv (vif : Vif) (priority queue : Nat) : Option Nat :=
  if priority = prioStaNull then none
  else if queue = hw.bcmcTxqNdevIdx then some (hw.remoteStaMax + vif.masterVifIdx)
  else some (queue / nxNbTidPerSta)

/-- The queue that `rwnx_start_xmit` finds for a frame, if there is one that is set up -/
def queued (vif : Vif) (priority queue : Nat) : Option Queued := do
  let priority := if priority < 3 then 0 else priority
  let i ← hw.getTxPriv vif priority queue
  let tid := priority % 256
  let txq := hw.txqStaGet (hw.staTable i) tid
  if (hw.txq txq).active then some ⟨(hw.staTable i).staIdx, tid, vif.masterVifIdx, txq⟩ else none

/-- The part of `rwnx_start_xmit` behind the filter -/
def xmit (vif : Vif) (allocated : Bool) (priority queue : Nat) : Fate :=
  match hw.queued vif priority queue with
  | none => .freed
  | some out => if allocated then .queued out else .freed

end Hw

/-! ## Priorities -/

/-- The level of the queue that a TID has -/
def level (prio : Nat) : Nat := ac ((tid2hwq[prio]?).getD .be)

/-- The TID that a frame asks for -/
def asked (skb : Skb) (tdlsFrame : Bool) : Nat := if tdlsFrame then skb.priority else skb.tag % 8

/-- The station of a peer has its place in the table, and its queues are set up. -/
structure Hw.Remote (hw : Hw) (i : Nat) : Prop where
  own : (hw.staTable i).staIdx = i
  small : i < hw.remoteStaMax
  queues : ∀ tid, tid < nxNbTxqPerSta →
    hw.txq (i * nxNbTxqPerSta + tid) = ⟨true, hw.txqInit (i * nxNbTxqPerSta + tid) i⟩

/-- The multicast station of an access point has the place that belongs to its interface, and its
    queue is set up. -/
structure Hw.Multicast (hw : Hw) (vif : Vif) (i : Nat) : Prop where
  own : (hw.staTable i).staIdx = i
  place : i = hw.remoteStaMax + vif.masterVifIdx
  vifIdx : (hw.staTable i).vifIdx = vif.masterVifIdx
  small : vif.masterVifIdx < nxVirtDevMax
  queue : hw.txq (hw.firstVifTxqIdx + vif.masterVifIdx) =
    ⟨true, hw.txqInit (hw.firstVifTxqIdx + vif.masterVifIdx) i⟩

/-- The peers that an interface knows -/
def Vif.peers (vif : Vif) : List Nat :=
  match vif.mode with
  | .station _ tdlsSta ap => tdlsSta.toList ++ ap.toList
  | .apVlan sta4a master _ => sta4a.toList ++ master.staList
  | .ap ap => ap.staList
  | .mesh ap _ _ => ap.mpathList.filterMap (·.nhop)
  | .other => []

/-- The access point that an interface has its multicast station from -/
def Vif.ap? (vif : Vif) : Option Ap :=
  match vif.mode with
  | .apVlan _ master _ => some master
  | .ap ap | .mesh ap _ _ => some ap
  | .station .. | .other => none

/-- All stations that an interface may send to are set up. -/
structure Hw.Ready (hw : Hw) (vif : Vif) : Prop where
  peers : ∀ i ∈ vif.peers, hw.Remote i
  multicast : ∀ ap, vif.ap? = some ap → hw.Multicast vif ap.bcmcIndex

/-- The positions that there are -/
def Hw.Valid (hw : Hw) : TxqId → Prop
  | .sta staIdx _ => staIdx < hw.remoteStaMax
  | .bcmc vifIdx | .unk vifIdx => vifIdx < nxVirtDevMax
  | .offChan => True

section

variable {hw : Hw} {vif : Vif} {i : Nat}

theorem Hw.Remote.txqStaGet (remote : hw.Remote i) (tid : Nat) :
    hw.txqStaGet (hw.staTable i) tid =
      i * nxNbTxqPerSta + if nxNbTxqPerSta ≤ tid % 256 then 0 else tid % 256 := by
  have peer : hw.isMulticastSta i = false := decide_eq_false (not_le.mpr remote.small)
  rw [Hw.txqStaGet, Hw.txqStaIdx, remote.own, peer]
  rfl

/-- The subqueue that belongs to a TID of a peer -/
theorem Hw.Remote.ndevIdx (remote : hw.Remote i) {tid : Nat} (small : tid < nxNbTidPerSta) :
    (hw.txq (i * nxNbTxqPerSta + tid)).active = true ∧
      (hw.txq (i * nxNbTxqPerSta + tid)).ndevIdx = tid + i * nxNbTidPerSta := by
  have less := remote.small
  have below : tid < nxNbTxqPerSta := small.trans (by decide)
  have inside : i * nxNbTxqPerSta + tid < hw.firstVifTxqIdx := by
    unfold Hw.firstVifTxqIdx
    unfold nxNbTxqPerSta at *
    omega
  rw [remote.queues tid below]
  refine ⟨rfl, ?_⟩
  simp only [Hw.txqInit]
  rw [if_pos inside, Nat.add_sub_cancel_left, if_pos small]

/-- The station is found again. -/
theorem Hw.Remote.getTxPriv (remote : hw.Remote i) (vif : Vif) {tid prio : Nat}
    (small : tid < nxNbTidPerSta) (real : prio ≠ prioStaNull) :
    hw.getTxPriv vif prio (tid + i * nxNbTidPerSta) = some i := by
  have less := remote.small
  unfold nxNbTidPerSta at *
  rw [Hw.getTxPriv, if_neg real, if_neg (by unfold Hw.bcmcTxqNdevIdx nxNbTidPerSta; omega)]
  congr 1
  unfold nxNbTidPerSta
  omega

theorem Hw.Multicast.txqStaGet (multicast : hw.Multicast vif i) (tid : Nat) :
    hw.txqStaGet (hw.staTable i) tid = hw.firstVifTxqIdx + vif.masterVifIdx := by
  have many : hw.isMulticastSta i = true :=
    decide_eq_true (multicast.place ▸ Nat.le_add_right _ _)
  rw [Hw.txqStaGet, Hw.txqStaIdx, multicast.own, many, multicast.vifIdx]
  rfl

theorem Hw.Multicast.ndevIdx (multicast : hw.Multicast vif i) :
    (hw.txq (hw.firstVifTxqIdx + vif.masterVifIdx)).active = true ∧
      (hw.txq (hw.firstVifTxqIdx + vif.masterVifIdx)).ndevIdx = hw.bcmcTxqNdevIdx := by
  have less := multicast.small
  rw [multicast.queue]
  refine ⟨rfl, ?_⟩
  simp only [Hw.txqInit]
  rw [if_neg (by omega), if_pos (by unfold Hw.firstUnkTxqIdx; omega)]

end

end Aic8800.Tx.Select
