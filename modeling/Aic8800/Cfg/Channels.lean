import Aic8800.Lib.Refcount
import Aic8800.Lib.Run
import Mathlib

/-! # Channel contexts

The firmware has a few channel contexts and tells the driver which one an interface
works in. The driver counts the interfaces of each context. To link an interface takes
no look at the context it had, so that every caller has to unlink it first.
Calls of cfg80211 come one at a time, and those that wait for a confirmation
are two steps here; indications and works come in between, and so does the
closing of an interface. The switching on and off of the radar detector is left out.
-/

namespace Aic8800.Cfg.Channels

open Lib Refcount

/-- `NX_CHAN_CTXT_CNT` -/
def nxChanCtxtCnt : UInt8 := 3

/-- `RWNX_CH_NOT_SET` -/
def rwnxChNotSet : UInt8 := 0xFF

/-- `NX_VIRT_DEV_MAX + NX_REMOTE_STA_MAX`, the number of bits of `avail_idx_map`. -/
def availIdx : Nat := 36

/-- `CO_OK` -/
def coOk : Nat := 0

/-- `struct cfg80211_chan_def`, with the frequency for the channel. -/
structure ChanDef where
  chan : Option Nat
  width : Nat
  centerFreq1 : Nat
  centerFreq2 : Nat
  deriving DecidableEq

/-- `struct rwnx_chanctx` -/
structure Chanctx where
  chanDef : ChanDef
  count : UInt8
  deriving DecidableEq

inductive Iftype where
  | station | p2pClient | ap | p2pGo | apVlan | meshPoint | monitor
  deriving DecidableEq

/-- `struct rwnx_csa`, and whether its work is scheduled. -/
structure Csa where
  chandef : ChanDef
  status : Nat
  chIdx : UInt8
  scheduled : Bool

/-- A call that waits for its confirmation. -/
inductive Call where
  | startCac (vif : Nat) (chandef : ChanDef)
  | configMonitor (vif : Nat)

/-- The interface that a call is for. -/
def Call.vif : Call → Nat
  | .startCac vif _ | .configMonitor vif => vif

structure Hw where
  vifs : List Nat
  iftype : Nat → Iftype
  /-- The interface is open. -/
  opened : Nat → Bool
  chIndex : Nat → UInt8
  /-- What is at an index of `nxChanCtxtCnt` or more is not in the table. -/
  chanctxTable : UInt8 → Chanctx
  csa : Nat → Option Csa
  /-- The interface that the radar detector waits for, and whether its work is scheduled. -/
  cacVif : Option Nat
  cacWork : Bool
  curChanctx : UInt8
  monitorVif : Option Nat
  call : Option Call
  /-- The table was indexed out of range. -/
  fault : Bool

/-- What happens, with what the firmware answers or says. -/
inductive Event where
  | interfaceAdd (vif : Nat) (type : Iftype)
  | changeIface (vif : Nat) (type : Iftype)
  | open (vif : Nat)
  | close (vif : Nat) (cancelFails : Bool)
  | remove (vif : Nat)
  | startAp (vif : Nat) (error : Int) (status : Nat) (chIdx : UInt8) (chandef : ChanDef)
  | stopAp (vif : Nat)
  | joinMesh (vif : Nat) (error : Int) (status : Nat) (chIdx : UInt8) (chandef : ChanDef)
  | leaveMesh (vif : Nat) (error : Int) (status : Nat)
  | smConnectInd (vif : Nat) (statusCode : Nat) (chIdx : UInt8) (chandef : ChanDef)
  | smDisconnectInd (vif : Nat)
  | meshPeerUpdateInd (vif : Nat) (userMpm estab valid : Bool)
  | channelSwitch (vif : Nat) (chandef : ChanDef)
  | csaFinishInd (vif : Nat) (status : Nat) (chanIdx : UInt8)
  | csaFinish (vif : Nat) (buf : Bool) (sendBcn sendBcnChange : Int)
  | startRadarDetection (vif : Nat) (chandef : ChanDef)
  | startCacCfm (status : Nat) (chIdx : UInt8)
  | cacWork
  | radarDetected
  | setMonitorChannel (chandef : Option ChanDef)
  | configMonitorCfm (error : Int) (chanIndex : UInt8) (chan : ChanDef) (others : Bool)
  | channelSwitchInd (chanIdx : UInt8)

/-- A context that one more interface works in. -/
def Chanctx.link (ctxt : Chanctx) (chandef : Option ChanDef) : Chanctx where
  chanDef := if ctxt.chanDef.chan = none then chandef.getD ctxt.chanDef else ctxt.chanDef
  count := ctxt.count + 1

/-- A context that one interface less works in. -/
def Chanctx.unlink (ctxt : Chanctx) : Chanctx :=
  let count := if ctxt.count = 0 then 0 else ctxt.count - 1
  { chanDef := if count = 0 then { ctxt.chanDef with chan := none } else ctxt.chanDef
    count := count }

namespace Hw

variable (s : Hw)

/-- An access to the table. -/
def index (chIdx : UInt8) : Hw := { s with fault := s.fault || nxChanCtxtCnt ≤ chIdx }

def rwnxChanctxLink (vif : Nat) (chIdx : UInt8) (chandef : Option ChanDef) : Hw :=
  if nxChanCtxtCnt ≤ chIdx then s
  else
    { s with
      chIndex := Function.update s.chIndex vif chIdx
      chanctxTable :=
        Function.update s.chanctxTable chIdx ((s.chanctxTable chIdx).link chandef) }

def rwnxChanctxUnlink (vif : Nat) : Hw :=
  if s.chIndex vif = rwnxChNotSet then s
  else
    { s.index (s.chIndex vif) with
      chanctxTable :=
        Function.update s.chanctxTable (s.chIndex vif) (s.chanctxTable (s.chIndex vif)).unlink
      chIndex := Function.update s.chIndex vif rwnxChNotSet }

def rwnxChanctxValid (chIdx : UInt8) : Bool :=
  !(nxChanCtxtCnt ≤ chIdx || (s.chanctxTable chIdx).chanDef.chan.isNone)

/-- The interface works in another context from now on. -/
def relink (vif : Nat) (chIdx : UInt8) (chandef : Option ChanDef) : Hw :=
  (s.rwnxChanctxUnlink vif).rwnxChanctxLink vif chIdx chandef

def rwnxRadarCancelCac : Hw :=
  match s.cacVif with
  | none => s
  | some vif =>
      if s.cacWork then
        { (s.index (s.chIndex vif)).rwnxChanctxUnlink vif with cacWork := false, cacVif := none }
      else { s with cacVif := none }

def rwnxRadarCacWork : Hw :=
  match s.cacVif with
  | none => { s with cacWork := false }
  | some vif =>
      { (s.index (s.chIndex vif)).rwnxChanctxUnlink vif with cacWork := false, cacVif := none }

def rwnxRadarStartCac (vif : Nat) : Hw := { s with cacVif := some vif, cacWork := true }

def rwnxRadarDetected : Hw :=
  if s.rwnxChanctxValid s.curChanctx then (s.index s.curChanctx).rwnxRadarCancelCac else s

def rwnxInterfaceAdd (vif : Nat) (type : Iftype) : Hw :=
  { s with
    vifs := vif :: s.vifs
    iftype := Function.update s.iftype vif type
    opened := Function.update s.opened vif false
    chIndex := Function.update s.chIndex vif rwnxChNotSet
    csa := Function.update s.csa vif none }

/-- `rwnx_open`, when the firmware has added the interface. -/
def rwnxOpen (vif : Nat) : Hw :=
  let s := { s with opened := Function.update s.opened vif true }
  if s.iftype vif = .monitor then
    let s := { s with monitorVif := some vif }
    if s.chIndex vif = rwnxChNotSet then s else s.index (s.chIndex vif)
  else s

/-- `rwnx_close`, which gives up when the scan of the interface can not be cancelled. -/
def rwnxClose (vif : Nat) (cancelFails : Bool) : Hw :=
  let s := s.rwnxRadarCancelCac
  let s := { s with opened := Function.update s.opened vif false }
  if cancelFails then s
  else
    let s := s.rwnxChanctxUnlink vif
    { s with monitorVif := if s.iftype vif = .monitor then none else s.monitorVif }

def rwnxCfg80211StartAp (vif : Nat) (error : Int) (status : Nat) (chIdx : UInt8)
    (chandef : ChanDef) : Hw :=
  if error = 0 ∧ status = coOk then
    { s with csa := Function.update s.csa vif none }.rwnxChanctxLink vif chIdx (some chandef)
  else s

def rwnxCfg80211StopAp (vif : Nat) : Hw :=
  let s := s.rwnxRadarCancelCac.rwnxChanctxUnlink vif
  { s with csa := Function.update s.csa vif none }

def rwnxCfg80211JoinMesh (vif : Nat) (error : Int) (status : Nat) (chIdx : UInt8)
    (chandef : ChanDef) : Hw :=
  if s.iftype vif = .meshPoint ∧ error = 0 ∧ status = coOk then
    s.rwnxChanctxLink vif chIdx (some chandef)
  else s

def rwnxCfg80211LeaveMesh (vif : Nat) (error : Int) (status : Nat) : Hw :=
  if error = 0 ∧ status = coOk then (s.rwnxChanctxUnlink vif).rwnxRadarCancelCac else s

def rwnxRxSmConnectInd (vif : Nat) (statusCode : Nat) (chIdx : UInt8) (chandef : ChanDef) : Hw :=
  if statusCode = 0 then s.rwnxChanctxLink vif chIdx (some chandef) else s

/-- `rwnx_rx_sm_disconnect_ind`, when it is not dropped. -/
def rwnxRxSmDisconnectInd (vif : Nat) : Hw := s.rwnxChanctxUnlink vif

/-- A new peer links the interface to the context that it works in already. -/
def rwnxRxMeshPeerUpdateInd (vif : Nat) (userMpm estab valid : Bool) : Hw :=
  if s.iftype vif = .meshPoint && !userMpm && estab && !valid then
    s.rwnxChanctxLink vif (s.chIndex vif) none
  else s

/-- `rwnx_cfg80211_channel_switch`, when nothing fails. -/
def rwnxCfg80211ChannelSwitch (vif : Nat) (chandef : ChanDef) : Hw :=
  if (s.csa vif).isSome then s
  else { s with csa := Function.update s.csa vif (some ⟨chandef, 0, 0, false⟩) }

def rwnxRxCsaFinishInd (vif : Nat) (status : Nat) (chanIdx : UInt8) : Hw :=
  match s.iftype vif with
  | .ap | .p2pGo =>
      { s with
        csa := Function.update s.csa vif ((s.csa vif).map fun csa =>
          { csa with status := status, chIdx := chanIdx, scheduled := true }) }
  | _ => if status = 0 then s.relink vif chanIdx none else s

/-- `rwnx_csa_finish`, with whether there is memory for the beacon and the results of sending. -/
def rwnxCsaFinish (vif : Nat) (csa : Csa) (buf : Bool) (sendBcn sendBcnChange : Int) : Hw :=
  let left := { csa with scheduled := false }
  if !buf || csa.status = 0 && sendBcn ≠ 0 then
    { s with csa := Function.update s.csa vif (some left) }
  else
    let s :=
      if csa.status = 0 ∧ sendBcnChange = 0 then s.relink vif csa.chIdx (some csa.chandef) else s
    { s with csa := Function.update s.csa vif none }

/-- `rwnx_cfg80211_start_radar_detection` up to the request. -/
def rwnxCfg80211StartRadarDetection (vif : Nat) (chandef : ChanDef) : Hw :=
  { s.rwnxRadarStartCac vif with call := some (.startCac vif chandef) }

/-- `rwnx_cfg80211_set_monitor_channel` up to the request. -/
def rwnxCfg80211SetMonitorChannel (chandef : Option ChanDef) : Hw :=
  match s.monitorVif with
  | none => s
  | some vif =>
      if s.rwnxChanctxValid (s.chIndex vif) then
        let s := s.index (s.chIndex vif)
        if chandef = some (s.chanctxTable (s.chIndex vif)).chanDef then s
        else { s with call := some (.configMonitor vif) }
      else { s with call := some (.configMonitor vif) }

/-- The rest of it. With other interfaces started only the index is of use. -/
def rwnxCfg80211SetMonitorChannelFinish (vif : Nat) (error : Int) (chanIndex : UInt8)
    (chan : ChanDef) (others : Bool) : Hw :=
  if error ≠ 0 then { s with call := none }
  else
    let s := { s with call := none }.rwnxChanctxUnlink vif
    if chanIndex = rwnxChNotSet then s
    else s.rwnxChanctxLink vif chanIndex (if others then none else some chan)

def step (e : Event) : Option Hw :=
  match e with
  | .interfaceAdd vif type =>
      if s.call.isNone ∧ vif ∉ s.vifs ∧ s.vifs.length < availIdx then
        some (s.rwnxInterfaceAdd vif type)
      else none
  | .changeIface vif type =>
      if s.call.isNone ∧ vif ∈ s.vifs then
        some { s with iftype := Function.update s.iftype vif type }
      else none
  | .open vif => if vif ∈ s.vifs ∧ s.opened vif = false then some (s.rwnxOpen vif) else none
  | .close vif cancelFails =>
      if vif ∈ s.vifs ∧ s.opened vif = true then some (s.rwnxClose vif cancelFails) else none
  | .remove vif =>
      if s.call.isNone ∧ vif ∈ s.vifs ∧ s.opened vif = false then
        some { s with vifs := s.vifs.erase vif }
      else none
  | .startAp vif error status chIdx chandef =>
      if s.call.isNone ∧ vif ∈ s.vifs then
        some (s.rwnxCfg80211StartAp vif error status chIdx chandef)
      else none
  | .stopAp vif =>
      if s.call.isNone ∧ vif ∈ s.vifs then some (s.rwnxCfg80211StopAp vif) else none
  | .joinMesh vif error status chIdx chandef =>
      if s.call.isNone ∧ vif ∈ s.vifs then
        some (s.rwnxCfg80211JoinMesh vif error status chIdx chandef)
      else none
  | .leaveMesh vif error status =>
      if s.call.isNone ∧ vif ∈ s.vifs then some (s.rwnxCfg80211LeaveMesh vif error status) else none
  | .smConnectInd vif statusCode chIdx chandef =>
      if vif ∈ s.vifs then some (s.rwnxRxSmConnectInd vif statusCode chIdx chandef) else none
  | .smDisconnectInd vif => if vif ∈ s.vifs then some (s.rwnxRxSmDisconnectInd vif) else none
  | .meshPeerUpdateInd vif userMpm estab valid =>
      if vif ∈ s.vifs then some (s.rwnxRxMeshPeerUpdateInd vif userMpm estab valid) else none
  | .channelSwitch vif chandef =>
      if s.call.isNone ∧ vif ∈ s.vifs then some (s.rwnxCfg80211ChannelSwitch vif chandef) else none
  | .csaFinishInd vif status chanIdx =>
      if vif ∈ s.vifs then some (s.rwnxRxCsaFinishInd vif status chanIdx) else none
  | .csaFinish vif buf sendBcn sendBcnChange =>
      match s.csa vif with
      | none => none
      | some csa =>
          if vif ∈ s.vifs ∧ csa.scheduled then
            some (s.rwnxCsaFinish vif csa buf sendBcn sendBcnChange)
          else none
  | .startRadarDetection vif chandef =>
      if s.call.isNone ∧ vif ∈ s.vifs ∧ s.opened vif = true then
        some (s.rwnxCfg80211StartRadarDetection vif chandef)
      else none
  | .startCacCfm status chIdx =>
      match s.call with
      | some (.startCac vif chandef) =>
          let s := { s with call := none }
          some (if status = coOk then s.rwnxChanctxLink vif chIdx (some chandef) else s)
      | _ => none
  | .cacWork => if s.cacWork then some s.rwnxRadarCacWork else none
  | .radarDetected => some s.rwnxRadarDetected
  | .setMonitorChannel chandef =>
      if s.call.isNone then some (s.rwnxCfg80211SetMonitorChannel chandef) else none
  | .configMonitorCfm error chanIndex chan others =>
      match s.call with
      | some (.configMonitor vif) =>
          some (s.rwnxCfg80211SetMonitorChannelFinish vif error chanIndex chan others)
      | _ => none
  | .channelSwitchInd chanIdx => some { s with curChanctx := chanIdx }

end Hw

/-- No interface, no context in use and no CAC. -/
def init : Hw where
  vifs := []
  iftype := fun _ => .station
  opened := fun _ => false
  chIndex := fun _ => rwnxChNotSet
  chanctxTable := fun _ => ⟨⟨none, 0, 0, 0⟩, 0⟩
  csa := fun _ => none
  cacVif := none
  cacWork := false
  curChanctx := 0
  monitorVif := none
  call := none
  fault := false

/-- The counts are exact, a context that no interface works in has no channel, and the
    table was not indexed out of range. -/
structure Sound (s : Hw) : Prop where
  counted : ∀ c < nxChanCtxtCnt, (s.chanctxTable c).count.toNat = refs s.vifs s.chIndex c
  cleared : ∀ c < nxChanCtxtCnt,
    (s.chanctxTable c).count = 0 → (s.chanctxTable c).chanDef.chan = none
  inRange : s.fault = false

/-- The interface works in no context, or the index is not accepted. -/
def Hw.Linkable (s : Hw) (vif : Nat) (chIdx : UInt8) : Prop :=
  nxChanCtxtCnt ≤ chIdx ∨ s.chIndex vif = rwnxChNotSet

/-- The interface of the CAC works in a context. -/
def Hw.CacLinked (s : Hw) : Prop := ∀ vif ∈ s.cacVif, s.chIndex vif ≠ rwnxChNotSet

/-- The steps that keep the counts sound.
    - An interface is linked only when it works in no context.
    - A CAC ends, in whatever way, only when its interface works in a context.
    - An interface that is removed works in no context, and is not the monitor still. -/
def Kept (s : Hw) : Event → Prop
  | .remove vif => s.chIndex vif = rwnxChNotSet ∧ s.monitorVif ≠ some vif
  | .startAp vif error status chIdx _ => error = 0 → status = coOk → s.Linkable vif chIdx
  | .joinMesh vif error status chIdx _ =>
      s.iftype vif = .meshPoint → error = 0 → status = coOk → s.Linkable vif chIdx
  | .smConnectInd vif statusCode chIdx _ => statusCode = 0 → s.Linkable vif chIdx
  | .meshPeerUpdateInd vif userMpm estab valid =>
      s.iftype vif = .meshPoint → userMpm = false → estab = true → valid = false →
        s.chIndex vif = rwnxChNotSet
  | .startCacCfm status chIdx => status = coOk → ∀ call ∈ s.call, s.Linkable call.vif chIdx
  | .leaveMesh vif error status =>
      error = 0 → status = coOk → s.CacLinked ∧ s.cacVif ≠ some vif
  | .stopAp _ | .close _ _ | .cacWork => s.CacLinked
  | .radarDetected => s.rwnxChanctxValid s.curChanctx = true → s.CacLinked
  | _ => True

/-! ## The invariant -/

/-- The count of each context. -/
def Hw.counts (s : Hw) (c : UInt8) : Nat := (s.chanctxTable c).count.toNat

structure Inv (s : Hw) : Prop where
  nodup : s.vifs.Nodup
  few : s.vifs.length ≤ availIdx
  range : ∀ vif ∈ s.vifs, s.chIndex vif < nxChanCtxtCnt ∨ s.chIndex vif = rwnxChNotSet
  counted : Exact (· < nxChanCtxtCnt) s.vifs s.chIndex s.counts
  cleared : ∀ c < nxChanCtxtCnt,
    (s.chanctxTable c).count = 0 → (s.chanctxTable c).chanDef.chan = none
  running : s.fault = false
  cac : ∀ vif ∈ s.cacVif, vif ∈ s.vifs
  cacOpen : ∀ vif ∈ s.cacVif, s.opened vif = true
  call : ∀ call ∈ s.call, call.vif ∈ s.vifs
  monitor : ∀ vif ∈ s.monitorVif, vif ∈ s.vifs

theorem Inv.sound {s : Hw} (h : Inv s) : Sound s := ⟨h.counted, h.cleared, h.running⟩

section Steps

variable {s : Hw} {vif : Nat} {chIdx : UInt8}

/-- The index that says that there is no context is not one of the table. -/
theorem notSet_range : ¬ rwnxChNotSet < nxChanCtxtCnt := by decide

theorem counts_update {table : UInt8 → Chanctx} {ctxt : Chanctx} (same : s.chanctxTable = table) :
    (fun c => (Function.update table chIdx ctxt c).count.toNat) =
      Function.update s.counts chIdx ctxt.count.toNat := by
  subst same
  funext c
  by_cases same : c = chIdx
  · subst same
    rw [Function.update_self, Function.update_self]
  · rw [Function.update_of_ne same, Function.update_of_ne same]
    rfl

theorem index_inside (range : chIdx < nxChanCtxtCnt) : s.index chIdx = s := by
  have inside : decide (nxChanCtxtCnt ≤ chIdx) = false := by
    simpa using range
  unfold Hw.index
  rw [inside, Bool.or_false]

/-- An interface that works in a context has a proper index. -/
theorem Inv.linked (h : Inv s) (here : vif ∈ s.vifs) (set : s.chIndex vif ≠ rwnxChNotSet) :
    s.chIndex vif < nxChanCtxtCnt := (h.range vif here).resolve_right set

theorem Inv.link (h : Inv s) (here : vif ∈ s.vifs) (free : s.Linkable vif chIdx)
    {chandef : Option ChanDef} : Inv (s.rwnxChanctxLink vif chIdx chandef) := by
  unfold Hw.rwnxChanctxLink
  split
  · exact h
  · rename_i accepted
    have range : chIdx < nxChanCtxtCnt := by simpa using accepted
    have unset : s.chIndex vif = rwnxChNotSet := free.resolve_left accepted
    have few : s.counts chIdx ≤ availIdx := (h.counted.le range).trans h.few
    have more : ((s.chanctxTable chIdx).link chandef).count.toNat = s.counts chIdx + 1 := by
      unfold Hw.counts availIdx at few
      unfold Chanctx.link Hw.counts
      rw [UInt8.toNat_add]
      apply Nat.mod_eq_of_lt
      simp only [UInt8.reduceToNat]
      omega
    constructor
    · exact h.nodup
    · exact h.few
    · intro other member
      by_cases same : other = vif
      · subst same
        simp only [Function.update_self]
        exact .inl range
      · simp only [Function.update_of_ne same]
        exact h.range other member
    · have linked := h.counted.link (c := chIdx) h.nodup here (unset ▸ notSet_range)
      rw [← more, ← counts_update rfl] at linked
      exact linked
    · intro c inside empty
      by_cases same : c = chIdx
      · subst same
        simp only [Function.update_self] at empty
        rw [← UInt8.toNat_inj, more] at empty
        cases empty
      · simp only [Function.update_of_ne same] at empty ⊢
        exact h.cleared c inside empty
    · exact h.running
    · exact h.cac
    · exact h.cacOpen
    · exact h.call
    · exact h.monitor

theorem Inv.unlink (h : Inv s) (here : vif ∈ s.vifs) : Inv (s.rwnxChanctxUnlink vif) := by
  unfold Hw.rwnxChanctxUnlink
  split
  · exact h
  · rename_i set
    have range := h.linked here set
    rw [index_inside range]
    have some : 0 < s.counts (s.chIndex vif) := h.counted.pos here range
    have nonzero : (s.chanctxTable (s.chIndex vif)).count ≠ 0 := by
      intro zero
      unfold Hw.counts at some
      rw [zero] at some
      cases some
    have less : (s.chanctxTable (s.chIndex vif)).unlink.count.toNat = s.counts (s.chIndex vif) - 1 := by
      have one : (1 : UInt8) ≤ (s.chanctxTable (s.chIndex vif)).count := by
        rw [UInt8.le_iff_toNat_le]
        exact some
      unfold Chanctx.unlink
      simp only [if_neg nonzero]
      exact UInt8.toNat_sub_of_le _ _ one
    constructor
    · exact h.nodup
    · exact h.few
    · intro other member
      by_cases same : other = vif
      · subst same
        simp only [Function.update_self]
        exact .inr trivial
      · simp only [Function.update_of_ne same]
        exact h.range other member
    · have unlinked := h.counted.unlink h.nodup here notSet_range
      rw [← less, ← counts_update rfl] at unlinked
      exact unlinked
    · intro c inside empty
      by_cases same : c = s.chIndex vif
      · subst same
        simp only [Function.update_self] at empty ⊢
        unfold Chanctx.unlink at empty ⊢
        simp only at empty ⊢
        rw [if_pos empty]
      · simp only [Function.update_of_ne same] at empty ⊢
        exact h.cleared c inside empty
    · exact h.running
    · exact h.cac
    · exact h.cacOpen
    · exact h.call
    · exact h.monitor

@[simp] theorem unlink_vifs : (s.rwnxChanctxUnlink vif).vifs = s.vifs := by
  unfold Hw.rwnxChanctxUnlink
  split
  · rfl
  · rfl

@[simp] theorem unlink_cacVif : (s.rwnxChanctxUnlink vif).cacVif = s.cacVif := by
  unfold Hw.rwnxChanctxUnlink
  split
  · rfl
  · rfl

theorem unlink_chIndex : (s.rwnxChanctxUnlink vif).chIndex vif = rwnxChNotSet := by
  unfold Hw.rwnxChanctxUnlink
  split
  · assumption
  · exact Function.update_self ..

theorem unlink_chIndex_other {other : Nat} (apart : other ≠ vif) :
    (s.rwnxChanctxUnlink vif).chIndex other = s.chIndex other := by
  unfold Hw.rwnxChanctxUnlink
  split
  · rfl
  · exact Function.update_of_ne apart ..

/-- An interface can always work in another context. -/
theorem Inv.relink (h : Inv s) (here : vif ∈ s.vifs) {chandef : Option ChanDef} :
    Inv (s.relink vif chIdx chandef) := by
  apply (h.unlink here).link
  · rwa [unlink_vifs]
  · exact .inr unlink_chIndex

theorem Inv.clearCac (h : Inv s) {work : Bool} : Inv { s with cacWork := work, cacVif := none } :=
  { h with cac := fun _ wrong => (by cases wrong), cacOpen := fun _ wrong => (by cases wrong) }

/-- The CAC ends, with its event and without its context. -/
theorem Inv.endCac (h : Inv s) (linked : s.CacLinked) (its : s.cacVif = some vif) :
    Inv { (s.index (s.chIndex vif)).rwnxChanctxUnlink vif with cacWork := false, cacVif := none } := by
  have here := h.cac vif its
  rw [index_inside (h.linked here (linked vif its))]
  exact (h.unlink here).clearCac

theorem Inv.cancelCac (h : Inv s) (linked : s.CacLinked) : Inv s.rwnxRadarCancelCac := by
  unfold Hw.rwnxRadarCancelCac
  split
  · exact h
  · rename_i vif its
    split
    · exact h.endCac linked its
    · exact h.clearCac

theorem cancelCac_cacVif : s.rwnxRadarCancelCac.cacVif = none := by
  unfold Hw.rwnxRadarCancelCac
  split
  · assumption
  · split
    · rfl
    · rfl

@[simp] theorem cancelCac_vifs : s.rwnxRadarCancelCac.vifs = s.vifs := by
  unfold Hw.rwnxRadarCancelCac
  split
  · rfl
  · split
    · exact unlink_vifs
    · rfl

theorem Inv.cacWork (h : Inv s) (linked : s.CacLinked) : Inv s.rwnxRadarCacWork := by
  unfold Hw.rwnxRadarCacWork
  split
  · exact { h with }
  · exact h.endCac linked ‹_›

theorem Inv.radarDetected (h : Inv s) (kept : Kept s .radarDetected) : Inv s.rwnxRadarDetected := by
  unfold Hw.rwnxRadarDetected
  split
  · rename_i valid
    have range : s.curChanctx < nxChanCtxtCnt := by
      have accepted := valid
      unfold Hw.rwnxChanctxValid at accepted
      grind
    rw [index_inside range]
    exact h.cancelCac (kept valid)
  · exact h

theorem Inv.interfaceAdd (h : Inv s) (fresh : vif ∉ s.vifs) (room : s.vifs.length < availIdx)
    {type : Iftype} : Inv (s.rwnxInterfaceAdd vif type) := by
  have names : ∀ other ∈ s.vifs,
      Function.update s.chIndex vif rwnxChNotSet other = s.chIndex other := by
    intro other member
    apply Function.update_of_ne
    rintro rfl
    exact fresh member
  constructor
  · exact List.nodup_cons.mpr ⟨fresh, h.nodup⟩
  · exact room
  · intro other member
    rcases List.mem_cons.mp member with rfl | member
    · exact .inr (Function.update_self ..)
    · unfold Hw.rwnxInterfaceAdd
      simp only [names other member]
      exact h.range other member
  · unfold Hw.rwnxInterfaceAdd
    apply Exact.cons
    · intro c range
      rw [refs_update_absent fresh]
      exact h.counted c range
    · simp only [Function.update_self]
      exact notSet_range
  · exact h.cleared
  · exact h.running
  · intro other its
    exact List.mem_cons_of_mem _ (h.cac other its)
  · intro other its
    have apart : other ≠ vif := by
      rintro rfl
      exact fresh (h.cac other its)
    exact (Function.update_of_ne apart ..).trans (h.cacOpen other its)
  · intro call waits
    exact List.mem_cons_of_mem _ (h.call call waits)
  · intro other its
    exact List.mem_cons_of_mem _ (h.monitor other its)

theorem Inv.open (h : Inv s) (here : vif ∈ s.vifs) : Inv (s.rwnxOpen vif) := by
  unfold Hw.rwnxOpen
  have monitor : ∀ other ∈ some vif, other ∈ s.vifs := by
    intro other same
    obtain rfl := Option.some.inj same
    exact here
  have cacOpen : ∀ other ∈ s.cacVif, Function.update s.opened vif true other = true := by
    intro other its
    by_cases same : other = vif
    · subst same
      exact Function.update_self ..
    · exact (Function.update_of_ne same ..).trans (h.cacOpen other its)
  dsimp only
  split
  · split
    · exact { h with cacOpen, monitor }
    · rename_i set
      rw [index_inside (h.linked here set)]
      exact { h with cacOpen, monitor }
  · exact { h with cacOpen }

theorem Inv.monitorOff (h : Inv s) {off : Prop} [Decidable off] :
    Inv { s with monitorVif := if off then none else s.monitorVif } := by
  refine { h with monitor := ?_ }
  intro other its
  simp only [Option.mem_def, Option.ite_none_left_eq_some] at its
  exact h.monitor other its.2

theorem Inv.close (h : Inv s) (here : vif ∈ s.vifs) (linked : s.CacLinked) {cancelFails : Bool} :
    Inv (s.rwnxClose vif cancelFails) := by
  unfold Hw.rwnxClose
  have cancelled := h.cancelCac linked
  have cacOpen : ∀ other ∈ s.rwnxRadarCancelCac.cacVif,
      Function.update s.rwnxRadarCancelCac.opened vif false other = true := by
    intro other its
    rw [cancelCac_cacVif] at its
    cases its
  have shut : Inv { s.rwnxRadarCancelCac with
      opened := Function.update s.rwnxRadarCancelCac.opened vif false } :=
    { cancelled with cacOpen }
  have still : vif ∈ s.rwnxRadarCancelCac.vifs := by
    rwa [cancelCac_vifs]
  cases cancelFails with
  | true => exact shut
  | false => exact (shut.unlink still).monitorOff

theorem Inv.remove (h : Inv s) (kept : Kept s (.remove vif)) (idle : s.call.isNone)
    (shut : s.opened vif = false) : Inv { s with vifs := s.vifs.erase vif } := by
  have still : ∀ other ∈ s.vifs, other ≠ vif → other ∈ s.vifs.erase vif := by
    intro other member different
    exact (List.mem_erase_of_ne different).mpr member
  constructor
  · exact h.nodup.erase _
  · exact (List.length_erase_le ..).trans h.few
  · intro other member
    exact h.range other (List.mem_of_mem_erase member)
  · exact h.counted.erase (kept.1 ▸ notSet_range)
  · exact h.cleared
  · exact h.running
  · intro other its
    apply still other (h.cac other its)
    rintro rfl
    cases shut.symm.trans (h.cacOpen other its)
  · exact h.cacOpen
  · intro call waits
    rw [Option.isNone_iff_eq_none.mp idle] at waits
    cases waits
  · intro other its
    apply still other (h.monitor other its)
    rintro rfl
    exact kept.2 its

theorem Inv.stopAp (h : Inv s) (here : vif ∈ s.vifs) (linked : s.CacLinked) :
    Inv (s.rwnxCfg80211StopAp vif) := by
  have still : vif ∈ s.rwnxRadarCancelCac.vifs := by
    rwa [cancelCac_vifs]
  exact { (h.cancelCac linked).unlink still with }

theorem Inv.leaveMesh (h : Inv s) (here : vif ∈ s.vifs) {error : Int} {status : Nat}
    (kept : Kept s (.leaveMesh vif error status)) :
    Inv (s.rwnxCfg80211LeaveMesh vif error status) := by
  unfold Hw.rwnxCfg80211LeaveMesh
  split
  · rename_i done
    obtain ⟨linked, apart⟩ := kept done.1 done.2
    apply (h.unlink here).cancelCac
    intro other its
    rw [unlink_cacVif] at its
    have different : other ≠ vif := by
      rintro rfl
      exact apart its
    rw [unlink_chIndex_other different]
    exact linked other its
  · exact h

theorem Inv.csaFinishInd (h : Inv s) (here : vif ∈ s.vifs) {status : Nat} :
    Inv (s.rwnxRxCsaFinishInd vif status chIdx) := by
  unfold Hw.rwnxRxCsaFinishInd
  split
  · exact { h with }
  · exact { h with }
  · split
    · exact h.relink here
    · exact h

theorem Inv.csaFinish (h : Inv s) (here : vif ∈ s.vifs) {csa : Csa} {buf : Bool}
    {sendBcn sendBcnChange : Int} : Inv (s.rwnxCsaFinish vif csa buf sendBcn sendBcnChange) := by
  unfold Hw.rwnxCsaFinish
  dsimp only
  split
  · exact { h with }
  · split
    · exact { h.relink here with }
    · exact { h with }

theorem Inv.startRadarDetection (h : Inv s) (here : vif ∈ s.vifs) (up : s.opened vif = true)
    {chandef : ChanDef} :
    Inv (s.rwnxCfg80211StartRadarDetection vif chandef) := by
  have its : ∀ other ∈ some vif, other ∈ s.vifs := by
    intro other same
    obtain rfl := Option.some.inj same
    exact here
  have cacOpen : ∀ other ∈ some vif, s.opened other = true := by
    intro other same
    obtain rfl := Option.some.inj same
    exact up
  have call : ∀ call ∈ some (Call.startCac vif chandef), call.vif ∈ s.vifs := by
    intro call same
    obtain rfl := Option.some.inj same
    exact here
  exact { h with cac := its, cacOpen, call }

theorem Inv.answered (h : Inv s) : Inv { s with call := none } :=
  { h with call := fun _ wrong => (by cases wrong) }

theorem Inv.setMonitorChannel (h : Inv s) {chandef : Option ChanDef} :
    Inv (s.rwnxCfg80211SetMonitorChannel chandef) := by
  unfold Hw.rwnxCfg80211SetMonitorChannel
  split
  · exact h
  · rename_i vif its
    have call : ∀ call ∈ some (Call.configMonitor vif), call.vif ∈ s.vifs := by
      intro call same
      obtain rfl := Option.some.inj same
      exact h.monitor vif its
    split
    · rename_i valid
      have range : s.chIndex vif < nxChanCtxtCnt := by
        unfold Hw.rwnxChanctxValid at valid
        grind
      rw [index_inside range]
      dsimp only
      split
      · exact h
      · exact { h with call }
    · exact { h with call }

theorem Inv.setMonitorChannelFinish (h : Inv s) (here : vif ∈ s.vifs) {error : Int}
    {chan : ChanDef} {others : Bool} :
    Inv (s.rwnxCfg80211SetMonitorChannelFinish vif error chIdx chan others) := by
  unfold Hw.rwnxCfg80211SetMonitorChannelFinish
  split
  · exact h.answered
  · have unlinked : Inv ({ s with call := none }.rwnxChanctxUnlink vif) := h.answered.unlink here
    dsimp only
    split
    · exact unlinked
    · apply unlinked.link
      · rwa [unlink_vifs]
      · exact .inr unlink_chIndex

end Steps

theorem inv_init : Inv init where
  nodup := List.nodup_nil
  few := Nat.zero_le _
  range := fun _ member => (by cases member)
  counted := Exact.empty
  cleared := fun _ _ _ => rfl
  running := rfl
  cac := fun _ wrong => (by cases wrong)
  cacOpen := fun _ wrong => (by cases wrong)
  call := fun _ wrong => (by cases wrong)
  monitor := fun _ wrong => (by cases wrong)

theorem Inv.step {s t : Hw} {e : Event} (h : Inv s) (kept : Kept s e) (taken : s.step e = some t) :
    Inv t := by
  cases e with
  | interfaceAdd vif type =>
      simp only [Hw.step, Option.ite_none_right_eq_some, Option.some.injEq] at taken
      obtain ⟨⟨_, fresh, room⟩, rfl⟩ := taken
      exact h.interfaceAdd fresh room
  | changeIface vif type =>
      simp only [Hw.step, Option.ite_none_right_eq_some, Option.some.injEq] at taken
      obtain ⟨_, rfl⟩ := taken
      exact { h with }
  | «open» vif =>
      simp only [Hw.step, Option.ite_none_right_eq_some, Option.some.injEq] at taken
      obtain ⟨⟨here, _⟩, rfl⟩ := taken
      exact h.open here
  | close vif cancelFails =>
      simp only [Hw.step, Option.ite_none_right_eq_some, Option.some.injEq] at taken
      obtain ⟨⟨here, _⟩, rfl⟩ := taken
      exact h.close here kept
  | remove vif =>
      simp only [Hw.step, Option.ite_none_right_eq_some, Option.some.injEq] at taken
      obtain ⟨⟨idle, _, shut⟩, rfl⟩ := taken
      exact h.remove kept idle shut
  | startAp vif error status chIdx chandef =>
      simp only [Hw.step, Option.ite_none_right_eq_some, Option.some.injEq] at taken
      obtain ⟨⟨_, here⟩, rfl⟩ := taken
      unfold Hw.rwnxCfg80211StartAp
      split
      · rename_i started
        have cleared : Inv { s with csa := Function.update s.csa vif none } := { h with }
        exact cleared.link here (kept started.1 started.2)
      · exact h
  | stopAp vif =>
      simp only [Hw.step, Option.ite_none_right_eq_some, Option.some.injEq] at taken
      obtain ⟨⟨_, here⟩, rfl⟩ := taken
      exact h.stopAp here kept
  | joinMesh vif error status chIdx chandef =>
      simp only [Hw.step, Option.ite_none_right_eq_some, Option.some.injEq] at taken
      obtain ⟨⟨_, here⟩, rfl⟩ := taken
      unfold Hw.rwnxCfg80211JoinMesh
      split
      · rename_i joined
        exact h.link here (kept joined.1 joined.2.1 joined.2.2)
      · exact h
  | leaveMesh vif error status =>
      simp only [Hw.step, Option.ite_none_right_eq_some, Option.some.injEq] at taken
      obtain ⟨⟨_, here⟩, rfl⟩ := taken
      exact h.leaveMesh here kept
  | smConnectInd vif statusCode chIdx chandef =>
      simp only [Hw.step, Option.ite_none_right_eq_some, Option.some.injEq] at taken
      obtain ⟨here, rfl⟩ := taken
      unfold Hw.rwnxRxSmConnectInd
      split
      · exact h.link here (kept ‹_›)
      · exact h
  | smDisconnectInd vif =>
      simp only [Hw.step, Option.ite_none_right_eq_some, Option.some.injEq] at taken
      obtain ⟨here, rfl⟩ := taken
      exact h.unlink here
  | meshPeerUpdateInd vif userMpm estab valid =>
      simp only [Hw.step, Option.ite_none_right_eq_some, Option.some.injEq] at taken
      obtain ⟨here, rfl⟩ := taken
      unfold Hw.rwnxRxMeshPeerUpdateInd
      split
      · rename_i new
        simp only [Bool.and_eq_true, decide_eq_true_eq, Bool.not_eq_true'] at new
        obtain ⟨⟨⟨mesh, own⟩, established⟩, unknown⟩ := new
        exact h.link here (.inr (kept mesh own established unknown))
      · exact h
  | channelSwitch vif chandef =>
      simp only [Hw.step, Option.ite_none_right_eq_some, Option.some.injEq] at taken
      obtain ⟨_, rfl⟩ := taken
      unfold Hw.rwnxCfg80211ChannelSwitch
      split
      · exact h
      · exact { h with }
  | csaFinishInd vif status chanIdx =>
      simp only [Hw.step, Option.ite_none_right_eq_some, Option.some.injEq] at taken
      obtain ⟨here, rfl⟩ := taken
      exact h.csaFinishInd here
  | csaFinish vif buf sendBcn sendBcnChange =>
      simp only [Hw.step] at taken
      split at taken
      · cases taken
      · simp only [Option.ite_none_right_eq_some, Option.some.injEq] at taken
        obtain ⟨⟨here, _⟩, rfl⟩ := taken
        exact h.csaFinish here
  | startRadarDetection vif chandef =>
      simp only [Hw.step, Option.ite_none_right_eq_some, Option.some.injEq] at taken
      obtain ⟨⟨_, here, up⟩, rfl⟩ := taken
      exact h.startRadarDetection here up
  | startCacCfm status chIdx =>
      simp only [Hw.step] at taken
      split at taken
      · rename_i vif chandef waits
        obtain rfl := Option.some.inj taken
        split
        · exact h.answered.link (h.call _ waits) (kept ‹_› _ waits)
        · exact h.answered
      · cases taken
  | cacWork =>
      simp only [Hw.step, Option.ite_none_right_eq_some, Option.some.injEq] at taken
      obtain ⟨_, rfl⟩ := taken
      exact h.cacWork kept
  | radarDetected =>
      obtain rfl := Option.some.inj taken
      exact h.radarDetected kept
  | setMonitorChannel chandef =>
      simp only [Hw.step, Option.ite_none_right_eq_some, Option.some.injEq] at taken
      obtain ⟨_, rfl⟩ := taken
      exact h.setMonitorChannel
  | configMonitorCfm error chanIndex chan others =>
      simp only [Hw.step] at taken
      split at taken
      · rename_i vif waits
        obtain rfl := Option.some.inj taken
        exact h.setMonitorChannelFinish (h.call _ waits)
      · cases taken
  | channelSwitchInd chanIdx =>
      obtain rfl := Option.some.inj taken
      exact { h with }

/-- In every run whose steps keep them so, the reference counts are sound. -/
theorem chanctx_sound {s : Hw} (run : Run.Reachable Hw.step Kept init s) : Sound s := by
  have inv : Inv s := by
    apply run.invariant Inv inv_init
    intro s e t h kept taken
    exact h.step kept taken
  exact inv.sound

instance (s : Hw) (vif : Nat) (chIdx : UInt8) : Decidable (s.Linkable vif chIdx) :=
  inferInstanceAs (Decidable (_ ∨ _))

instance (s : Hw) : Decidable s.CacLinked := inferInstanceAs (Decidable (∀ vif ∈ s.cacVif, _))

instance (s : Hw) (e : Event) : Decidable (Kept s e) :=
  match e with
  | .remove _ => inferInstanceAs (Decidable (_ ∧ _))
  | .startAp _ _ _ _ _ => inferInstanceAs (Decidable (_ → _ → _))
  | .joinMesh _ _ _ _ _ => inferInstanceAs (Decidable (_ → _ → _ → _))
  | .smConnectInd _ _ _ _ => inferInstanceAs (Decidable (_ → _))
  | .meshPeerUpdateInd _ _ _ _ => inferInstanceAs (Decidable (_ → _ → _ → _ → _))
  | .startCacCfm _ _ => inferInstanceAs (Decidable (_ → ∀ call ∈ s.call, _))
  | .leaveMesh _ _ _ => inferInstanceAs (Decidable (_ → _ → _ ∧ _))
  | .stopAp _ | .close _ _ | .cacWork => inferInstanceAs (Decidable s.CacLinked)
  | .radarDetected => inferInstanceAs (Decidable (_ → _))
  | .interfaceAdd _ _ | .changeIface _ _ | .open _ | .smDisconnectInd _ | .channelSwitch _ _
  | .csaFinishInd _ _ _ | .csaFinish _ _ _ _ | .startRadarDetection _ _ | .setMonitorChannel _
  | .configMonitorCfm _ _ _ _ | .channelSwitchInd _ => inferInstanceAs (Decidable True)

/-- The channel of the examples. -/
def channel : ChanDef := ⟨some 5180, 0, 5180, 0⟩

/-- An access point with a CAC and a channel switch, a station that is switched too, and a
    monitor. -/
def chanctxRun : List Event :=
  [.interfaceAdd 0 .ap, .open 0, .startRadarDetection 0 channel, .startCacCfm 0 1,
    .channelSwitchInd 1, .cacWork, .startAp 0 0 0 1 channel, .channelSwitch 0 channel,
    .csaFinishInd 0 0 2, .csaFinish 0 true 0 0, .interfaceAdd 1 .station, .open 1,
    .smConnectInd 1 0 2 channel, .csaFinishInd 1 0 7, .smDisconnectInd 1, .changeIface 1 .meshPoint,
    .joinMesh 1 0 0 2 channel, .leaveMesh 1 0 0, .stopAp 0, .radarDetected, .close 0 false,
    .remove 0, .changeIface 1 .monitor, .close 1 false, .open 1, .setMonitorChannel (some channel),
    .configMonitorCfm 0 1 channel false, .meshPeerUpdateInd 1 false true false]

theorem chanctx_sound_run : ∃ s, Run.exec Hw.step init chanctxRun = some s ∧ Sound s := by
  obtain ⟨s, run⟩ := Option.isSome_iff_exists.mp
    (show (Run.exec Hw.step init chanctxRun).isSome = true by decide)
  exact ⟨s, run, chanctx_sound
    (Run.Reachable.exec_guarded (fun _ _ => of_decide_eq_true) _ .init run (by decide))⟩

/-- A station that roams is linked once more, to the context of its new access point. -/
theorem roaming_counts_twice : ¬ ∀ s : Hw, Run.Reachable Hw.step Run.Free init s → Sound s := by
  intro sound
  have twice := sound _ (.exec [.interfaceAdd 0 .station, .open 0, .smConnectInd 0 0 1 channel,
    .smConnectInd 0 0 2 channel] .init rfl)
  have wrong := twice.counted 1 (by decide)
  cases wrong

end Aic8800.Cfg.Channels
