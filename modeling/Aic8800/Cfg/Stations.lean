import Aic8800.Cfg.Vifs
import Aic8800.Lib.Holders
import Aic8800.Lib.Run
import Mathlib

/-! # The table of stations

The firmware hands out the entries of the table: one for each station of an access point or
a mesh, one for the access point that an interface is connected to, one for its TDLS peer, and
one for the broadcast frames of an access point. An entry that is in use is valid and has
TX queues.
-/

namespace Aic8800.Cfg.Stations

open Lib Holders
open Vifs (Iftype nxVirtDevMax nxRemoteStaMax nxRemoteStaMaxForOldIc)

/-- The length of `sta_table`. -/
def staTableSize : UInt8 := 36

/-- `NX_NB_TXQ_PER_STA` -/
def nxNbTxqPerSta : Nat := 9

/-- `EPIPE` -/
def epipe : Int := 32

/-- A MAC address, as a number. -/
abbrev Mac := Nat

inductive ConnState where
  | disconnected | disconnecting | connecting | connected | roaming
  deriving DecidableEq

inductive TxqType where
  | bcmc | unk

/-- What an entry of the table says of its station. -/
structure Sta where
  staIdx : UInt8
  vifIdx : UInt8
  vlanIdx : UInt8
  mac : Mac

/-- The interfaces that are up, which the operations on stations leave alone. The firmware knows
    them by different indexes, and those that it handed out itself are small. -/
structure Setup where
  oldIc : Bool
  /-- `WIPHY_FLAG_SUPPORTS_TDLS` -/
  tdls : Bool
  vifs : List Nat
  iftype : Nat → Iftype
  use4addr : Nat → Bool
  vifIndex : Nat → UInt8
  distinct : ∀ vif ∈ vifs, ∀ other ∈ vifs, vifIndex vif = vifIndex other → vif = other
  small : ∀ vif ∈ vifs, iftype vif ≠ .apVlan → (vifIndex vif).toNat < nxVirtDevMax

namespace Setup

variable (dev : Setup)

/-- How many stations the firmware can have. -/
def remoteMax : Nat := if dev.oldIc then nxRemoteStaMaxForOldIc else nxRemoteStaMax

def isMulticastSta (idx : UInt8) : Bool := dev.remoteMax ≤ idx.toNat

/-- `NX_FIRST_VIF_TXQ_IDX` -/
def firstVifTxq : Nat := dev.remoteMax * nxNbTxqPerSta

def txqStaIdx (sta : Sta) (tid : Nat) : Nat :=
  if dev.isMulticastSta sta.staIdx then dev.firstVifTxq + sta.vifIdx.toNat
  else sta.staIdx.toNat * nxNbTxqPerSta + tid

/-- The queues that `foreach_sta_txq` goes through. -/
def staTxqs (sta : Sta) : List Nat :=
  List.range' (dev.txqStaIdx sta 0) (if dev.isMulticastSta sta.staIdx then 1 else nxNbTxqPerSta)

/-- `rwnx_txq_vif_idx`, for an interface that is its own master. -/
def txqVifIdx (vif : Nat) : TxqType → Nat
  | .bcmc => dev.firstVifTxq + (dev.vifIndex vif).toNat
  | .unk => dev.firstVifTxq + (dev.vifIndex vif).toNat + nxVirtDevMax

/-- The queues that an interface has for TDLS, which the driver may not support. -/
def tdlsTxqs (vif : Nat) : List Nat := if dev.tdls then [dev.txqVifIdx vif .unk] else []

/-- The interface that the firmware knows by the index. -/
def vifAt (idx : UInt8) : Option Nat := dev.vifs.find? fun vif => dev.vifIndex vif = idx

def isAp (vif : Nat) : Bool :=
  match dev.iftype vif with
  | .ap | .p2pGo => true
  | _ => false

/-- The interface has `ap` in its union, and so a list of stations. -/
def hasStaList (vif : Nat) : Bool := dev.isAp vif || dev.iftype vif = .meshPoint

/-- The interface has `sta` in its union. -/
def isStation (vif : Nat) : Bool :=
  match dev.iftype vif with
  | .station | .p2pClient => true
  | _ => false

def is4aVlan (vif : Nat) : Bool := dev.iftype vif = .apVlan && dev.use4addr vif

end Setup

/-- The result of `rwnx_send_me_sta_add`, and the confirmation. -/
structure StaAdd where
  error : Int
  status : Nat
  staIdx : UInt8

/-- The result of `rwnx_send_apm_start_req`, and the confirmation. -/
structure ApmStart where
  error : Int
  status : Nat
  bcmcIdx : UInt8

structure StaParams where
  tdlsPeer : Bool
  /-- The mask has `NL80211_STA_FLAG_AUTHORIZED`. -/
  authorized : Bool
  vlan : Option Nat

structure ConnectInd where
  vifIdx : UInt8
  statusCode : Nat
  roamed : Bool
  apIdx : UInt8
  bssid : Mac

/-- `rwnx_send_me_sta_del` has failed. -/
def staDelFailed (error : Int) : Bool := error ≠ 0 && error ≠ -epipe

structure Hw where
  valid : UInt8 → Bool
  sta : UInt8 → Sta
  staList : Nat → List UInt8
  staAp : Nat → Option UInt8
  tdlsSta : Nat → Option UInt8
  sta4a : Nat → Option UInt8
  bcmcIndex : Nat → UInt8
  /-- The access point of the interface has been started, as cfg80211 keeps it. -/
  started : Nat → Bool
  connState : Nat → ConnState
  isRoam : Nat → Bool
  /-- Nothing for a queue that is inactive, else the station that it is for. -/
  txq : Nat → Option (Option UInt8)
  addingSta : Bool
  /-- The table was indexed out of range, or the wrong part of a union was used. -/
  fault : Bool

/-- What happens, with what fails and what the firmware answers. What a deletion returns is given
    for each station. -/
inductive Event where
  | addStation (vif : Nat) (tdlsPeer : Bool) (mac : Mac) (cfm : StaAdd)
  | delStation (vif : Nat) (mac : Option Mac) (del : UInt8 → Int)
  | changeStation (vif : Nat) (mac : Mac) (params : StaParams) (cfm : StaAdd)
  | tdlsDisableLink (vif : Nat) (peer : Mac) (del : Int)
  | startAp (vif : Nat) (workqueue : Bool) (cfm : ApmStart)
  | stopAp (vif : Nat) (del : UInt8 → Int)
  | staloss (vifIdx : UInt8) (mac : Mac)
  | connectInd (ind : ConnectInd)
  | disconnectInd (vifIdx : UInt8)
  /-- The rest of the driver moves the connection on. -/
  | connection (vif : Nat) (connState : ConnState) (isRoam : Bool)

namespace Hw

variable (dev : Setup) (s : Hw)

/-- The first valid entry with the address. -/
def rwnxGetSta (mac : Mac) : Option UInt8 :=
  ((List.range nxRemoteStaMax).map UInt8.ofNat).find? fun i => s.valid i && (s.sta i).mac = mac

/-- The first station of the list with the address. -/
def listedSta (vif : Nat) (mac : Mac) : Option UInt8 :=
  (s.staList vif).find? fun i => (s.sta i).mac = mac

def setTxqs (qs : List Nat) (txq : Option (Option UInt8)) : Hw :=
  { s with txq := fun q => if q ∈ qs then txq else s.txq q }

def txqStaInit (i : UInt8) : Hw := s.setTxqs (dev.staTxqs (s.sta i)) (some (some i))

def txqStaDeinit (i : UInt8) : Hw := s.setTxqs (dev.staTxqs (s.sta i)) none

def txqVifInit (vif : Nat) : Hw :=
  (s.setTxqs [dev.txqVifIdx vif .bcmc] (some (some (s.bcmcIndex vif)))).setTxqs
    [dev.txqVifIdx vif .unk] (some none)

def txqVifDeinit (vif : Nat) : Hw :=
  (s.setTxqs [dev.txqVifIdx vif .bcmc] none).setTxqs [dev.txqVifIdx vif .unk] none

def txqTdlsVifInit (vif : Nat) : Hw := s.setTxqs (dev.tdlsTxqs vif) (some none)

def txqTdlsVifDeinit (vif : Nat) : Hw := s.setTxqs (dev.tdlsTxqs vif) none

/-- What a new station leaves in its entry. -/
def fill (i : UInt8) (vif : Nat) (mac : Mac) : Hw :=
  { s with
    sta := Function.update s.sta i ⟨i, dev.vifIndex vif, dev.vifIndex vif, mac⟩
    fault := s.fault || staTableSize ≤ i }

/-- The part of `rwnx_cfg80211_add_station` for a station that the firmware has added. -/
def addSta (vif : Nat) (i : UInt8) (mac : Mac) : Hw :=
  let s := (s.fill dev i vif mac).txqStaInit dev i
  { s with
    staList := Function.update s.staList vif (s.staList vif ++ [i])
    valid := Function.update s.valid i true
    fault := s.fault || !dev.hasStaList vif }

def rwnxCfg80211AddStation (vif : Nat) (tdlsPeer : Bool) (mac : Mac) (cfm : StaAdd) : Hw :=
  if tdlsPeer then s
  else
    let s := { s with addingSta := true }
    if cfm.error ≠ 0 then s
    else
      let s := if cfm.status = 0 then s.addSta dev vif cfm.staIdx mac else s
      { s with addingSta := false }

/-- A station that was in a VLAN is not the one of the VLAN any more. -/
def leaveVlan (i : UInt8) : Option Hw :=
  if (s.sta i).vifIdx = (s.sta i).vlanIdx then some s
  else
    (dev.vifAt (s.sta i).vlanIdx).map fun vlan =>
      if dev.is4aVlan vlan then { s with sta4a := Function.update s.sta4a vlan none } else s

/-- What deleting a station does to its entry, whether or not the firmware is then told. -/
def removeSta (vif : Nat) (i : UInt8) : Option Hw :=
  let s :=
    { s with
      valid := Function.update s.valid i false
      staList := Function.update s.staList vif ((s.staList vif).erase i) }
  (s.leaveVlan dev i).map fun s => s.txqStaDeinit dev i

/-- The stations are deleted one after the other, until the firmware can not be told. -/
def delEach (vif : Nat) (del : UInt8 → Int) : List UInt8 → Hw → Option Hw
  | [], s => some s
  | cur :: rest, s =>
      (s.removeSta dev vif cur).bind fun s =>
        if staDelFailed (del cur) then some s else delEach vif del rest s

/-- `rwnx_cfg80211_del_station_compat`. Without an address the loop takes the first of the list
    until there is none. -/
def rwnxCfg80211DelStation (vif : Nat) (mac : Option Mac) (del : UInt8 → Int) : Option Hw :=
  if dev.hasStaList vif then
    match mac with
    | none => delEach dev vif del (s.staList vif) s
    | some mac =>
        match s.listedSta vif mac with
        | none => some s
        | some cur => s.removeSta dev vif cur
  else some { s with fault := true }

def apmStalossWorkProcess (vifIdx : UInt8) (mac : Mac) : Option Hw :=
  match dev.vifAt vifIdx with
  | none => some s
  | some vif =>
      if dev.isAp vif then
        match s.listedSta vif mac with
        | none => some s
        | some cur => s.removeSta dev vif cur
      else some s

/-- The part of `rwnx_cfg80211_change_station` that moves the station to a VLAN. -/
def switchVlan (i : UInt8) (vlan : Nat) : Option Hw :=
  if (s.sta i).vlanIdx = dev.vifIndex vlan then some s
  else
    (dev.vifAt (s.sta i).vlanIdx).map fun old =>
      let sta4a := if dev.is4aVlan vlan then Function.update s.sta4a vlan (some i) else s.sta4a
      { s with
        sta := Function.update s.sta i { s.sta i with vlanIdx := dev.vifIndex vlan }
        sta4a := if dev.is4aVlan old then Function.update sta4a old none else sta4a }

def changeSta (i : UInt8) (params : StaParams) : Option Hw :=
  match params.vlan with
  | none => some s
  | some vlan => s.switchVlan dev i vlan

/-- The part of `rwnx_cfg80211_change_station` for a TDLS peer that the firmware has added. -/
def addTdlsSta (vif : Nat) (i : UInt8) (mac : Mac) : Hw :=
  let s := (s.fill dev i vif mac).txqStaInit dev i
  { s with
    tdlsSta := Function.update s.tdlsSta vif (some i)
    valid := Function.update s.valid i true
    fault := s.fault || !dev.isStation vif }

def rwnxCfg80211ChangeStation (vif : Nat) (mac : Mac) (params : StaParams) (cfm : StaAdd) :
    Option Hw :=
  match s.rwnxGetSta mac with
  | some i => s.changeSta dev i params
  | none =>
      if params.tdlsPeer then
        let s := { s with addingSta := true }
        if cfm.error ≠ 0 then some s
        else if cfm.status = 0 then
          changeSta dev { s.addTdlsSta dev vif cfm.staIdx mac with addingSta := false } cfm.staIdx
            params
        -- the station that could not be added is a null pointer in what follows
        else if params.authorized || params.vlan.isSome then none
        else some { s with addingSta := false }
      else some s

/-- `rwnx_cfg80211_tdls_oper` with `NL80211_TDLS_DISABLE_LINK`. The source has it between `#if 0`
    and `#endif`, so that no build calls it; what is shown of runs holds with it too. -/
def rwnxCfg80211TdlsOper (vif : Nat) (peer : Mac) (del : Int) : Hw :=
  if dev.isStation vif then
    match s.tdlsSta vif with
    | none => s
    | some i =>
        if (s.sta i).mac = peer then
          let s := { s with valid := Function.update s.valid i false }.txqStaDeinit dev i
          if staDelFailed del then s
          else { s with tdlsSta := Function.update s.tdlsSta vif none }
        else s
  else { s with fault := true }

/-- The part of `rwnx_cfg80211_start_ap` for an access point that the firmware has started. -/
def startBcmc (vif : Nat) (i : UInt8) : Hw :=
  let s :=
    { s with
      bcmcIndex := Function.update s.bcmcIndex vif i
      valid := Function.update s.valid i true
      sta := Function.update s.sta i { s.sta i with staIdx := i, vifIdx := dev.vifIndex vif }
      started := Function.update s.started vif true
      fault := s.fault || staTableSize ≤ i }
  s.txqVifInit dev vif

def rwnxCfg80211StartAp (vif : Nat) (workqueue : Bool) (cfm : ApmStart) : Hw :=
  if workqueue && cfm.error = 0 && cfm.status = 0 then s.startBcmc dev vif cfm.bcmcIdx else s

/-- The loop of `rwnx_cfg80211_stop_ap`, which deletes stations until there is none. -/
def drain (vif : Nat) (del : UInt8 → Int) : Nat → Hw → Option Hw
  | 0, s => some s
  | n + 1, s =>
      if s.staList vif = [] then some s
      else (s.rwnxCfg80211DelStation dev vif none del).bind (drain vif del n)

def rwnxCfg80211StopAp (vif : Nat) (del : UInt8 → Int) : Option Hw :=
  (drain dev vif del (s.staList vif).length s).map fun s =>
    { s.txqVifDeinit dev vif with started := Function.update s.started vif false }

/-- What `rwnx_rx_sm_connect_ind` does for the access point that it is connected to now. -/
def connectAp (vif : Nat) (ind : ConnectInd) : Hw :=
  let s := s.fill dev ind.apIdx vif ind.bssid
  let s :=
    { s with
      valid := Function.update s.valid ind.apIdx true
      staAp := Function.update s.staAp vif (some ind.apIdx) }
  (s.txqStaInit dev ind.apIdx).txqTdlsVifInit dev vif

/-- The state of the connection after `rwnx_rx_sm_connect_ind`. -/
def nextConnState (vif : Nat) (ind : ConnectInd) : ConnState :=
  if ind.statusCode ≠ 0 then .disconnected
  else if s.connState vif = .disconnecting then .disconnecting
  else .connected

def rwnxRxSmConnectInd (ind : ConnectInd) : Hw :=
  match dev.vifAt ind.vifIdx with
  | none => s
  | some vif =>
      if dev.isStation vif then
        let next := s.nextConnState vif ind
        let s := if ind.statusCode = 0 then s.connectAp dev vif ind else s
        { s with
          connState := Function.update s.connState vif next
          isRoam := Function.update s.isRoam vif false }
      else { s with fault := true }

def rwnxRxSmDisconnectInd (vifIdx : UInt8) : Option Hw :=
  match dev.vifAt vifIdx with
  -- the state is read before the pointer is checked
  | none => none
  | some vif =>
      if s.connState vif = .disconnected then some s
      -- `BUG()`
      else if dev.isAp vif then none
      else if dev.isStation vif then
        (s.staAp vif).map fun i =>
          let s := (s.txqStaDeinit dev i).txqTdlsVifDeinit dev vif
          { s with
            valid := Function.update s.valid i false
            staAp := Function.update s.staAp vif none
            connState :=
              if s.isRoam vif then s.connState
              else Function.update s.connState vif .disconnected }
      else some { s with fault := true }

/-- What the events do. There is no next state when cfg80211 does not call the operation, and when
    a null pointer is followed. -/
def step (e : Event) : Option Hw :=
  match e with
  | .addStation vif tdlsPeer mac cfm =>
      if vif ∈ dev.vifs then some (s.rwnxCfg80211AddStation dev vif tdlsPeer mac cfm) else none
  | .delStation vif mac del =>
      if vif ∈ dev.vifs then s.rwnxCfg80211DelStation dev vif mac del else none
  | .changeStation vif mac params cfm =>
      if vif ∈ dev.vifs ∧ ∀ vlan ∈ params.vlan, vlan ∈ dev.vifs then
        s.rwnxCfg80211ChangeStation dev vif mac params cfm
      else none
  | .tdlsDisableLink vif peer del =>
      if vif ∈ dev.vifs then some (s.rwnxCfg80211TdlsOper dev vif peer del) else none
  | .startAp vif workqueue cfm =>
      if vif ∈ dev.vifs ∧ dev.isAp vif = true ∧ s.started vif = false then
        some (s.rwnxCfg80211StartAp dev vif workqueue cfm)
      else none
  | .stopAp vif del =>
      if vif ∈ dev.vifs ∧ s.started vif = true then s.rwnxCfg80211StopAp dev vif del else none
  | .staloss vifIdx mac => s.apmStalossWorkProcess dev vifIdx mac
  | .connectInd ind => some (s.rwnxRxSmConnectInd dev ind)
  | .disconnectInd vifIdx => s.rwnxRxSmDisconnectInd dev vifIdx
  | .connection vif connState isRoam =>
      some { s with
        connState := Function.update s.connState vif connState
        isRoam := Function.update s.isRoam vif isRoam }

end Hw

def init : Hw where
  valid := fun _ => false
  sta := fun _ => ⟨0, 0, 0, 0⟩
  staList := fun _ => []
  staAp := fun _ => none
  tdlsSta := fun _ => none
  sta4a := fun _ => none
  bcmcIndex := fun _ => 0
  started := fun _ => false
  connState := fun _ => .disconnected
  isRoam := fun _ => false
  txq := fun _ => none
  addingSta := false
  fault := false

/-- The table, the lists, the pointers and the queues agree, and no station is being added. -/
structure Sound (dev : Setup) (s : Hw) : Prop where
  valid : ∀ i, s.valid i = true ↔
    (∃ vif, i ∈ s.staList vif) ∨ (∃ vif, s.staAp vif = some i ∨ s.tdlsSta vif = some i) ∨
      ∃ vif, s.started vif = true ∧ s.bcmcIndex vif = i
  initialised : ∀ i, s.valid i = true → ∀ q ∈ dev.staTxqs (s.sta i), s.txq q = some (some i)
  inactive : ∀ i, s.valid i = false → ∀ q, s.txq q ≠ some (some i)
  nodup : ∀ vif, (s.staList vif).Nodup
  apart : ∀ vif other i, i ∈ s.staList vif → i ∈ s.staList other → vif = other
  adding : s.addingSta = false
  intact : s.fault = false

/-- An entry that the table has for a station, and that is not in use. -/
def Hw.FreeSta (dev : Setup) (s : Hw) (i : UInt8) : Prop :=
  i.toNat < dev.remoteMax ∧ s.valid i = false

/-- An entry that the table has for broadcast frames, and that is not in use. -/
def Hw.FreeBcmc (dev : Setup) (s : Hw) (i : UInt8) : Prop :=
  dev.remoteMax ≤ i.toNat ∧ i < staTableSize ∧ s.valid i = false

/-- The steps that keep the table sound.
    - The request to add a station is sent, and the firmware gives out entries that are free and
      of the right part of the table.
    - An interface gets no second TDLS peer, and a peer that goes away is one that the firmware
      can be told about.
    - An interface that is connected is not connected to another access point.
    - No access point is stopped.
    - The operations are about interfaces of the kind that they are for. -/
def Kept (dev : Setup) (s : Hw) : Event → Prop
  | .addStation vif tdlsPeer _ cfm =>
      tdlsPeer = false →
        cfm.error = 0 ∧ (cfm.status = 0 → dev.hasStaList vif = true ∧ s.FreeSta dev cfm.staIdx)
  | .delStation vif _ _ => dev.hasStaList vif = true
  | .changeStation vif mac params cfm =>
      s.rwnxGetSta mac = none → params.tdlsPeer = true →
        cfm.error = 0 ∧ (cfm.status = 0 →
          dev.isStation vif = true ∧ s.FreeSta dev cfm.staIdx ∧ s.tdlsSta vif = none)
  | .tdlsDisableLink vif peer del =>
      dev.isStation vif = true ∧
        ∀ i ∈ s.tdlsSta vif, (s.sta i).mac = peer → staDelFailed del = false
  | .startAp _ workqueue cfm =>
      workqueue = true → cfm.error = 0 → cfm.status = 0 → s.FreeBcmc dev cfm.bcmcIdx
  | .stopAp .. => False
  | .connectInd ind =>
      ∀ vif ∈ dev.vifAt ind.vifIdx, dev.isStation vif = true ∧ (ind.statusCode = 0 →
        s.staAp vif = none ∧ s.FreeSta dev ind.apIdx ∨ s.staAp vif = some ind.apIdx)
  | .disconnectInd vifIdx =>
      ∀ vif ∈ dev.vifAt vifIdx, s.connState vif ≠ .disconnected → dev.isStation vif = true
  | _ => True

/-! ## The invariant -/

/-- Who holds an entry of the table. -/
inductive Holder where
  | list (vif : Nat)
  | ap (vif : Nat)
  | tdls (vif : Nat)
  | bcmc (vif : Nat)

def Hw.Holds (s : Hw) : Holder → UInt8 → Prop
  | .list vif, i => i ∈ s.staList vif
  | .ap vif, i => s.staAp vif = some i
  | .tdls vif, i => s.tdlsSta vif = some i
  | .bcmc vif, i => s.started vif = true ∧ s.bcmcIndex vif = i

/-- The entry is of the part of the table that is for such a holder. -/
def Setup.Fits (dev : Setup) (sta : Sta) : Holder → UInt8 → Prop
  | .bcmc vif, i =>
      dev.remoteMax ≤ i.toNat ∧ vif ∈ dev.vifs ∧ dev.isAp vif = true ∧ sta.vifIdx = dev.vifIndex vif
  | _, i => i.toNat < dev.remoteMax

/-- The station that a queue is for. -/
def Hw.lease (s : Hw) (q : Nat) : Option UInt8 := (s.txq q).join

structure Inv (dev : Setup) (s : Hw) : Prop where
  tracked : Tracked s.valid s.Holds
  leased : Leased s.valid (fun i => dev.staTxqs (s.sta i)) s.lease
  staIdx : ∀ i, s.valid i = true → (s.sta i).staIdx = i
  fits : ∀ h i, s.Holds h i → dev.Fits (s.sta i) h i
  nodup : ∀ vif, (s.staList vif).Nodup
  adding : s.addingSta = false
  intact : s.fault = false

theorem Inv.sound {dev : Setup} {s : Hw} (h : Inv dev s) : Sound dev s where
  valid := by
    intro i
    rw [h.tracked.held]
    constructor
    · rintro ⟨holder, holds⟩
      cases holder with
      | list vif => exact .inl ⟨vif, holds⟩
      | ap vif => exact .inr (.inl ⟨vif, .inl holds⟩)
      | tdls vif => exact .inr (.inl ⟨vif, .inr holds⟩)
      | bcmc vif => exact .inr (.inr ⟨vif, holds⟩)
    · rintro (⟨vif, listed⟩ | ⟨vif, isAp | isPeer⟩ | ⟨vif, isBcmc⟩)
      · exact ⟨.list vif, listed⟩
      · exact ⟨.ap vif, isAp⟩
      · exact ⟨.tdls vif, isPeer⟩
      · exact ⟨.bcmc vif, isBcmc⟩
  initialised := by
    intro i used q own
    exact Option.join_eq_some_iff.mp ((h.leased q i).mpr ⟨used, own⟩)
  inactive := by
    intro i free q given
    have used := ((h.leased q i).mp (Option.join_eq_some_iff.mpr given)).1
    cases free.symm.trans used
  nodup := h.nodup
  apart := by
    intro vif other i here there
    have same : Holder.list vif = .list other := h.tracked.exclusive (i := i) here there
    cases same
    rfl
  adding := h.adding
  intact := h.intact

/-! ## The queues -/

section Queues

variable {dev : Setup} {s : Hw} {sta : Sta} {vif other : Nat} {i j : UInt8} {q : Nat}

theorem Setup.staTxqs_small (small : sta.staIdx.toNat < dev.remoteMax) :
    dev.staTxqs sta = List.range' (sta.staIdx.toNat * nxNbTxqPerSta) nxNbTxqPerSta := by
  have unicast : dev.isMulticastSta sta.staIdx = false := by simp [Setup.isMulticastSta, small]
  simp [Setup.staTxqs, Setup.txqStaIdx, unicast]

theorem Setup.mem_staTxqs_small (small : sta.staIdx.toNat < dev.remoteMax) :
    q ∈ dev.staTxqs sta ↔
      sta.staIdx.toNat * nxNbTxqPerSta ≤ q ∧ q < sta.staIdx.toNat * nxNbTxqPerSta + nxNbTxqPerSta := by
  rw [Setup.staTxqs_small small, List.mem_range'_1]

/-- The entry of the broadcast frames has one queue, the first of its interface. -/
theorem Setup.mem_staTxqs_large (large : dev.remoteMax ≤ sta.staIdx.toNat)
    (owner : sta.vifIdx = dev.vifIndex vif) :
    q ∈ dev.staTxqs sta ↔ q = dev.txqVifIdx vif .bcmc := by
  have multicast : dev.isMulticastSta sta.staIdx = true := by simp [Setup.isMulticastSta, large]
  simp only [Setup.staTxqs, Setup.txqStaIdx, Setup.txqVifIdx, multicast, if_true, owner,
    List.mem_range'_1]
  omega

/-- The queues of the stations come before those of the interfaces. -/
theorem Setup.staTxqs_lt (small : sta.staIdx.toNat < dev.remoteMax) (own : q ∈ dev.staTxqs sta) :
    q < dev.firstVifTxq := by
  have bound := ((Setup.mem_staTxqs_small small).mp own).2
  unfold Setup.firstVifTxq
  unfold nxNbTxqPerSta at bound ⊢
  omega

theorem Setup.firstVifTxq_le (type : TxqType) : dev.firstVifTxq ≤ dev.txqVifIdx vif type := by
  cases type with
  | bcmc => exact Nat.le_add_right ..
  | unk => exact (Nat.le_add_right ..).trans (Nat.le_add_right ..)

theorem Setup.isAp_ne_vlan (isAp : dev.isAp vif = true) : dev.iftype vif ≠ .apVlan := by
  intro vlan
  simp [Setup.isAp, vlan] at isAp

/-- The two queues of an interface are not those of another. -/
theorem Setup.unk_ne_bcmc (here : other ∈ dev.vifs) (isAp : dev.isAp other = true) :
    dev.txqVifIdx vif .unk ≠ dev.txqVifIdx other .bcmc := by
  have bound := dev.small other here (dev.isAp_ne_vlan isAp)
  simp only [Setup.txqVifIdx]
  omega

/-- An entry in use is held by a station, or its one queue is that of an access point. -/
theorem Inv.cases (h : Inv dev s) (used : s.valid i = true) :
    (i.toNat < dev.remoteMax ∧ ∀ q ∈ dev.staTxqs (s.sta i), q < dev.firstVifTxq) ∨
      ∃ vif ∈ dev.vifs, dev.isAp vif = true ∧ s.Holds (.bcmc vif) i ∧
        ∀ q, q ∈ dev.staTxqs (s.sta i) ↔ q = dev.txqVifIdx vif .bcmc := by
  obtain ⟨holder, holds⟩ := (h.tracked.held i).mp used
  have fits := h.fits holder i holds
  have own := h.staIdx i used
  have before : i.toNat < dev.remoteMax → ∀ q ∈ dev.staTxqs (s.sta i), q < dev.firstVifTxq :=
    fun small q => Setup.staTxqs_lt (by rwa [own])
  cases holder with
  | list vif => exact .inl ⟨fits, before fits⟩
  | ap vif => exact .inl ⟨fits, before fits⟩
  | tdls vif => exact .inl ⟨fits, before fits⟩
  | bcmc vif =>
      obtain ⟨large, here, isAp, owner⟩ := fits
      refine .inr ⟨vif, here, isAp, holds, fun q => ?_⟩
      exact Setup.mem_staTxqs_large (by rwa [own]) owner

/-- The queue for the frames to unknown stations is not for a station. -/
theorem Inv.unk_unused (h : Inv dev s) : s.lease (dev.txqVifIdx vif .unk) = none := by
  apply h.leased.unused
  intro j used own
  rcases h.cases used with ⟨_, before⟩ | ⟨other, here, isAp, _, only⟩
  · exact absurd (before _ own) (Nat.not_lt.mpr (dev.firstVifTxq_le .unk))
  · exact dev.unk_ne_bcmc here isAp ((only _).mp own)

theorem Inv.tdls_unused (h : Inv dev s) : ∀ q ∈ dev.tdlsTxqs vif, s.lease q = none := by
  intro q member
  unfold Setup.tdlsTxqs at member
  split at member
  · rw [List.mem_singleton.mp member]
    exact h.unk_unused
  · cases member

/-- An access point that is not started does not use its queue. -/
theorem Inv.bcmc_unused (h : Inv dev s) (here : vif ∈ dev.vifs) (off : s.started vif = false) :
    s.lease (dev.txqVifIdx vif .bcmc) = none := by
  apply h.leased.unused
  intro j used own
  rcases h.cases used with ⟨_, before⟩ | ⟨other, there, _, on, only⟩
  · exact absurd (before _ own) (Nat.not_lt.mpr (dev.firstVifTxq_le .bcmc))
  · have indexes : dev.vifIndex vif = dev.vifIndex other := by
      have same := (only _).mp own
      simp only [Setup.txqVifIdx, Nat.add_left_cancel_iff] at same
      exact UInt8.toNat_inj.mp same
    obtain rfl := dev.distinct vif here other there indexes
    cases off.symm.trans on.1

/-- The queues that a station is given were not used. -/
theorem Inv.sta_unused (h : Inv dev s) (free : s.FreeSta dev i) (its : sta.staIdx = i)
    (own : q ∈ dev.staTxqs sta) : s.lease q = none := by
  obtain ⟨small, unused⟩ := free
  have smallIdx : sta.staIdx.toNat < dev.remoteMax := by rwa [its]
  apply h.leased.unused
  intro j used own'
  rcases h.cases used with ⟨small', _⟩ | ⟨other, _, _, _, only⟩
  · have idx := h.staIdx j used
    have mine := (Setup.mem_staTxqs_small smallIdx).mp own
    have theirs := (Setup.mem_staTxqs_small (by rwa [idx])).mp own'
    rw [its] at mine
    rw [idx] at theirs
    have same : j = i := by
      apply UInt8.toNat_inj.mp
      unfold nxNbTxqPerSta at mine theirs
      omega
    subst same
    cases unused.symm.trans used
  · have before := Setup.staTxqs_lt smallIdx own
    rw [(only q).mp own'] at before
    exact absurd before (Nat.not_lt.mpr (dev.firstVifTxq_le .bcmc))

end Queues

/-! ## What an operation does to one entry -/

/-- The entry, which was free, has the holder and its queues now. -/
structure Took (dev : Setup) (s t : Hw) (h : Holder) (i : UInt8) : Prop where
  valid : t.valid = Function.update s.valid i true
  sta : ∀ j, j ≠ i → t.sta j = s.sta j
  staIdx : (t.sta i).staIdx = i
  holds : ∀ k j, t.Holds k j ↔ s.Holds k j ∨ k = h ∧ j = i
  fits : dev.Fits (t.sta i) h i
  nodup : ∀ vif, (t.staList vif).Nodup
  unused : ∀ q ∈ dev.staTxqs (t.sta i), s.lease q = none
  lease : ∀ q, t.lease q = if q ∈ dev.staTxqs (t.sta i) then some i else s.lease q
  adding : t.addingSta = false
  intact : t.fault = false

/-- The holder has given the entry back, and its queues. -/
structure Dropped (dev : Setup) (s t : Hw) (h : Holder) (i : UInt8) : Prop where
  valid : t.valid = Function.update s.valid i false
  sta : t.sta = s.sta
  holds : ∀ k j, t.Holds k j ↔ s.Holds k j ∧ ¬ (k = h ∧ j = i)
  nodup : ∀ vif, (t.staList vif).Nodup
  lease : ∀ q, t.lease q = if q ∈ dev.staTxqs (s.sta i) then none else s.lease q
  adding : t.addingSta = s.addingSta
  intact : t.fault = s.fault

section Entry

variable {dev : Setup} {s t : Hw} {holder : Holder} {vif : Nat} {i : UInt8} {q : Nat}

theorem Inv.took (h : Inv dev s) (free : s.valid i = false) (took : Took dev s t holder i) :
    Inv dev t where
  tracked := by
    rw [took.valid]
    exact h.tracked.take free took.holds
  leased := by
    rw [took.valid]
    apply h.leased.take free
    · intro j other
      rw [took.sta j other]
    · exact took.unused
    · exact took.lease
  staIdx := by
    intro j used
    by_cases same : j = i
    · subst same
      exact took.staIdx
    · rw [took.valid, Function.update_of_ne same] at used
      rw [took.sta j same]
      exact h.staIdx j used
  fits := by
    intro k j holds
    rcases (took.holds k j).mp holds with before | ⟨rfl, rfl⟩
    · have other : j ≠ i := by
        rintro rfl
        exact h.tracked.not_holds free before
      rw [took.sta j other]
      exact h.fits k j before
    · exact took.fits
  nodup := took.nodup
  adding := took.adding
  intact := took.intact

theorem Inv.dropped (h : Inv dev s) (holds : s.Holds holder i) (dropped : Dropped dev s t holder i) :
    Inv dev t where
  tracked := by
    rw [dropped.valid]
    exact h.tracked.drop holds dropped.holds
  leased := by
    rw [dropped.valid, dropped.sta]
    exact h.leased.drop (h.tracked.valid_of_holds holds) dropped.lease
  staIdx := by
    intro j used
    rw [dropped.sta]
    by_cases same : j = i
    · subst same
      exact h.staIdx j (h.tracked.valid_of_holds holds)
    · rw [dropped.valid, Function.update_of_ne same] at used
      exact h.staIdx j used
  fits := by
    intro k j still
    rw [dropped.sta]
    exact h.fits k j ((dropped.holds k j).mp still).1
  nodup := dropped.nodup
  adding := dropped.adding.trans h.adding
  intact := dropped.intact.trans h.intact

theorem lease_setTxqs {qs : List Nat} {txq : Option (Option UInt8)} :
    (s.setTxqs qs txq).lease q = if q ∈ qs then txq.join else s.lease q := by
  simp only [Hw.lease, Hw.setTxqs]
  split
  · rfl
  · rfl

/-- What is done to a queue that is for no station does not matter to the stations. -/
theorem lease_unk {qs : List Nat} {txq : Option (Option UInt8)} (nobody : txq.join = none)
    (unused : ∀ q ∈ qs, s.lease q = none) : (s.setTxqs qs txq).lease q = s.lease q := by
  rw [lease_setTxqs]
  split
  · rename_i member
    rw [nobody, unused q member]
  · rfl

/-- An entry for a station is one that the table has. -/
theorem small_inTable (small : i.toNat < dev.remoteMax) : ¬ staTableSize ≤ i := by
  have bound : dev.remoteMax ≤ 32 := by
    unfold Setup.remoteMax nxRemoteStaMaxForOldIc nxRemoteStaMax
    split
    · omega
    · omega
  rw [UInt8.le_iff_toNat_le]
  simp only [staTableSize, UInt8.reduceToNat]
  omega

end Entry

/-! ## The operations -/

section Operations

variable {dev : Setup} {s t : Hw} {vif vlan : Nat} {i : UInt8} {mac : Mac}

/-- The entry that `fill` leaves, with its queues. -/
theorem lease_fill {q : Nat} : ((s.fill dev i vif mac).txqStaInit dev i).lease q =
    if q ∈ dev.staTxqs ((s.fill dev i vif mac).sta i) then some i else s.lease q := lease_setTxqs

theorem sta_fill : (s.fill dev i vif mac).sta i = ⟨i, dev.vifIndex vif, dev.vifIndex vif, mac⟩ :=
  Function.update_self ..

/-- A holder that takes nothing. -/
theorem not_taking {p : Prop} {k l : Holder} {j : UInt8} (other : k ≠ l) :
    p ↔ p ∨ k = l ∧ j = i := by simp [other]

theorem Inv.addSta (h : Inv dev s) (kind : dev.hasStaList vif = true) (free : s.FreeSta dev i) :
    Inv dev { s.addSta dev vif i mac with addingSta := false } := by
  have fresh : ¬ s.Holds (.list vif) i := h.tracked.not_holds free.2
  have took : Took dev s { s.addSta dev vif i mac with addingSta := false } (.list vif) i := by
    constructor
    · rfl
    · exact fun j other => Function.update_of_ne other ..
    · exact congrArg Sta.staIdx sta_fill
    · intro k j
      cases k with
      | list v =>
          by_cases same : v = vif
          · subst same
            simp [Hw.Holds, Hw.addSta, Hw.fill, Hw.txqStaInit, Hw.setTxqs]
          · simp [Hw.Holds, Hw.addSta, Hw.fill, Hw.txqStaInit, Hw.setTxqs, same]
      | ap v => exact not_taking nofun
      | tdls v => exact not_taking nofun
      | bcmc v => exact not_taking nofun
    · exact free.1
    · intro v
      by_cases same : v = vif
      · subst same
        have lists : (s.addSta dev v i mac).staList v = s.staList v ++ [i] := Function.update_self ..
        simpa [lists] using (h.nodup v).concat fresh
      · simp only [Hw.addSta, Function.update_of_ne same]
        exact h.nodup v
    · intro q own
      exact h.sta_unused free (congrArg Sta.staIdx sta_fill) own
    · exact fun q => lease_fill
    · rfl
    · simp [Hw.addSta, Hw.txqStaInit, Hw.setTxqs, Hw.fill, h.intact, kind, small_inTable free.1]
  exact h.took free.2 took

theorem Inv.rwnxCfg80211AddStation (h : Inv dev s) {tdlsPeer : Bool} {cfm : StaAdd}
    (kept : Kept dev s (.addStation vif tdlsPeer mac cfm)) :
    Inv dev (s.rwnxCfg80211AddStation dev vif tdlsPeer mac cfm) := by
  unfold Hw.rwnxCfg80211AddStation
  dsimp only
  split
  · exact h
  · rename_i other
    obtain ⟨sent, added⟩ := kept (by simpa using other)
    rw [if_neg (not_not_intro sent)]
    split
    · rename_i ok
      obtain ⟨kind, free⟩ := added ok
      exact h.addSta kind free
    · exact { h with adding := rfl }

/-- An operation that changes only what the VLANs lead to. -/
theorem Inv.setSta4a (h : Inv dev s) {sta4a : Nat → Option UInt8} :
    Inv dev { s with sta4a := sta4a } :=
  { h with }

theorem Inv.setVlanIdx (h : Inv dev s) {vlanIdx : UInt8} :
    Inv dev { s with sta := Function.update s.sta i { s.sta i with vlanIdx := vlanIdx } } := by
  have queues : ∀ j, dev.staTxqs (Function.update s.sta i { s.sta i with vlanIdx := vlanIdx } j) =
      dev.staTxqs (s.sta j) := by
    intro j
    by_cases same : j = i
    · subst same
      rw [Function.update_self]
      rfl
    · rw [Function.update_of_ne same]
  refine { h with leased := ?_, staIdx := ?_, fits := ?_ }
  · intro q j
    have given : s.lease q = some j ↔ s.valid j = true ∧ q ∈ dev.staTxqs (s.sta j) := h.leased q j
    rwa [← queues j] at given
  · intro j used
    by_cases same : j = i
    · subst same
      simpa using h.staIdx j used
    · simpa [same] using h.staIdx j used
  · intro k j holds
    have fits := h.fits k j holds
    by_cases same : j = i
    · subst same
      cases k with
      | list v => exact fits
      | ap v => exact fits
      | tdls v => exact fits
      | bcmc v => simpa [Setup.Fits] using fits
    · cases k with
      | list v => exact fits
      | ap v => exact fits
      | tdls v => exact fits
      | bcmc v => simpa [Setup.Fits, same] using fits

theorem Inv.switchVlan (h : Inv dev s) (taken : s.switchVlan dev i vlan = some t) : Inv dev t := by
  unfold Hw.switchVlan at taken
  split at taken
  · cases taken
    exact h
  · obtain ⟨old, _, rfl⟩ := Option.map_eq_some_iff.mp taken
    exact h.setVlanIdx.setSta4a

theorem Inv.changeSta (h : Inv dev s) {params : StaParams}
    (taken : s.changeSta dev i params = some t) : Inv dev t := by
  unfold Hw.changeSta at taken
  split at taken
  · cases taken
    exact h
  · exact h.switchVlan taken

theorem Inv.addTdlsSta (h : Inv dev s) (kind : dev.isStation vif = true) (free : s.FreeSta dev i)
    (single : s.tdlsSta vif = none) :
    Inv dev { s.addTdlsSta dev vif i mac with addingSta := false } := by
  have took : Took dev s { s.addTdlsSta dev vif i mac with addingSta := false } (.tdls vif) i := by
    constructor
    · rfl
    · exact fun j other => Function.update_of_ne other ..
    · exact congrArg Sta.staIdx sta_fill
    · intro k j
      cases k with
      | list v => exact not_taking nofun
      | ap v => exact not_taking nofun
      | tdls v =>
          by_cases same : v = vif
          · subst same
            simp [Hw.Holds, Hw.addTdlsSta, single, eq_comm]
          · simp [Hw.Holds, Hw.addTdlsSta, Hw.fill, Hw.txqStaInit, Hw.setTxqs, same]
      | bcmc v => exact not_taking nofun
    · exact free.1
    · exact h.nodup
    · intro q own
      exact h.sta_unused free (congrArg Sta.staIdx sta_fill) own
    · exact fun q => lease_fill
    · rfl
    · simp [Hw.addTdlsSta, Hw.txqStaInit, Hw.setTxqs, Hw.fill, h.intact, kind, small_inTable free.1]
  exact h.took free.2 took

theorem Inv.rwnxCfg80211ChangeStation (h : Inv dev s) {params : StaParams} {cfm : StaAdd}
    (kept : Kept dev s (.changeStation vif mac params cfm))
    (taken : s.rwnxCfg80211ChangeStation dev vif mac params cfm = some t) : Inv dev t := by
  unfold Hw.rwnxCfg80211ChangeStation at taken
  dsimp only at taken
  split at taken
  · exact h.changeSta taken
  · rename_i unknown
    split at taken
    · rename_i peer
      obtain ⟨sent, added⟩ := kept unknown peer
      rw [if_neg (not_not_intro sent)] at taken
      split at taken
      · rename_i ok
        obtain ⟨kind, free, single⟩ := added ok
        exact (h.addTdlsSta kind free single).changeSta taken
      · split at taken
        · cases taken
        · cases taken
          exact { h with adding := rfl }
    · cases taken
      exact h

theorem leaveVlan_eq (taken : s.leaveVlan dev i = some t) :
    ∃ sta4a : Nat → Option UInt8, t = { s with sta4a := sta4a } := by
  unfold Hw.leaveVlan at taken
  split at taken
  · cases taken
    exact ⟨s.sta4a, rfl⟩
  · obtain ⟨vlan, _, rfl⟩ := Option.map_eq_some_iff.mp taken
    split
    · exact ⟨_, rfl⟩
    · exact ⟨s.sta4a, rfl⟩

/-- What `removeSta` leaves, but for the VLANs. -/
theorem removeSta_eq (taken : s.removeSta dev vif i = some t) :
    ∃ sta4a : Nat → Option UInt8, t = { s.txqStaDeinit dev i with
      valid := Function.update s.valid i false
      staList := Function.update s.staList vif ((s.staList vif).erase i)
      sta4a := sta4a } := by
  obtain ⟨u, left, rfl⟩ := Option.map_eq_some_iff.mp taken
  obtain ⟨sta4a, rfl⟩ := leaveVlan_eq left
  exact ⟨sta4a, rfl⟩

theorem removeSta_staList (taken : s.removeSta dev vif i = some t) :
    t.staList vif = (s.staList vif).erase i := by
  obtain ⟨sta4a, rfl⟩ := removeSta_eq taken
  exact Function.update_self ..

/-- A holder that gives nothing back. -/
theorem not_dropping {p : Prop} {k l : Holder} {j : UInt8} (other : k ≠ l) :
    p ↔ p ∧ ¬ (k = l ∧ j = i) := by simp [other]

theorem Inv.removeSta (h : Inv dev s) (listed : i ∈ s.staList vif)
    (taken : s.removeSta dev vif i = some t) : Inv dev t := by
  have holds : s.Holds (.list vif) i := listed
  have dropped : Dropped dev s t (.list vif) i := by
    obtain ⟨sta4a, rfl⟩ := removeSta_eq taken
    constructor
    · rfl
    · rfl
    · intro k j
      cases k with
      | list v =>
          by_cases same : v = vif
          · subst same
            simp only [Hw.Holds, Function.update_self, (h.nodup v).mem_erase_iff, true_and]
            exact and_comm
          · simp [Hw.Holds, same]
      | ap v => exact not_dropping nofun
      | tdls v => exact not_dropping nofun
      | bcmc v => exact not_dropping nofun
    · intro v
      by_cases same : v = vif
      · subst same
        simpa using (h.nodup v).erase i
      · simpa [same] using h.nodup v
    · exact fun q => lease_setTxqs
    · rfl
    · rfl
  exact h.dropped holds dropped

theorem listedSta_mem (found : s.listedSta vif mac = some i) : i ∈ s.staList vif :=
  List.mem_of_find?_eq_some found

section Loops

variable {del : UInt8 → Int} {l : List UInt8}

/-- The loop takes the first station of the list each time. -/
theorem Inv.delEach (h : Inv dev s) (lists : s.staList vif = l)
    (taken : Hw.delEach dev vif del l s = some t) : Inv dev t := by
  induction l generalizing s with
  | nil =>
      cases taken
      exact h
  | cons cur rest ih =>
      obtain ⟨u, removed, after⟩ := Option.bind_eq_some_iff.mp taken
      have listed : cur ∈ s.staList vif := by simp [lists]
      have good := h.removeSta listed removed
      split at after
      · cases after
        exact good
      · apply ih good _ after
        rw [removeSta_staList removed, lists, List.erase_cons_head]

/-- At least the first station is gone after the loop. -/
theorem delEach_suffix (lists : s.staList vif = l)
    (taken : Hw.delEach dev vif del l s = some t) : t.staList vif <:+ l.tail := by
  induction l generalizing s with
  | nil =>
      cases taken
      simp [lists]
  | cons cur rest ih =>
      obtain ⟨u, removed, after⟩ := Option.bind_eq_some_iff.mp taken
      have lists' : u.staList vif = rest := by
        rw [removeSta_staList removed, lists, List.erase_cons_head]
      split at after
      · cases after
        simp [lists']
      · exact (ih lists' after).trans (List.tail_suffix rest)

theorem Inv.rwnxCfg80211DelStation (h : Inv dev s) {mac : Option Mac}
    (kind : dev.hasStaList vif = true)
    (taken : s.rwnxCfg80211DelStation dev vif mac del = some t) : Inv dev t := by
  unfold Hw.rwnxCfg80211DelStation at taken
  rw [if_pos kind] at taken
  cases mac with
  | none => exact h.delEach rfl taken
  | some mac =>
      dsimp only at taken
      split at taken
      · cases taken
        exact h
      · rename_i cur found
        exact h.removeSta (listedSta_mem found) taken

theorem Inv.drain (h : Inv dev s) (kind : dev.hasStaList vif = true) {n : Nat}
    (taken : Hw.drain dev vif del n s = some t) : Inv dev t := by
  induction n generalizing s with
  | zero =>
      cases taken
      exact h
  | succ n ih =>
      unfold Hw.drain at taken
      split at taken
      · cases taken
        exact h
      · obtain ⟨u, deleted, after⟩ := Option.bind_eq_some_iff.mp taken
        exact ih (h.rwnxCfg80211DelStation kind deleted) after

/-- Each round of the loop deletes a station, also when the firmware can not be told. -/
theorem drain_empty (kind : dev.hasStaList vif = true) {n : Nat} (enough : (s.staList vif).length ≤ n)
    (taken : Hw.drain dev vif del n s = some t) : t.staList vif = [] := by
  induction n generalizing s with
  | zero =>
      cases taken
      exact List.eq_nil_of_length_eq_zero (Nat.le_zero.mp enough)
  | succ n ih =>
      unfold Hw.drain at taken
      split at taken
      · rename_i empty
        cases taken
        exact empty
      · obtain ⟨u, deleted, after⟩ := Option.bind_eq_some_iff.mp taken
        apply ih _ after
        simp only [Hw.rwnxCfg80211DelStation, kind, if_true] at deleted
        have shorter := (delEach_suffix rfl deleted).length_le
        rw [List.length_tail] at shorter
        omega

end Loops

theorem Inv.apmStalossWorkProcess (h : Inv dev s) {vifIdx : UInt8}
    (taken : s.apmStalossWorkProcess dev vifIdx mac = some t) : Inv dev t := by
  unfold Hw.apmStalossWorkProcess at taken
  split at taken
  · cases taken
    exact h
  · split at taken
    · split at taken
      · cases taken
        exact h
      · rename_i cur found
        exact h.removeSta (listedSta_mem found) taken
    · cases taken
      exact h

theorem Inv.rwnxCfg80211TdlsOper (h : Inv dev s) {del : Int}
    (kept : Kept dev s (.tdlsDisableLink vif mac del)) :
    Inv dev (s.rwnxCfg80211TdlsOper dev vif mac del) := by
  obtain ⟨kind, told⟩ := kept
  unfold Hw.rwnxCfg80211TdlsOper
  rw [if_pos kind]
  split
  · exact h
  · rename_i i peer
    dsimp only
    split
    · rename_i same
      rw [if_neg (by simp [told i peer same])]
      have holds : s.Holds (.tdls vif) i := peer
      apply h.dropped holds
      constructor
      · rfl
      · rfl
      · intro k j
        cases k with
        | list v => exact not_dropping nofun
        | ap v => exact not_dropping nofun
        | tdls v =>
            by_cases same : v = vif
            · subst same
              simp [Hw.Holds, peer, eq_comm]
            · simp [Hw.Holds, Hw.txqStaDeinit, Hw.setTxqs, same]
        | bcmc v => exact not_dropping nofun
      · exact h.nodup
      · exact fun q => lease_setTxqs
      · rfl
      · rfl
    · exact h

theorem sta_startBcmc : (s.startBcmc dev vif i).sta i =
    { s.sta i with staIdx := i, vifIdx := dev.vifIndex vif } := Function.update_self ..

theorem Inv.lease_startBcmc (h : Inv dev s) {q : Nat} : (s.startBcmc dev vif i).lease q =
    if q = dev.txqVifIdx vif .bcmc then some i else s.lease q := by
  have unused : s.lease (dev.txqVifIdx vif .unk) = none := h.unk_unused
  have other : dev.txqVifIdx vif .unk ≠ dev.txqVifIdx vif .bcmc := by
    simp [Setup.txqVifIdx, nxVirtDevMax]
  simp only [Hw.startBcmc, Hw.txqVifInit, lease_setTxqs, List.mem_singleton, Function.update_self]
  by_cases isUnk : q = dev.txqVifIdx vif .unk
  · subst isUnk
    rw [if_pos rfl, if_neg other, unused]
    rfl
  · rw [if_neg isUnk]
    rfl

theorem Inv.startBcmc (h : Inv dev s) (here : vif ∈ dev.vifs) (kind : dev.isAp vif = true)
    (off : s.started vif = false) (free : s.FreeBcmc dev i) : Inv dev (s.startBcmc dev vif i) := by
  obtain ⟨large, inTable, free⟩ := free
  have only : ∀ q, q ∈ dev.staTxqs ((s.startBcmc dev vif i).sta i) ↔ q = dev.txqVifIdx vif .bcmc := by
    intro q
    rw [sta_startBcmc]
    exact Setup.mem_staTxqs_large large rfl
  have took : Took dev s (s.startBcmc dev vif i) (.bcmc vif) i := by
    constructor
    · rfl
    · exact fun j other => Function.update_of_ne other ..
    · rw [sta_startBcmc]
    · intro k j
      cases k with
      | list v => exact not_taking nofun
      | ap v => exact not_taking nofun
      | tdls v => exact not_taking nofun
      | bcmc v =>
          by_cases same : v = vif
          · subst same
            simp [Hw.Holds, Hw.startBcmc, Hw.txqVifInit, Hw.setTxqs, off, eq_comm]
          · simp [Hw.Holds, Hw.startBcmc, Hw.txqVifInit, Hw.setTxqs, same]
    · rw [sta_startBcmc]
      exact ⟨large, here, kind, rfl⟩
    · exact h.nodup
    · intro q own
      rw [(only q).mp own]
      exact h.bcmc_unused here off
    · intro q
      simp only [only, h.lease_startBcmc]
    · exact h.adding
    · simp [Hw.startBcmc, Hw.txqVifInit, Hw.setTxqs, h.intact, inTable]
  exact h.took free took

theorem Inv.rwnxCfg80211StartAp (h : Inv dev s) {workqueue : Bool} {cfm : ApmStart}
    (here : vif ∈ dev.vifs) (kind : dev.isAp vif = true) (off : s.started vif = false)
    (kept : Kept dev s (.startAp vif workqueue cfm)) :
    Inv dev (s.rwnxCfg80211StartAp dev vif workqueue cfm) := by
  unfold Hw.rwnxCfg80211StartAp
  split
  · rename_i ok
    simp only [Bool.and_eq_true, decide_eq_true_eq] at ok
    obtain ⟨⟨memory, sent⟩, accepted⟩ := ok
    exact h.startBcmc here kind off (kept memory sent accepted)
  · exact h

theorem sta_connectAp {ind : ConnectInd} : (s.connectAp dev vif ind).sta ind.apIdx =
    ⟨ind.apIdx, dev.vifIndex vif, dev.vifIndex vif, ind.bssid⟩ := Function.update_self ..

theorem Inv.lease_connectAp (h : Inv dev s) {ind : ConnectInd}
    (small : ind.apIdx.toNat < dev.remoteMax) {q : Nat} :
    (s.connectAp dev vif ind).lease q =
      if q ∈ dev.staTxqs ((s.connectAp dev vif ind).sta ind.apIdx) then some ind.apIdx
      else s.lease q := by
  have apart : ∀ q ∈ dev.tdlsTxqs vif,
      q ∉ dev.staTxqs ((s.connectAp dev vif ind).sta ind.apIdx) := by
    intro q member own
    rw [sta_connectAp] at own
    have before := Setup.staTxqs_lt small own
    unfold Setup.tdlsTxqs at member
    split at member
    · rw [List.mem_singleton.mp member] at before
      exact absurd before (Nat.not_lt.mpr (dev.firstVifTxq_le .unk))
    · cases member
  refine (lease_unk rfl ?_).trans lease_setTxqs
  intro q member
  exact lease_setTxqs.trans ((if_neg (apart q member)).trans (h.tdls_unused q member))

/-- The access point that the interface is connected to, at an entry that was free. -/
theorem Inv.connectAp (h : Inv dev s) {ind : ConnectInd} (alone : s.staAp vif = none)
    (free : s.FreeSta dev ind.apIdx) : Inv dev (s.connectAp dev vif ind) := by
  have took : Took dev s (s.connectAp dev vif ind) (.ap vif) ind.apIdx := by
    constructor
    · rfl
    · exact fun j other => Function.update_of_ne other ..
    · rw [sta_connectAp]
    · intro k j
      cases k with
      | list v => exact not_taking nofun
      | ap v =>
          by_cases same : v = vif
          · subst same
            simp [Hw.Holds, Hw.connectAp, Hw.txqTdlsVifInit, Hw.txqStaInit, Hw.setTxqs, alone,
              eq_comm]
          · simp [Hw.Holds, Hw.connectAp, Hw.txqTdlsVifInit, Hw.txqStaInit, Hw.setTxqs, Hw.fill,
              same]
      | tdls v => exact not_taking nofun
      | bcmc v => exact not_taking nofun
    · exact free.1
    · exact h.nodup
    · intro q own
      exact h.sta_unused free (congrArg Sta.staIdx sta_connectAp) own
    · exact fun q => h.lease_connectAp free.1
    · exact h.adding
    · simp [Hw.connectAp, Hw.txqTdlsVifInit, Hw.txqStaInit, Hw.setTxqs, Hw.fill, h.intact,
        small_inTable free.1]
  exact h.took free.2 took

/-- The access point that the interface is connected to already. -/
theorem Inv.reconnectAp (h : Inv dev s) {ind : ConnectInd} (again : s.staAp vif = some ind.apIdx) :
    Inv dev (s.connectAp dev vif ind) := by
  have holds : s.Holds (.ap vif) ind.apIdx := again
  have used := h.tracked.valid_of_holds holds
  have small : ind.apIdx.toNat < dev.remoteMax := h.fits _ _ holds
  have valid : (s.connectAp dev vif ind).valid = s.valid := Function.update_eq_self_iff.mpr used.symm
  have staAp : (s.connectAp dev vif ind).staAp = s.staAp := Function.update_eq_self_iff.mpr again.symm
  have others : ∀ j, j ≠ ind.apIdx → (s.connectAp dev vif ind).sta j = s.sta j :=
    fun j other => Function.update_of_ne other ..
  have holders : ∀ k j, (s.connectAp dev vif ind).Holds k j ↔ s.Holds k j := by
    intro k j
    cases k with
    | list v => exact Iff.rfl
    | ap v =>
        simp only [Hw.Holds]
        rw [staAp]
    | tdls v => exact Iff.rfl
    | bcmc v => exact Iff.rfl
  have queues : ∀ j, dev.staTxqs ((s.connectAp dev vif ind).sta j) = dev.staTxqs (s.sta j) := by
    intro j
    by_cases same : j = ind.apIdx
    · subst same
      have idx := h.staIdx _ used
      rw [sta_connectAp, Setup.staTxqs_small small, Setup.staTxqs_small (by rwa [idx]), idx]
    · rw [others j same]
  constructor
  · rw [valid]
    exact h.tracked.congr holders
  · rw [valid]
    intro q j
    rw [h.lease_connectAp small]
    simp only [queues]
    split
    · rename_i own
      rw [← (h.leased q ind.apIdx).mpr ⟨used, own⟩]
      exact h.leased q j
    · exact h.leased q j
  · intro j used'
    by_cases same : j = ind.apIdx
    · subst same
      rw [sta_connectAp]
    · rw [others j same]
      rw [valid] at used'
      exact h.staIdx j used'
  · intro k j holds'
    have fits := h.fits k j ((holders k j).mp holds')
    by_cases same : j = ind.apIdx
    · subst same
      obtain rfl := h.tracked.exclusive ((holders k _).mp holds') holds
      exact small
    · rw [others j same]
      exact fits
  · exact h.nodup
  · exact h.adding
  · have inTable : ¬ staTableSize ≤ ind.apIdx := small_inTable small
    simp [Hw.connectAp, Hw.txqTdlsVifInit, Hw.txqStaInit, Hw.setTxqs, Hw.fill, h.intact, inTable]

theorem Inv.rwnxRxSmConnectInd (h : Inv dev s) {ind : ConnectInd}
    (kept : Kept dev s (.connectInd ind)) : Inv dev (s.rwnxRxSmConnectInd dev ind) := by
  unfold Hw.rwnxRxSmConnectInd
  split
  · exact h
  · rename_i vif found
    obtain ⟨kind, connected⟩ := kept vif found
    rw [if_pos kind]
    dsimp only
    split
    · rename_i ok
      rcases connected ok with ⟨alone, free⟩ | again
      · exact { h.connectAp alone free with }
      · exact { h.reconnectAp again with }
    · exact { h with }

theorem Inv.rwnxRxSmDisconnectInd (h : Inv dev s) {vifIdx : UInt8}
    (kept : Kept dev s (.disconnectInd vifIdx))
    (taken : s.rwnxRxSmDisconnectInd dev vifIdx = some t) : Inv dev t := by
  unfold Hw.rwnxRxSmDisconnectInd at taken
  split at taken
  · cases taken
  · rename_i vif found
    split at taken
    · cases taken
      exact h
    · rename_i connected
      split at taken
      · cases taken
      · rw [if_pos (kept vif found connected)] at taken
        obtain ⟨i, isAp, rfl⟩ := Option.map_eq_some_iff.mp taken
        have holds : s.Holds (.ap vif) i := isAp
        apply h.dropped holds
        constructor
        · rfl
        · rfl
        · intro k j
          cases k with
          | list v => exact not_dropping nofun
          | ap v =>
              by_cases same : v = vif
              · subst same
                simp [Hw.Holds, isAp, eq_comm]
              · simp [Hw.Holds, Hw.txqTdlsVifDeinit, Hw.txqStaDeinit, Hw.setTxqs, same]
          | tdls v => exact not_dropping nofun
          | bcmc v => exact not_dropping nofun
        · exact h.nodup
        · intro q
          refine (lease_unk rfl ?_).trans lease_setTxqs
          intro q member
          refine lease_setTxqs.trans ?_
          split
          · rfl
          · exact h.tdls_unused q member
        · rfl
        · rfl

/-- What stopping an access point does once the stations are gone leaves its broadcast entry
    without queues and without a holder. -/
theorem Inv.dropBcmc (h : Inv dev s) (on : s.started vif = true) :
    Dropped dev s { s.txqVifDeinit dev vif with
      started := Function.update s.started vif false
      valid := Function.update s.valid (s.bcmcIndex vif) false } (.bcmc vif) (s.bcmcIndex vif) := by
  have holds : s.Holds (.bcmc vif) (s.bcmcIndex vif) := ⟨on, rfl⟩
  obtain ⟨large, here, isAp, owner⟩ := h.fits _ _ holds
  have idx := h.staIdx _ (h.tracked.valid_of_holds holds)
  constructor
  · rfl
  · rfl
  · intro k j
    cases k with
    | list v => exact not_dropping nofun
    | ap v => exact not_dropping nofun
    | tdls v => exact not_dropping nofun
    | bcmc v =>
        by_cases same : v = vif
        · subst same
          simp only [Hw.Holds, Function.update_self]
          constructor
          · rintro ⟨wrong, _⟩
            cases wrong
          · rintro ⟨⟨_, rfl⟩, other⟩
            exact absurd ⟨trivial, rfl⟩ other
        · simp [Hw.Holds, Hw.txqVifDeinit, Hw.setTxqs, same]
  · exact h.nodup
  · intro q
    have unused : s.lease (dev.txqVifIdx vif .unk) = none := h.unk_unused
    have only : q ∈ dev.staTxqs (s.sta (s.bcmcIndex vif)) ↔ q = dev.txqVifIdx vif .bcmc :=
      Setup.mem_staTxqs_large (by rwa [idx]) owner
    refine lease_setTxqs.trans ?_
    simp only [List.mem_singleton, lease_setTxqs, only]
    by_cases isUnk : q = dev.txqVifIdx vif .unk
    · subst isUnk
      rw [if_pos rfl, unused, ite_self]
      rfl
    · rw [if_neg isUnk]
      rfl
  · rfl
  · rfl

/-- The loop of a stop changes nothing of the access points. -/
theorem removeSta_bcmc (taken : s.removeSta dev vif i = some t) :
    t.started = s.started ∧ t.bcmcIndex = s.bcmcIndex := by
  obtain ⟨sta4a, rfl⟩ := removeSta_eq taken
  exact ⟨rfl, rfl⟩

theorem delEach_bcmc {del : UInt8 → Int} {l : List UInt8}
    (taken : Hw.delEach dev vif del l s = some t) :
    t.started = s.started ∧ t.bcmcIndex = s.bcmcIndex := by
  induction l generalizing s with
  | nil =>
      cases taken
      exact ⟨rfl, rfl⟩
  | cons cur rest ih =>
      obtain ⟨u, removed, after⟩ := Option.bind_eq_some_iff.mp taken
      obtain ⟨started, index⟩ := removeSta_bcmc removed
      split at after
      · cases after
        exact ⟨started, index⟩
      · obtain ⟨started', index'⟩ := ih after
        exact ⟨started'.trans started, index'.trans index⟩

theorem drain_bcmc (kind : dev.hasStaList vif = true) {del : UInt8 → Int} {n : Nat}
    (taken : Hw.drain dev vif del n s = some t) :
    t.started = s.started ∧ t.bcmcIndex = s.bcmcIndex := by
  induction n generalizing s with
  | zero =>
      cases taken
      exact ⟨rfl, rfl⟩
  | succ n ih =>
      unfold Hw.drain at taken
      split at taken
      · cases taken
        exact ⟨rfl, rfl⟩
      · obtain ⟨u, deleted, after⟩ := Option.bind_eq_some_iff.mp taken
        simp only [Hw.rwnxCfg80211DelStation, kind, if_true] at deleted
        obtain ⟨started, index⟩ := delEach_bcmc deleted
        obtain ⟨started', index'⟩ := ih after
        exact ⟨started'.trans started, index'.trans index⟩

/-- Stopping an access point is one assignment short: its stations are gone and its queues are
    inactive, but its broadcast entry stays valid. With the entry invalid the table is right. -/
theorem Inv.rwnxCfg80211StopAp (h : Inv dev s) {del : UInt8 → Int} (on : s.started vif = true)
    (taken : s.rwnxCfg80211StopAp dev vif del = some t) :
    t.staList vif = [] ∧ t.valid (s.bcmcIndex vif) = true ∧
      Inv dev { t with valid := Function.update t.valid (s.bcmcIndex vif) false } := by
  have holds : s.Holds (.bcmc vif) (s.bcmcIndex vif) := ⟨on, rfl⟩
  obtain ⟨_, _, isAp, _⟩ := h.fits _ _ holds
  have kind : dev.hasStaList vif = true := by simp [Setup.hasStaList, isAp]
  obtain ⟨u, drained, rfl⟩ := Option.map_eq_some_iff.mp taken
  obtain ⟨started, index⟩ := drain_bcmc kind drained
  have good := h.drain kind drained
  have on' : u.started vif = true := by rw [started, on]
  have holds' : u.Holds (.bcmc vif) (u.bcmcIndex vif) := ⟨on', rfl⟩
  rw [← index]
  have empty : u.staList vif = [] := drain_empty kind le_rfl drained
  refine ⟨empty, good.tracked.valid_of_holds holds', ?_⟩
  exact good.dropped holds' (good.dropBcmc on')

end Operations

theorem inv_init {dev : Setup} : Inv dev init where
  tracked := by
    refine ⟨fun {h k i} none => ?_, fun i => ?_⟩
    · cases h with
      | list v => cases none
      | ap v => cases none
      | tdls v => cases none
      | bcmc v => cases none.1
    · refine ⟨fun wrong => (by cases wrong), ?_⟩
      rintro ⟨holder, none⟩
      cases holder with
      | list v => cases none
      | ap v => cases none
      | tdls v => cases none
      | bcmc v => cases none.1
  leased := by
    intro q i
    simp [init, Hw.lease]
  staIdx := fun i wrong => (by cases wrong)
  fits := by
    intro k i none
    cases k with
    | list v => cases none
    | ap v => cases none
    | tdls v => cases none
    | bcmc v => cases none.1
  nodup := fun _ => List.nodup_nil
  adding := rfl
  intact := rfl

theorem Inv.step {dev : Setup} {s t : Hw} {e : Event} (h : Inv dev s) (kept : Kept dev s e)
    (taken : s.step dev e = some t) : Inv dev t := by
  cases e with
  | addStation vif tdlsPeer mac cfm =>
      obtain ⟨_, taken⟩ := Option.ite_none_right_eq_some.mp taken
      cases taken
      exact h.rwnxCfg80211AddStation kept
  | delStation vif mac del =>
      obtain ⟨_, deleted⟩ := Option.ite_none_right_eq_some.mp taken
      exact h.rwnxCfg80211DelStation kept deleted
  | changeStation vif mac params cfm =>
      obtain ⟨_, changed⟩ := Option.ite_none_right_eq_some.mp taken
      exact h.rwnxCfg80211ChangeStation kept changed
  | tdlsDisableLink vif peer del =>
      obtain ⟨_, taken⟩ := Option.ite_none_right_eq_some.mp taken
      cases taken
      exact h.rwnxCfg80211TdlsOper kept
  | startAp vif workqueue cfm =>
      obtain ⟨⟨here, kind, off⟩, taken⟩ := Option.ite_none_right_eq_some.mp taken
      cases taken
      exact h.rwnxCfg80211StartAp here kind off kept
  | stopAp vif del => exact kept.elim
  | staloss vifIdx mac => exact h.apmStalossWorkProcess taken
  | connectInd ind =>
      cases taken
      exact h.rwnxRxSmConnectInd kept
  | disconnectInd vifIdx => exact h.rwnxRxSmDisconnectInd kept taken
  | connection vif connState isRoam =>
      cases taken
      exact { h with }

/-- In every run whose steps keep it so, the table is sound. -/
theorem stations_sound (dev : Setup) {s : Hw}
    (run : Run.Reachable (Hw.step dev) (Kept dev) init s) : Sound dev s := by
  have inv : Inv dev s := by
    apply run.invariant (Inv dev) inv_init
    intro s e t h kept taken
    exact h.step kept taken
  exact inv.sound

instance (dev : Setup) (s : Hw) (i : UInt8) : Decidable (s.FreeSta dev i) :=
  inferInstanceAs (Decidable (_ ∧ _))

instance (dev : Setup) (s : Hw) (i : UInt8) : Decidable (s.FreeBcmc dev i) :=
  inferInstanceAs (Decidable (_ ∧ _ ∧ _))

instance (dev : Setup) (s : Hw) (e : Event) : Decidable (Kept dev s e) :=
  match e with
  | .addStation _ _ _ _ => inferInstanceAs (Decidable (_ → _ ∧ (_ → _ ∧ _)))
  | .delStation _ _ _ => inferInstanceAs (Decidable (_ = true))
  | .changeStation _ _ _ _ => inferInstanceAs (Decidable (_ → _ → _ ∧ (_ → _ ∧ _ ∧ _)))
  | .tdlsDisableLink vif _ _ =>
      inferInstanceAs (Decidable (_ ∧ ∀ i ∈ s.tdlsSta vif, _ → _))
  | .startAp _ _ _ => inferInstanceAs (Decidable (_ → _ → _ → _))
  | .stopAp _ _ => inferInstanceAs (Decidable False)
  | .connectInd ind =>
      inferInstanceAs (Decidable (∀ vif ∈ dev.vifAt ind.vifIdx, _ ∧ (_ → _ ∧ _ ∨ _)))
  | .disconnectInd vifIdx => inferInstanceAs (Decidable (∀ vif ∈ dev.vifAt vifIdx, _ → _))
  | .staloss _ _ | .connection _ _ _ => inferInstanceAs (Decidable True)

/-- A station, an access point and a VLAN of it, and a mesh. -/
def lab : Setup where
  oldIc := false
  tdls := true
  vifs := [0, 1, 2, 3]
  iftype := fun vif =>
    if vif = 0 then .station else if vif = 1 then .ap else if vif = 2 then .apVlan else .meshPoint
  use4addr := fun vif => vif = 2
  vifIndex := fun vif => if vif = 2 then 7 else UInt8.ofNat vif
  distinct := by decide
  small := by decide

/-- Stations come and go at an access point and a mesh, while the station connects, has a TDLS
    peer, and is disconnected. -/
def labRun : List Event :=
  [.startAp 1 false ⟨0, 0, 32⟩, .startAp 1 true ⟨0, 5, 32⟩, .startAp 1 true ⟨0, 0, 32⟩,
    .addStation 1 false 10 ⟨0, 0, 0⟩, .addStation 1 false 11 ⟨0, 0, 1⟩,
    .addStation 1 false 12 ⟨0, 1, 0⟩, .addStation 1 true 13 ⟨0, 0, 0⟩,
    .changeStation 1 10 ⟨false, true, some 2⟩ ⟨0, 0, 0⟩, .delStation 1 (some 10) (fun _ => 0),
    .addStation 3 false 14 ⟨0, 0, 0⟩, .staloss 1 11, .staloss 1 11,
    .connection 0 .connecting false, .connectInd ⟨0, 1, false, 4, 20⟩,
    .connection 0 .connecting false, .connectInd ⟨0, 0, false, 4, 20⟩,
    .changeStation 0 21 ⟨true, false, none⟩ ⟨0, 1, 5⟩,
    .changeStation 0 21 ⟨true, true, none⟩ ⟨0, 0, 5⟩, .connectInd ⟨0, 0, true, 4, 22⟩,
    .addStation 1 false 15 ⟨0, 0, 1⟩, .addStation 1 false 16 ⟨0, 0, 2⟩,
    .tdlsDisableLink 0 21 0, .delStation 1 none (fun _ => -110), .delStation 1 none (fun _ => 0),
    .delStation 3 none (fun _ => -32), .disconnectInd 0, .disconnectInd 0]

theorem stations_sound_run : ∃ s, Run.exec (Hw.step lab) init labRun = some s ∧ Sound lab s := by
  obtain ⟨s, run⟩ := Option.isSome_iff_exists.mp
    (show (Run.exec (Hw.step lab) init labRun).isSome = true by decide)
  exact ⟨s, run, stations_sound lab
    (Run.Reachable.exec_guarded (fun _ _ => of_decide_eq_true) _ .init run (by decide +kernel))⟩

/-- The request to add a station is not sent: a station is being added from then on. -/
theorem unsent_add_goes_on :
    ¬ ∀ s : Hw, Run.Reachable (Hw.step lab) Run.Free init s → Sound lab s := by
  intro sound
  have left := sound _ (.exec [.addStation 1 false 10 ⟨-12, 0, 0⟩] .init rfl)
  cases left.adding

end Aic8800.Cfg.Stations
