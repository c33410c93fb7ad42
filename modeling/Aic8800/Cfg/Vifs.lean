import Aic8800.Lib.Refcount
import Aic8800.Lib.Run
import Mathlib

/-! # The table of interfaces

An interface that the firmware knows is up, and the table leads to it by the index that
the firmware gave it. The P2P device has no network device of its own: it is made known to
the firmware by those who need it, and is taken away by a timer.
-/

namespace Aic8800.Cfg.Vifs

open Lib Refcount

/-- `NX_VIRT_DEV_MAX` -/
def nxVirtDevMax : Nat := 4

/-- `NX_REMOTE_STA_MAX` -/
def nxRemoteStaMax : Nat := 32

/-- `NX_REMOTE_STA_MAX_FOR_OLD_IC` -/
def nxRemoteStaMaxForOldIc : Nat := 8

/-- The length of `vif_table`. -/
def vifTableSize : UInt8 := 36

/-- `P2P_ALIVE_TIME_COUNT` -/
def p2pAliveTimeCount : Nat := 200

inductive Iftype where
  | station | p2pClient | ap | p2pGo | apVlan | meshPoint | monitor | p2pDevice
  deriving DecidableEq

def Iftype.isP2p : Iftype → Bool
  | .p2pClient | .p2pGo => true
  | _ => false

/-- The result of `rwnx_send_add_if`, and the confirmation. -/
structure AddIf where
  error : Int
  status : Nat
  instNbr : UInt8

/-- The firmware has added the interface. -/
def AddIf.ok (add : AddIf) : Bool := add.error = 0 && add.status = 0

structure Hw where
  oldIc : Bool
  vifs : List Nat
  iftype : Nat → Iftype
  /-- The network device is open. -/
  running : Nat → Bool
  up : Nat → Bool
  vifIndex : Nat → UInt8
  drvVifIndex : Nat → Nat
  vifTable : UInt8 → Option Nat
  availIdxMap : Nat → Bool
  vifStarted : UInt8
  p2pDevVif : Option Nat
  isP2pAlive : Bool
  p2pAliveTimer : Bool
  p2pAliveTimerCount : Nat
  /-- The interfaces of the procedure, the scan and the check that go on. -/
  rocElem : Option Nat
  scanRequest : Option Nat
  cacVif : Option Nat
  /-- The table was indexed out of range, or a null pointer was followed. -/
  fault : Bool

/-- What happens, with what fails and what the firmware answers. -/
inductive Event where
  | addIface (vif : Nat) (type : Iftype) (ok : Bool)
  | open (vif : Nat) (start : Int) (dev own : AddIf)
  | close (vif : Nat) (cancel : Int)
  | changeIface (vif : Nat) (type : Iftype) (cancel remove : Int) (add : AddIf)
  | delIface (vif : Nat)
  | startP2pDevice (vif : Nat)
  | stopP2pDevice (vif : Nat)
  | p2pAliveTimeout
  | scan (vif : Nat) (refused alloc wildcard : Bool) (add : AddIf)
  | scanDone
  | remainOnChannel (vif : Nat) (add : AddIf) (alloc : Bool) (roc : Int)
  | rocExpired
  | startRadarDetection (vif : Nat)
  | cacDone

namespace Hw

variable (s : Hw)

/-- How many indexes the driver hands out. -/
def limit : Nat := nxVirtDevMax + if s.oldIc then nxRemoteStaMaxForOldIc else nxRemoteStaMax

/-- The first index that is free for an interface of the type. -/
def availIdx (type : Iftype) : Option Nat :=
  let range :=
    if type = .apVlan then List.range' nxVirtDevMax nxRemoteStaMax else List.range nxVirtDevMax
  range.find? s.availIdxMap

/-- The firmware knows the interface from now on. -/
def addIf (vif : Nat) (instNbr : UInt8) : Hw :=
  { s with
    vifIndex := Function.update s.vifIndex vif instNbr
    up := Function.update s.up vif true
    vifStarted := s.vifStarted + 1
    vifTable := Function.update s.vifTable instNbr (some vif)
    fault := s.fault || vifTableSize ≤ instNbr }

/-- The firmware does not know the interface any more. -/
def removeIf (vif : Nat) : Hw :=
  { s with
    up := Function.update s.up vif false
    vifTable := Function.update s.vifTable (s.vifIndex vif) none
    vifStarted := s.vifStarted - 1
    fault := s.fault || vifTableSize ≤ s.vifIndex vif }

/-- The timer of the P2P device starts again. -/
def p2pAlive : Hw := { s with isP2pAlive := true, p2pAliveTimer := true, p2pAliveTimerCount := 0 }

/-- Data and monitor interfaces are not supported together. -/
def monitorConflict (type : Iftype) : Bool :=
  s.vifs.any fun vif => s.iftype vif = .monitor || type = .monitor

def newVif (vif : Nat) (type : Iftype) (idx : Nat) (vifIndex : UInt8) : Hw :=
  { s with
    vifs := vif :: s.vifs
    iftype := Function.update s.iftype vif type
    running := Function.update s.running vif false
    up := Function.update s.up vif false
    vifIndex := Function.update s.vifIndex vif vifIndex
    drvVifIndex := Function.update s.drvVifIndex vif idx
    availIdxMap := Function.update s.availIdxMap idx false }

/-- `rwnx_interface_add`, with whether everything else succeeds. -/
def rwnxInterfaceAdd (vif : Nat) (type : Iftype) (ok : Bool) : Hw :=
  match s.availIdx type with
  | none => s
  | some idx => if s.monitorConflict type || !ok then s else s.newVif vif type idx 0

/-- `rwnx_virtual_interface_add`, with whether there is memory. -/
def rwnxVirtualInterfaceAdd (vif : Nat) (type : Iftype) (ok : Bool) : Hw :=
  match s.availIdx type with
  | none => s
  | some idx =>
      if !ok then s
      else
        let s := s.newVif vif type idx (UInt8.ofNat idx)
        if s.isP2pAlive then s
        else { s with p2pDevVif := some vif, p2pAliveTimer := false, p2pAliveTimerCount := 0 }

def rwnxCfg80211AddIface (vif : Nat) (type : Iftype) (ok : Bool) : Hw :=
  if type = .p2pDevice then s.rwnxVirtualInterfaceAdd vif type ok
  else s.rwnxInterfaceAdd vif type ok

/-- The P2P device has to be added when a P2P interface is opened. -/
def addsP2pDev (vif : Nat) : Bool :=
  (s.iftype vif).isP2p && !s.isP2pAlive && s.p2pDevVif.any fun dev => !s.up dev

/-- The part of `rwnx_open` that is about the P2P device. -/
def openP2pDev (vif : Nat) (dev : AddIf) : Hw :=
  if (s.iftype vif).isP2p && !s.isP2pAlive then
    let s :=
      match s.p2pDevVif with
      | none => s
      | some p2p => if s.up p2p then s else s.addIf p2p dev.instNbr
    s.p2pAlive
  else s

def rwnxOpen (vif : Nat) (start : Int) (dev own : AddIf) : Hw :=
  if s.vifStarted = 0 ∧ start ≠ 0 then s
  else if s.addsP2pDev vif && !dev.ok then s
  else
    let s := s.openP2pDev vif dev
    let run (s : Hw) : Hw := { s with running := Function.update s.running vif true }
    -- an AP_VLAN is not known to the firmware, and has the index of the driver
    if s.iftype vif = .apVlan then run (s.addIf vif (UInt8.ofNat (s.drvVifIndex vif)))
    else if own.ok then run (s.addIf vif own.instNbr)
    else s

/-- `rwnx_close`, which gives up when the scan of the interface can not be cancelled. -/
def rwnxClose (vif : Nat) (cancel : Int) : Hw :=
  let s := { s with running := Function.update s.running vif false, cacVif := none }
  let scans := s.scanRequest = some vif
  let s := { s with scanRequest := if scans then none else s.scanRequest }
  if scans ∧ cancel ≠ 0 then s
  else { s with rocElem := if s.rocElem = some vif then none else s.rocElem }.removeIf vif

/-- `rwnx_cfg80211_change_iface`, which has the firmware remove the interface and add it again. -/
def rwnxCfg80211ChangeIface (vif : Nat) (type : Iftype) (cancel remove : Int) (add : AddIf) : Hw :=
  if (type = .monitor ∧ s.iftype vif ≠ .monitor ∧ s.vifs.any fun other => other ≠ vif) ∨
      type = .apVlan then s
  else
    let s := { s with iftype := Function.update s.iftype vif type }
    if s.up vif = false then s
    else if s.scanRequest = some vif ∧ cancel ≠ 0 then s
    else if remove ≠ 0 then s
    else
      let s := { s with vifTable := Function.update s.vifTable (s.vifIndex vif) none }
      if add.ok then
        { s with
          vifIndex := Function.update s.vifIndex vif add.instNbr
          vifTable := Function.update s.vifTable add.instNbr (some vif)
          fault := s.fault || vifTableSize ≤ add.instNbr }
      else s

def rwnxCfg80211DelIface (vif : Nat) : Hw :=
  { s with
    vifs := s.vifs.erase vif
    availIdxMap := Function.update s.availIdxMap (s.drvVifIndex vif) true }

def rwnxCfgp2pStopP2pDevice (vif : Nat) : Hw :=
  let s := { s with scanRequest := if s.scanRequest = some vif then none else s.scanRequest }
  if s.p2pDevVif = some vif then
    let s := { s with isP2pAlive := false, p2pAliveTimer := false }
    if s.up vif then s.removeIf vif else s
  else s

/-- There is a P2P interface. -/
def p2pListed : Bool :=
  s.vifs.any fun vif => !s.availIdxMap (s.drvVifIndex vif) && (s.iftype vif).isP2p

/-- The count of the timer when it expires. -/
def nextCount : Nat := if s.p2pListed then 0 else s.p2pAliveTimerCount + 1

def aicwfP2pAliveTimeout : Hw :=
  if s.nextCount < p2pAliveTimeCount then
    { s with isP2pAlive := s.isP2pAlive || s.p2pListed, p2pAliveTimerCount := s.nextCount }
  else
    let s := { s with isP2pAlive := false, p2pAliveTimer := false, p2pAliveTimerCount := 0 }
    match s.p2pDevVif with
    | none => { s with fault := true }
    | some vif => s.removeIf vif

/-- `rwnx_cfg80211_scan`. A scan for P2P peers starts the timer, whose interface it is. -/
def rwnxCfg80211Scan (vif : Nat) (refused alloc wildcard : Bool) (add : AddIf) : Hw :=
  if refused then s
  else
    let s := { s with scanRequest := some vif }
    if !alloc || !wildcard then s
    else if s.p2pDevVif = some vif ∧ s.up vif = false then
      if add.ok then (s.addIf vif add.instNbr).p2pAlive else s
    else s.p2pAlive

def rwnxCfg80211RemainOnChannel (vif : Nat) (add : AddIf) (alloc : Bool) (roc : Int) : Hw :=
  if s.rocElem.isSome then s
  else
    let down := s.p2pDevVif = some vif ∧ s.up vif = false
    if down ∧ s.isP2pAlive = false ∧ add.ok = false then s
    else
      let s :=
        if down then
          if s.isP2pAlive then s.p2pAlive else (s.addIf vif add.instNbr).p2pAlive
        else s
      if alloc && roc = 0 then { s with rocElem := some vif } else s

def step (e : Event) : Option Hw :=
  match e with
  | .addIface vif type ok =>
      if vif ∉ s.vifs then some (s.rwnxCfg80211AddIface vif type ok) else none
  | .open vif start dev own =>
      if vif ∈ s.vifs ∧ s.iftype vif ≠ .p2pDevice ∧ s.running vif = false then
        some (s.rwnxOpen vif start dev own)
      else none
  | .close vif cancel =>
      if vif ∈ s.vifs ∧ s.running vif = true then some (s.rwnxClose vif cancel) else none
  | .changeIface vif type cancel remove add =>
      if vif ∈ s.vifs ∧ s.iftype vif ≠ .p2pDevice ∧ type ≠ .p2pDevice then
        some (s.rwnxCfg80211ChangeIface vif type cancel remove add)
      else none
  | .delIface vif =>
      if vif ∈ s.vifs ∧ s.running vif = false then some (s.rwnxCfg80211DelIface vif) else none
  | .startP2pDevice vif => if vif ∈ s.vifs then some s else none
  | .stopP2pDevice vif =>
      if vif ∈ s.vifs ∧ s.iftype vif = .p2pDevice then some (s.rwnxCfgp2pStopP2pDevice vif) else none
  | .p2pAliveTimeout => if s.p2pAliveTimer then some s.aicwfP2pAliveTimeout else none
  | .scan vif refused alloc wildcard add =>
      if vif ∈ s.vifs then some (s.rwnxCfg80211Scan vif refused alloc wildcard add) else none
  | .scanDone => some { s with scanRequest := none }
  | .remainOnChannel vif add alloc roc =>
      if vif ∈ s.vifs then some (s.rwnxCfg80211RemainOnChannel vif add alloc roc) else none
  | .rocExpired => some { s with rocElem := none }
  | .startRadarDetection vif =>
      if vif ∈ s.vifs ∧ s.running vif = true then some { s with cacVif := some vif } else none
  | .cacDone => some { s with cacVif := none }

end Hw

def init (oldIc : Bool) : Hw where
  oldIc := oldIc
  vifs := []
  iftype := fun _ => .station
  running := fun _ => false
  up := fun _ => false
  vifIndex := fun _ => 0
  drvVifIndex := fun _ => 0
  vifTable := fun _ => none
  availIdxMap := fun idx => idx < nxVirtDevMax + if oldIc then nxRemoteStaMaxForOldIc else nxRemoteStaMax
  vifStarted := 0
  p2pDevVif := none
  isP2pAlive := false
  p2pAliveTimer := false
  p2pAliveTimerCount := 0
  rocElem := none
  scanRequest := none
  cacVif := none
  fault := false

/-- The table, the counter and the map say what interfaces there are, and nothing leads to
    one that is gone. -/
structure Sound (s : Hw) : Prop where
  up : ∀ vif ∈ s.vifs, s.up vif = true ↔ s.vifTable (s.vifIndex vif) = some vif
  started : s.vifStarted.toNat = refs s.vifs s.up true
  avail : ∀ idx < s.limit, s.availIdxMap idx = false ↔ ∃ vif ∈ s.vifs, s.drvVifIndex vif = idx
  table : ∀ idx vif, s.vifTable idx = some vif → vif ∈ s.vifs
  p2pDev : ∀ vif ∈ s.p2pDevVif, vif ∈ s.vifs
  roc : ∀ vif ∈ s.rocElem, vif ∈ s.vifs
  scan : ∀ vif ∈ s.scanRequest, vif ∈ s.vifs
  cac : ∀ vif ∈ s.cacVif, vif ∈ s.vifs
  inRange : s.fault = false

/-- An index that the table has, and does not use. -/
def Hw.Free (s : Hw) (idx : UInt8) : Prop := idx < vifTableSize ∧ s.vifTable idx = none

/-- The index that `rwnx_open` gives an interface. -/
def Hw.ownIdx (s : Hw) (vif : Nat) (own : AddIf) : UInt8 :=
  if s.iftype vif = .apVlan then UInt8.ofNat (s.drvVifIndex vif) else own.instNbr

/-- The P2P device is down, and this is it. -/
def Hw.P2pDown (s : Hw) (vif : Nat) : Prop := s.p2pDevVif = some vif ∧ s.up vif = false

/-- The steps that keep the interfaces sound.
    - The firmware gives out indexes of the table that are free.
    - An interface that is opened is not up, and one that is closed can cancel its scan.
    - A change of the type that got as far as removing the interface adds it again.
    - An interface that is deleted is not up, and nothing leads to it.
    - The timer takes away the P2P device only when there is one that is up. -/
def Kept (s : Hw) : Event → Prop
  | .open vif _ dev own =>
      s.up vif = false ∧ (s.addsP2pDev vif = true → dev.ok = true → s.Free dev.instNbr) ∧
        (s.iftype vif = .apVlan ∨ own.ok = true → s.Free (s.ownIdx vif own) ∧
          (s.addsP2pDev vif = true → s.ownIdx vif own ≠ dev.instNbr))
  | .close vif cancel => s.scanRequest = some vif → cancel = 0
  | .changeIface vif _ cancel remove add =>
      s.up vif = true → (s.scanRequest = some vif → cancel = 0) → remove = 0 →
        add.ok = true ∧ (s.Free add.instNbr ∨ add.instNbr = s.vifIndex vif)
  | .delIface vif =>
      s.up vif = false ∧ s.p2pDevVif ≠ some vif ∧ s.rocElem ≠ some vif ∧
        s.scanRequest ≠ some vif ∧ s.cacVif ≠ some vif
  | .p2pAliveTimeout =>
      p2pAliveTimeCount ≤ s.nextCount → ∃ vif ∈ s.p2pDevVif, s.up vif = true
  | .scan vif refused alloc wildcard add =>
      refused = false → alloc = true → wildcard = true → s.P2pDown vif → add.ok = true →
        s.Free add.instNbr
  | .remainOnChannel vif add _ _ =>
      s.rocElem = none → s.P2pDown vif → s.isP2pAlive = false → add.ok = true → s.Free add.instNbr
  | _ => True

/-! ## The invariant -/

structure Inv (s : Hw) : Prop where
  nodup : s.vifs.Nodup
  drvs : ∀ vif ∈ s.vifs, ∀ other ∈ s.vifs, s.drvVifIndex vif = s.drvVifIndex other → vif = other
  drvRange : ∀ vif ∈ s.vifs, s.drvVifIndex vif < s.limit
  avail : ∀ idx < s.limit, s.availIdxMap idx = false ↔ ∃ vif ∈ s.vifs, s.drvVifIndex vif = idx
  availRange : ∀ idx, s.availIdxMap idx = true → idx < s.limit
  up : ∀ vif ∈ s.vifs, s.up vif = true ↔ s.vifTable (s.vifIndex vif) = some vif
  owner : ∀ idx vif, s.vifTable idx = some vif →
    vif ∈ s.vifs ∧ s.vifIndex vif = idx ∧ idx < vifTableSize
  started : s.vifStarted.toNat = refs s.vifs s.up true
  opened : ∀ vif ∈ s.vifs, s.running vif = true → s.up vif = true ∧ s.iftype vif ≠ .p2pDevice
  p2pDev : ∀ vif ∈ s.p2pDevVif, vif ∈ s.vifs ∧ s.iftype vif = .p2pDevice
  roc : ∀ vif ∈ s.rocElem, vif ∈ s.vifs
  scan : ∀ vif ∈ s.scanRequest, vif ∈ s.vifs
  cac : ∀ vif ∈ s.cacVif, vif ∈ s.vifs
  inRange : s.fault = false

theorem Inv.sound {s : Hw} (h : Inv s) : Sound s where
  up := h.up
  started := h.started
  avail := h.avail
  table := fun idx vif leads => (h.owner idx vif leads).1
  p2pDev := fun vif its => (h.p2pDev vif its).1
  roc := h.roc
  scan := h.scan
  cac := h.cac
  inRange := h.inRange

section Steps

variable {s : Hw} {vif : Nat} {idx : UInt8}

/-- There are no more interfaces than indexes. -/
theorem Inv.few (h : Inv s) : s.vifs.length ≤ 36 := by
  have different : (s.vifs.map s.drvVifIndex).Nodup := h.nodup.map_on h.drvs
  have inside : s.vifs.map s.drvVifIndex ⊆ List.range s.limit := by
    intro idx member
    obtain ⟨vif, here, rfl⟩ := List.mem_map.mp member
    exact List.mem_range.mpr (h.drvRange vif here)
  have few := (different.subperm inside).length_le
  rw [List.length_map, List.length_range] at few
  unfold Hw.limit nxVirtDevMax nxRemoteStaMaxForOldIc nxRemoteStaMax at few
  split at few
  · omega
  · omega

/-- Nothing in the table leads to an interface that is down. -/
theorem Inv.absent (h : Inv s) (down : s.up vif = false) : s.vifTable idx ≠ some vif := by
  intro leads
  obtain ⟨here, rfl, _⟩ := h.owner idx vif leads
  cases down.symm.trans ((h.up vif here).mpr leads)

theorem Inv.addIf (h : Inv s) (here : vif ∈ s.vifs) (down : s.up vif = false) (free : s.Free idx) :
    Inv (s.addIf vif idx) := by
  obtain ⟨range, unused⟩ := free
  have counted : refs s.vifs (Function.update s.up vif true) true = refs s.vifs s.up true + 1 := by
    have moved := refs_update s.up (c := true) (k := true) h.nodup here
    simpa [down] using moved
  refine { h with up := ?_, owner := ?_, started := ?_, opened := ?_, inRange := ?_ }
  · intro other member
    by_cases same : other = vif
    · subst same
      simp [Hw.addIf]
    · simp only [Hw.addIf, Function.update_of_ne same]
      by_cases collides : s.vifIndex other = idx
      · rw [collides, Function.update_self, h.up other member, collides, unused]
        simp [Ne.symm same]
      · rw [Function.update_of_ne collides]
        exact h.up other member
  · intro other v leads
    by_cases same : other = idx
    · subst same
      simp only [Hw.addIf, Function.update_self, Option.some.injEq] at leads
      subst leads
      exact ⟨here, Function.update_self .., range⟩
    · simp only [Hw.addIf, Function.update_of_ne same] at leads
      have apart : v ≠ vif := by
        rintro rfl
        exact h.absent down leads
      simp only [Hw.addIf, Function.update_of_ne apart]
      exact h.owner other v leads
  · have few : refs s.vifs s.up true ≤ 36 := refs_le.trans h.few
    simp only [Hw.addIf]
    rw [counted, ← h.started, UInt8.toNat_add]
    rw [← h.started] at few
    apply Nat.mod_eq_of_lt
    simp only [UInt8.reduceToNat]
    omega
  · intro other member runs
    obtain ⟨isUp, kind⟩ := h.opened other member runs
    refine ⟨?_, kind⟩
    by_cases same : other = vif
    · subst same
      exact Function.update_self ..
    · exact (Function.update_of_ne same ..).trans isUp
  · simp [Hw.addIf, h.inRange, range]

theorem Inv.removeIf (h : Inv s) (here : vif ∈ s.vifs) (isUp : s.up vif = true)
    (shut : s.running vif = false) : Inv (s.removeIf vif) := by
  have leads := (h.up vif here).mp isUp
  obtain ⟨_, _, range⟩ := h.owner _ vif leads
  have counted : refs s.vifs (Function.update s.up vif false) true + 1 = refs s.vifs s.up true := by
    have moved := refs_update s.up (c := false) (k := true) h.nodup here
    simpa [isUp] using moved
  refine { h with up := ?_, owner := ?_, started := ?_, opened := ?_, inRange := ?_ }
  · intro other member
    by_cases same : other = vif
    · subst same
      simp [Hw.removeIf]
    · simp only [Hw.removeIf, Function.update_of_ne same]
      by_cases collides : s.vifIndex other = s.vifIndex vif
      · rw [collides, Function.update_self, h.up other member, collides, leads]
        simp [Ne.symm same]
      · rw [Function.update_of_ne collides]
        exact h.up other member
  · intro other v leads'
    by_cases same : other = s.vifIndex vif
    · subst same
      simp [Hw.removeIf] at leads'
    · simp only [Hw.removeIf, Function.update_of_ne same] at leads'
      exact h.owner other v leads'
  · have one : (1 : UInt8) ≤ s.vifStarted := by
      rw [UInt8.le_iff_toNat_le, h.started, UInt8.toNat_one]
      omega
    simp only [Hw.removeIf]
    rw [UInt8.toNat_sub_of_le _ _ one, h.started, UInt8.toNat_one]
    omega
  · intro other member runs
    obtain ⟨isUp', kind⟩ := h.opened other member runs
    have same : other ≠ vif := by
      rintro rfl
      cases shut.symm.trans runs
    exact ⟨(Function.update_of_ne same ..).trans isUp', kind⟩
  · have inside : ¬ vifTableSize ≤ s.vifIndex vif := by simpa using range
    simp [Hw.removeIf, h.inRange, inside]

theorem Inv.p2pAlive (h : Inv s) : Inv s.p2pAlive := { h with }

theorem Inv.setRunning (h : Inv s) {running : Nat → Bool}
    (opened : ∀ vif ∈ s.vifs, running vif = true → s.up vif = true ∧ s.iftype vif ≠ .p2pDevice) :
    Inv { s with running := running } := { h with opened := opened }

/-- A new interface, at an index that is free. -/
theorem Inv.newVif (h : Inv s) (fresh : vif ∉ s.vifs) {type : Iftype} {i : Nat} {vifIndex : UInt8}
    (free : s.availIdxMap i = true) : Inv (s.newVif vif type i vifIndex) := by
  have old : ∀ other ∈ s.vifs, other ≠ vif := by
    rintro other member rfl
    exact fresh member
  have unused : ∀ other ∈ s.vifs, s.drvVifIndex other ≠ i := by
    intro other member same
    have taken := (h.avail i (h.availRange i free)).mpr ⟨other, member, same⟩
    cases taken.symm.trans free
  constructor
  · exact List.nodup_cons.mpr ⟨fresh, h.nodup⟩
  · intro v member w member'
    simp only [Hw.newVif]
    rcases List.mem_cons.mp member with rfl | earlier
    · rcases List.mem_cons.mp member' with rfl | earlier'
      · exact fun _ => rfl
      · rw [Function.update_self, Function.update_of_ne (old w earlier')]
        exact fun same => absurd same.symm (unused w earlier')
    · rcases List.mem_cons.mp member' with rfl | earlier'
      · rw [Function.update_self, Function.update_of_ne (old v earlier)]
        exact fun same => absurd same (unused v earlier)
      · rw [Function.update_of_ne (old v earlier), Function.update_of_ne (old w earlier')]
        exact h.drvs v earlier w earlier'
  · intro v member
    simp only [Hw.newVif]
    rcases List.mem_cons.mp member with rfl | earlier
    · rw [Function.update_self]
      exact h.availRange i free
    · rw [Function.update_of_ne (old v earlier)]
      exact h.drvRange v earlier
  · intro j inside
    simp only [Hw.newVif, List.mem_cons, exists_eq_or_imp, Function.update_self]
    by_cases same : j = i
    · subst same
      simp
    · rw [Function.update_of_ne same, h.avail j inside]
      simp only [Ne.symm same, false_or]
      apply exists_congr
      intro other
      apply and_congr_right
      intro member
      rw [Function.update_of_ne (old other member)]
  · intro j isFree
    by_cases same : j = i
    · subst same
      simp [Hw.newVif] at isFree
    · simp only [Hw.newVif, Function.update_of_ne same] at isFree
      exact h.availRange j isFree
  · intro v member
    simp only [Hw.newVif]
    rcases List.mem_cons.mp member with rfl | earlier
    · rw [Function.update_self, Function.update_self]
      have absent : s.vifTable vifIndex ≠ some v := fun leads => fresh (h.owner _ v leads).1
      simp [absent]
    · rw [Function.update_of_ne (old v earlier), Function.update_of_ne (old v earlier)]
      exact h.up v earlier
  · intro j v leads
    obtain ⟨here, its, inside⟩ := h.owner j v leads
    exact ⟨List.mem_cons_of_mem _ here, (Function.update_of_ne (old v here) ..).trans its, inside⟩
  · simp only [Hw.newVif]
    rw [refs_cons, refs_update_absent fresh, Function.update_self]
    simpa using h.started
  · intro v member runs
    simp only [Hw.newVif] at runs ⊢
    rcases List.mem_cons.mp member with rfl | earlier
    · rw [Function.update_self] at runs
      cases runs
    · rw [Function.update_of_ne (old v earlier)] at runs ⊢
      rw [Function.update_of_ne (old v earlier)]
      exact h.opened v earlier runs
  · intro v its
    obtain ⟨here, kind⟩ := h.p2pDev v its
    exact ⟨List.mem_cons_of_mem _ here, (Function.update_of_ne (old v here) ..).trans kind⟩
  · exact fun v its => List.mem_cons_of_mem _ (h.roc v its)
  · exact fun v its => List.mem_cons_of_mem _ (h.scan v its)
  · exact fun v its => List.mem_cons_of_mem _ (h.cac v its)
  · exact h.inRange

theorem availIdx_free {type : Iftype} {i : Nat} (found : s.availIdx type = some i) :
    s.availIdxMap i = true := List.find?_some found

theorem Inv.addIface (h : Inv s) (fresh : vif ∉ s.vifs) {type : Iftype} {ok : Bool} :
    Inv (s.rwnxCfg80211AddIface vif type ok) := by
  unfold Hw.rwnxCfg80211AddIface
  split
  · rename_i kind
    unfold Hw.rwnxVirtualInterfaceAdd
    split
    · exact h
    · rename_i i found
      split
      · exact h
      · have added : Inv (s.newVif vif type i (UInt8.ofNat i)) := h.newVif fresh (availIdx_free found)
        dsimp only
        split
        · exact added
        · refine { added with p2pDev := ?_ }
          intro v its
          obtain rfl := Option.some.inj its
          exact ⟨List.mem_cons_self, by simp [Hw.newVif, kind]⟩
  · unfold Hw.rwnxInterfaceAdd
    split
    · exact h
    · split
      · exact h
      · exact h.newVif fresh (availIdx_free ‹_›)

theorem Inv.openP2pDev (h : Inv s) {dev : AddIf}
    (free : s.addsP2pDev vif = true → s.Free dev.instNbr) : Inv (s.openP2pDev vif dev) := by
  unfold Hw.openP2pDev
  split
  · rename_i p2p
    split
    · exact h.p2pAlive
    · rename_i dev' its
      split
      · exact h.p2pAlive
      · rename_i down
        have adds : s.addsP2pDev vif = true := by
          unfold Hw.addsP2pDev
          rw [p2p, its]
          simpa using down
        exact (h.addIf (h.p2pDev _ its).1 (by simpa using down) (free adds)).p2pAlive
  · exact h

/-- What opening does to the P2P device is not about the interface that is opened. -/
structure Apart (s t : Hw) (vif : Nat) (taken : UInt8 → Prop) : Prop where
  vifs : t.vifs = s.vifs
  iftype : t.iftype = s.iftype
  drvVifIndex : t.drvVifIndex = s.drvVifIndex
  up : t.up vif = s.up vif
  free : ∀ idx, s.Free idx → ¬ taken idx → t.Free idx

theorem Inv.openP2pDev_apart (h : Inv s) (kind : s.iftype vif ≠ .p2pDevice) {dev : AddIf} :
    Apart s (s.openP2pDev vif dev) vif
      fun idx => s.addsP2pDev vif = true ∧ idx = dev.instNbr := by
  unfold Hw.openP2pDev
  split
  · rename_i p2p
    split
    · exact ⟨rfl, rfl, rfl, rfl, fun _ free _ => free⟩
    · rename_i dev' its
      split
      · exact ⟨rfl, rfl, rfl, rfl, fun _ free _ => free⟩
      · rename_i down
        have adds : s.addsP2pDev vif = true := by
          unfold Hw.addsP2pDev
          rw [p2p, its]
          simpa using down
        have other : vif ≠ dev' := by
          rintro rfl
          exact kind (h.p2pDev _ its).2
        refine ⟨rfl, rfl, rfl, Function.update_of_ne other .., ?_⟩
        intro idx free notTaken
        have apart : idx ≠ dev.instNbr := fun same => notTaken ⟨adds, same⟩
        exact ⟨free.1, (Function.update_of_ne apart ..).trans free.2⟩
  · exact ⟨rfl, rfl, rfl, rfl, fun _ free _ => free⟩

/-- The interface is added, and its network device is open. -/
theorem Inv.run (h : Inv s) (here : vif ∈ s.vifs) (kind : s.iftype vif ≠ .p2pDevice)
    (down : s.up vif = false) (free : s.Free idx) :
    Inv { s.addIf vif idx with running := Function.update s.running vif true } := by
  apply (h.addIf here down free).setRunning
  intro other member runs
  by_cases same : other = vif
  · subst same
    exact ⟨Function.update_self .., kind⟩
  · rw [Function.update_of_ne same] at runs
    obtain ⟨isUp, kind'⟩ := h.opened other member runs
    exact ⟨(Function.update_of_ne same ..).trans isUp, kind'⟩

theorem Inv.open (h : Inv s) (here : vif ∈ s.vifs) (kind : s.iftype vif ≠ .p2pDevice) {start : Int}
    {dev own : AddIf} (kept : Kept s (.open vif start dev own)) :
    Inv (s.rwnxOpen vif start dev own) := by
  obtain ⟨down, devFree, ownFree⟩ := kept
  unfold Hw.rwnxOpen
  split
  · exact h
  · split
    · exact h
    · rename_i added
      have devOk : s.addsP2pDev vif = true → dev.ok = true := by
        intro adds
        simpa [adds] using added
      have opened : Inv (s.openP2pDev vif dev) := h.openP2pDev fun adds => devFree adds (devOk adds)
      have apart : Apart s (s.openP2pDev vif dev) vif _ := h.openP2pDev_apart kind
      have here' : vif ∈ (s.openP2pDev vif dev).vifs := apart.vifs ▸ here
      have kind' : (s.openP2pDev vif dev).iftype vif ≠ .p2pDevice := apart.iftype ▸ kind
      have down' := apart.up.trans down
      have free (ok : s.iftype vif = .apVlan ∨ own.ok = true) :
          (s.openP2pDev vif dev).Free (s.ownIdx vif own) := by
        obtain ⟨free, different⟩ := ownFree ok
        apply apart.free _ free
        rintro ⟨adds, same⟩
        exact different adds same
      dsimp only
      rw [apart.iftype, apart.drvVifIndex]
      split
      · rename_i vlan
        have own := free (.inl vlan)
        unfold Hw.ownIdx at own
        rw [if_pos vlan] at own
        exact opened.run here' kind' down' own
      · rename_i notVlan
        split
        · rename_i ok
          have own := free (.inr ok)
          unfold Hw.ownIdx at own
          rw [if_neg notVlan] at own
          exact opened.run here' kind' down' own
        · exact opened

theorem Inv.clearScan (h : Inv s) {gone : Prop} [Decidable gone] :
    Inv { s with scanRequest := if gone then none else s.scanRequest } := by
  refine { h with scan := ?_ }
  intro v its
  simp only [Option.mem_def, Option.ite_none_left_eq_some] at its
  exact h.scan v its.2

theorem Inv.clearRoc (h : Inv s) {gone : Prop} [Decidable gone] :
    Inv { s with rocElem := if gone then none else s.rocElem } := by
  refine { h with roc := ?_ }
  intro v its
  simp only [Option.mem_def, Option.ite_none_left_eq_some] at its
  exact h.roc v its.2

theorem Inv.close (h : Inv s) (here : vif ∈ s.vifs) (runs : s.running vif = true) {cancel : Int}
    (kept : Kept s (.close vif cancel)) : Inv (s.rwnxClose vif cancel) := by
  have opened : ∀ other ∈ s.vifs, Function.update s.running vif false other = true →
      s.up other = true ∧ s.iftype other ≠ .p2pDevice := by
    intro other member runs
    by_cases same : other = vif
    · subst same
      rw [Function.update_self] at runs
      cases runs
    · rw [Function.update_of_ne same] at runs
      exact h.opened other member runs
  have shut : Inv { s with running := Function.update s.running vif false, cacVif := none } :=
    { h.setRunning opened with cac := fun _ wrong => (by cases wrong) }
  have goesOn : ¬ (s.scanRequest = some vif ∧ cancel ≠ 0) := fun wrong => wrong.2 (kept wrong.1)
  unfold Hw.rwnxClose
  dsimp only
  rw [if_neg goesOn]
  exact shut.clearScan.clearRoc.removeIf here (h.opened vif here runs).1 (Function.update_self ..)

/-- An interface that is up gets another index, or the same again. -/
theorem Inv.moveIf (h : Inv s) (here : vif ∈ s.vifs) (isUp : s.up vif = true)
    (free : s.Free idx ∨ idx = s.vifIndex vif) :
    Inv { s with
      vifIndex := Function.update s.vifIndex vif idx
      vifTable := Function.update (Function.update s.vifTable (s.vifIndex vif) none) idx (some vif)
      fault := s.fault || vifTableSize ≤ idx } := by
  have leads := (h.up vif here).mp isUp
  have range : idx < vifTableSize := by
    obtain free | rfl := free
    · exact free.1
    · exact (h.owner _ vif leads).2.2
  have others : ∀ other, other ≠ vif → s.vifTable idx ≠ some other := by
    intro other apart wrong
    obtain free | rfl := free
    · cases free.2.symm.trans wrong
    · exact apart (Option.some.inj (leads.symm.trans wrong)).symm
  refine { h with up := ?_, owner := ?_, inRange := ?_ }
  · intro other member
    by_cases same : other = vif
    · subst same
      simp [isUp]
    · simp only [Function.update_of_ne same]
      by_cases collides : s.vifIndex other = idx
      · rw [collides, Function.update_self, h.up other member, collides]
        simp [others other same, Ne.symm same]
      · rw [Function.update_of_ne collides]
        by_cases old : s.vifIndex other = s.vifIndex vif
        · rw [old, Function.update_self, h.up other member, old, leads]
          simp [Ne.symm same]
        · rw [Function.update_of_ne old]
          exact h.up other member
  · intro j v leads'
    by_cases same : j = idx
    · subst same
      simp only [Function.update_self, Option.some.injEq] at leads'
      subst leads'
      exact ⟨here, Function.update_self .., range⟩
    · simp only [Function.update_of_ne same] at leads'
      by_cases old : j = s.vifIndex vif
      · subst old
        simp at leads'
      · rw [Function.update_of_ne old] at leads'
        have apart : v ≠ vif := by
          rintro rfl
          exact old (h.owner j v leads').2.1.symm
        simp only [Function.update_of_ne apart]
        exact h.owner j v leads'
  · have inside : ¬ vifTableSize ≤ idx := by simpa using range
    simp [h.inRange, inside]

theorem Inv.setType (h : Inv s) (kind : s.iftype vif ≠ .p2pDevice) {type : Iftype}
    (kind' : type ≠ .p2pDevice) : Inv { s with iftype := Function.update s.iftype vif type } := by
  refine { h with opened := ?_, p2pDev := ?_ }
  · intro other member runs
    obtain ⟨isUp, known⟩ := h.opened other member runs
    refine ⟨isUp, ?_⟩
    by_cases same : other = vif
    · subst same
      simpa using kind'
    · simpa only [Function.update_of_ne same] using known
  · intro dev its
    obtain ⟨here, known⟩ := h.p2pDev dev its
    have apart : dev ≠ vif := by
      rintro rfl
      exact kind known
    exact ⟨here, (Function.update_of_ne apart ..).trans known⟩

theorem Inv.changeIface (h : Inv s) (here : vif ∈ s.vifs) (kind : s.iftype vif ≠ .p2pDevice)
    {type : Iftype} (kind' : type ≠ .p2pDevice) {cancel remove : Int} {add : AddIf}
    (kept : Kept s (.changeIface vif type cancel remove add)) :
    Inv (s.rwnxCfg80211ChangeIface vif type cancel remove add) := by
  have typed : Inv { s with iftype := Function.update s.iftype vif type } := h.setType kind kind'
  unfold Hw.rwnxCfg80211ChangeIface
  dsimp only
  split
  · exact h
  · split
    · exact typed
    · rename_i isUp
      split
      · exact typed
      · rename_i cancelled
        split
        · exact typed
        · rename_i removed
          have cancelled' : s.scanRequest = some vif → cancel = 0 := by
            intro scans
            by_contra wrong
            exact cancelled ⟨scans, wrong⟩
          obtain ⟨ok, free⟩ := kept (by simpa using isUp) cancelled' (by simpa using removed)
          rw [if_pos ok]
          exact typed.moveIf here (by simpa using isUp) free

theorem Inv.delIface (h : Inv s) (here : vif ∈ s.vifs) (kept : Kept s (.delIface vif)) :
    Inv (s.rwnxCfg80211DelIface vif) := by
  obtain ⟨down, notDev, notRoc, notScan, notCac⟩ := kept
  have old : ∀ other ∈ s.vifs.erase vif, other ∈ s.vifs := fun other => List.mem_of_mem_erase
  have still : ∀ other ∈ s.vifs, other ≠ vif → other ∈ s.vifs.erase vif := by
    intro other member apart
    exact (List.mem_erase_of_ne apart).mpr member
  constructor
  · exact h.nodup.erase _
  · intro v member w member'
    exact h.drvs v (old v member) w (old w member')
  · intro v member
    exact h.drvRange v (old v member)
  · intro i inside
    simp only [Hw.rwnxCfg80211DelIface]
    by_cases same : i = s.drvVifIndex vif
    · subst same
      rw [Function.update_self]
      simp only [Bool.true_eq_false, false_iff, not_exists, not_and]
      intro other member same
      obtain rfl := h.drvs other (old other member) vif here same
      exact h.nodup.not_mem_erase member
    · rw [Function.update_of_ne same, h.avail i inside]
      constructor
      · rintro ⟨other, member, rfl⟩
        have apart : other ≠ vif := by
          rintro rfl
          exact same rfl
        exact ⟨other, still other member apart, rfl⟩
      · rintro ⟨other, member, its⟩
        exact ⟨other, old other member, its⟩
  · intro i isFree
    by_cases same : i = s.drvVifIndex vif
    · rw [same]
      exact h.drvRange vif here
    · simp only [Hw.rwnxCfg80211DelIface, Function.update_of_ne same] at isFree
      exact h.availRange i isFree
  · intro v member
    exact h.up v (old v member)
  · intro i v leads
    obtain ⟨there, known⟩ := h.owner i v leads
    have apart : v ≠ vif := by
      rintro rfl
      exact h.absent down leads
    exact ⟨still v there apart, known⟩
  · have counted : refs (s.vifs.erase vif) s.up true = refs s.vifs s.up true := by
      apply refs_erase
      simp [down]
    exact h.started.trans counted.symm
  · intro v member
    exact h.opened v (old v member)
  · intro v its
    obtain ⟨there, kind⟩ := h.p2pDev v its
    exact ⟨still v there (by rintro rfl; exact notDev its), kind⟩
  · intro v its
    exact still v (h.roc v its) (by rintro rfl; exact notRoc its)
  · intro v its
    exact still v (h.scan v its) (by rintro rfl; exact notScan its)
  · intro v its
    exact still v (h.cac v its) (by rintro rfl; exact notCac its)
  · exact h.inRange

/-- The P2P device has no network device that could be open. -/
theorem Inv.devShut (h : Inv s) (its : s.p2pDevVif = some vif) : s.running vif = false := by
  obtain ⟨here, kind⟩ := h.p2pDev vif its
  by_contra runs
  exact (h.opened vif here (by simpa using runs)).2 kind

theorem Inv.stopP2pDevice (h : Inv s) : Inv (s.rwnxCfgp2pStopP2pDevice vif) := by
  have cleared : Inv { s with
      scanRequest := if s.scanRequest = some vif then none else s.scanRequest } := h.clearScan
  unfold Hw.rwnxCfgp2pStopP2pDevice
  dsimp only
  split
  · rename_i its
    have stopped : Inv { s with
        scanRequest := if s.scanRequest = some vif then none else s.scanRequest
        isP2pAlive := false, p2pAliveTimer := false } := { cleared with }
    split
    · rename_i isUp
      exact stopped.removeIf (h.p2pDev vif its).1 isUp (h.devShut its)
    · exact stopped
  · exact cleared

theorem Inv.p2pAliveTimeout (h : Inv s) (kept : Kept s .p2pAliveTimeout) :
    Inv s.aicwfP2pAliveTimeout := by
  unfold Hw.aicwfP2pAliveTimeout
  split
  · exact { h with }
  · rename_i expired
    have ended : Inv { s with isP2pAlive := false, p2pAliveTimer := false, p2pAliveTimerCount := 0 } :=
      { h with }
    obtain ⟨vif, its, isUp⟩ := kept (Nat.le_of_not_lt expired)
    have dev : s.p2pDevVif = some vif := its
    simp only [dev] at ended ⊢
    exact ended.removeIf (h.p2pDev vif its).1 isUp (h.devShut its)

theorem Inv.scanOn (h : Inv s) (here : vif ∈ s.vifs) {refused alloc wildcard : Bool} {add : AddIf}
    (kept : Kept s (.scan vif refused alloc wildcard add)) :
    Inv (s.rwnxCfg80211Scan vif refused alloc wildcard add) := by
  have scans : Inv { s with scanRequest := some vif } := by
    refine { h with scan := ?_ }
    intro v its
    obtain rfl := Option.some.inj its
    exact here
  unfold Hw.rwnxCfg80211Scan
  dsimp only
  split
  · exact h
  · rename_i notRefused
    split
    · exact scans
    · rename_i goes
      simp only [Bool.or_eq_true, Bool.not_eq_true', not_or, Bool.not_eq_false] at goes
      split
      · rename_i down
        split
        · rename_i ok
          have free := kept (by simpa using notRefused) goes.1 goes.2 down ok
          exact (scans.addIf here down.2 free).p2pAlive
        · exact scans
      · exact scans.p2pAlive

theorem Inv.remainOnChannel (h : Inv s) (here : vif ∈ s.vifs) {add : AddIf} {alloc : Bool} {roc : Int}
    (kept : Kept s (.remainOnChannel vif add alloc roc)) :
    Inv (s.rwnxCfg80211RemainOnChannel vif add alloc roc) := by
  unfold Hw.rwnxCfg80211RemainOnChannel
  split
  · exact h
  · rename_i none
    dsimp only
    split
    · exact h
    · rename_i added
      have ready : ∀ t : Hw, t.vifs = s.vifs → Inv t →
          Inv (if alloc && roc = 0 then { t with rocElem := some vif } else t) := by
        intro t same inv
        split
        · refine { inv with roc := ?_ }
          intro v its
          obtain rfl := Option.some.inj its
          exact same ▸ here
        · exact inv
      apply ready
      · split
        · split
          · rfl
          · rfl
        · rfl
      · split
        · rename_i down
          split
          · exact h.p2pAlive
          · rename_i dead
            have ok : add.ok = true := by
              by_contra wrong
              exact added ⟨down, by simpa using dead, by simpa using wrong⟩
            have free := kept (by simpa using none) down (by simpa using dead) ok
            exact (h.addIf here down.2 free).p2pAlive
        · exact h

end Steps

theorem inv_init (oldIc : Bool) : Inv (init oldIc) where
  nodup := List.nodup_nil
  drvs := fun _ member => (by cases member)
  drvRange := fun _ member => (by cases member)
  avail := by
    intro idx inside
    have free : (init oldIc).availIdxMap idx = true := decide_eq_true inside
    rw [free]
    simp [init]
  availRange := fun _ free => of_decide_eq_true free
  up := fun _ member => (by cases member)
  owner := fun _ _ wrong => (by cases wrong)
  started := rfl
  opened := fun _ member => (by cases member)
  p2pDev := fun _ wrong => (by cases wrong)
  roc := fun _ wrong => (by cases wrong)
  scan := fun _ wrong => (by cases wrong)
  cac := fun _ wrong => (by cases wrong)
  inRange := rfl

theorem Inv.step {s t : Hw} {e : Event} (h : Inv s) (kept : Kept s e) (taken : s.step e = some t) :
    Inv t := by
  cases e with
  | addIface vif type ok =>
      simp only [Hw.step, Option.ite_none_right_eq_some, Option.some.injEq] at taken
      obtain ⟨fresh, rfl⟩ := taken
      exact h.addIface fresh
  | «open» vif start dev own =>
      simp only [Hw.step, Option.ite_none_right_eq_some, Option.some.injEq] at taken
      obtain ⟨⟨here, kind, _⟩, rfl⟩ := taken
      exact h.open here kind kept
  | close vif cancel =>
      simp only [Hw.step, Option.ite_none_right_eq_some, Option.some.injEq] at taken
      obtain ⟨⟨here, runs⟩, rfl⟩ := taken
      exact h.close here runs kept
  | changeIface vif type cancel remove add =>
      simp only [Hw.step, Option.ite_none_right_eq_some, Option.some.injEq] at taken
      obtain ⟨⟨here, kind, kind'⟩, rfl⟩ := taken
      exact h.changeIface here kind kind' kept
  | delIface vif =>
      simp only [Hw.step, Option.ite_none_right_eq_some, Option.some.injEq] at taken
      obtain ⟨⟨here, _⟩, rfl⟩ := taken
      exact h.delIface here kept
  | startP2pDevice vif =>
      simp only [Hw.step, Option.ite_none_right_eq_some, Option.some.injEq] at taken
      obtain ⟨_, rfl⟩ := taken
      exact h
  | stopP2pDevice vif =>
      simp only [Hw.step, Option.ite_none_right_eq_some, Option.some.injEq] at taken
      obtain ⟨_, rfl⟩ := taken
      exact h.stopP2pDevice
  | p2pAliveTimeout =>
      simp only [Hw.step, Option.ite_none_right_eq_some, Option.some.injEq] at taken
      obtain ⟨_, rfl⟩ := taken
      exact h.p2pAliveTimeout kept
  | scan vif refused alloc wildcard add =>
      simp only [Hw.step, Option.ite_none_right_eq_some, Option.some.injEq] at taken
      obtain ⟨here, rfl⟩ := taken
      exact h.scanOn here kept
  | scanDone =>
      obtain rfl := Option.some.inj taken
      exact { h with scan := fun _ wrong => (by cases wrong) }
  | remainOnChannel vif add alloc roc =>
      simp only [Hw.step, Option.ite_none_right_eq_some, Option.some.injEq] at taken
      obtain ⟨here, rfl⟩ := taken
      exact h.remainOnChannel here kept
  | rocExpired =>
      obtain rfl := Option.some.inj taken
      exact { h with roc := fun _ wrong => (by cases wrong) }
  | startRadarDetection vif =>
      simp only [Hw.step, Option.ite_none_right_eq_some, Option.some.injEq] at taken
      obtain ⟨⟨here, _⟩, rfl⟩ := taken
      refine { h with cac := ?_ }
      intro v its
      obtain rfl := Option.some.inj its
      exact here
  | cacDone =>
      obtain rfl := Option.some.inj taken
      exact { h with cac := fun _ wrong => (by cases wrong) }

/-- In every run whose steps keep them so, the interfaces are sound. -/
theorem vifs_sound (oldIc : Bool) {s : Hw} (run : Run.Reachable Hw.step Kept (init oldIc) s) :
    Sound s := by
  have inv : Inv s := by
    apply run.invariant Inv (inv_init oldIc)
    intro s e t h kept taken
    exact h.step kept taken
  exact inv.sound

instance (s : Hw) (idx : UInt8) : Decidable (s.Free idx) := inferInstanceAs (Decidable (_ ∧ _))

instance (s : Hw) (vif : Nat) : Decidable (s.P2pDown vif) := inferInstanceAs (Decidable (_ ∧ _))

instance (s : Hw) (e : Event) : Decidable (Kept s e) :=
  match e with
  | .open _ _ _ _ => inferInstanceAs (Decidable (_ ∧ (_ → _ → _) ∧ (_ ∨ _ → _ ∧ (_ → _))))
  | .close _ _ => inferInstanceAs (Decidable (_ → _))
  | .changeIface _ _ _ _ _ => inferInstanceAs (Decidable (_ → (_ → _) → _ → _ ∧ (_ ∨ _)))
  | .delIface _ => inferInstanceAs (Decidable (_ ∧ _ ∧ _ ∧ _ ∧ _))
  | .p2pAliveTimeout => inferInstanceAs (Decidable (_ → ∃ vif ∈ s.p2pDevVif, _))
  | .scan _ _ _ _ _ => inferInstanceAs (Decidable (_ → _ → _ → _ → _ → _))
  | .remainOnChannel _ _ _ _ => inferInstanceAs (Decidable (_ → _ → _ → _ → _))
  | .addIface _ _ _ | .startP2pDevice _ | .stopP2pDevice _ | .scanDone | .rocExpired
  | .startRadarDetection _ | .cacDone => inferInstanceAs (Decidable True)

/-- The firmware adds an interface at this index. -/
def added (instNbr : UInt8) : AddIf := ⟨0, 0, instNbr⟩

/-- The firmware refuses to add an interface. -/
def refused : AddIf := ⟨0, 1, 0⟩

/-- A station, the P2P device with a procedure and a scan, a P2P client and an access point. -/
def vifsRun : List Event :=
  [.addIface 0 .station true, .open 0 0 refused (added 0), .addIface 1 .p2pDevice true,
    .startP2pDevice 1, .remainOnChannel 1 (added 1) true 0, .rocExpired, .p2pAliveTimeout,
    .stopP2pDevice 1, .scan 1 false true true (added 2), .scanDone, .addIface 2 .p2pClient true,
    .open 2 0 refused refused, .open 2 0 refused (added 3), .stopP2pDevice 1, .close 2 0,
    .open 2 0 (added 1) (added 2), .p2pAliveTimeout, .close 2 0, .delIface 2,
    .changeIface 0 .ap 0 0 (added 3), .startRadarDetection 0, .cacDone, .scan 0 false true false refused,
    .close 0 0, .delIface 0, .addIface 3 .monitor true]

theorem vifs_sound_run : ∃ s, Run.exec Hw.step (init false) vifsRun = some s ∧ Sound s := by
  obtain ⟨s, run⟩ := Option.isSome_iff_exists.mp
    (show (Run.exec Hw.step (init false) vifsRun).isSome = true by decide)
  exact ⟨s, run, vifs_sound false
    (Run.Reachable.exec_guarded (fun _ _ => of_decide_eq_true) _ .init run (by decide))⟩

/-- The type of an interface changes, and the firmware does not add it again: it is up, and the
    table does not lead to it any more. -/
theorem changed_vif_is_lost :
    ¬ ∀ s : Hw, Run.Reachable Hw.step Run.Free (init false) s → Sound s := by
  intro sound
  have lost := sound _ (.exec [.addIface 0 .station true, .open 0 0 refused (added 0),
    .changeIface 0 .ap 0 0 refused] .init rfl)
  have leads := (lost.up 0 (List.mem_singleton_self _)).mp rfl
  cases leads

end Aic8800.Cfg.Vifs
