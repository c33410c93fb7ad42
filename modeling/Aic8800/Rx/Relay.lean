import Aic8800.Reorder.Frames

/-! # Where an access point sends what it receives

An MSDU that an access point receives is for the host, for another station of the cell,
or for both. The rule is written twice: in the branch for access points of
`rwnx_rxdataind_aicwf`, for each MSDU, and in `rwnx_rx_data_skb`, once for all MSDUs of
a frame. What is handed up while frames are reordered is attached to a `recv_msdu`
first. What is sent on goes to the code that copies it; whether there is memory for the
copy is not looked at here.
-/

namespace Aic8800.Rx

open Reorder (MacAddr sampleMac)

inductive VifType where
  | station
  | p2pClient
  | ap
  | p2pGo
  | apVlan
  | meshPoint
  | monitor
  | other
  deriving DecidableEq

structure Vif where
  vifIndex : UInt8
  iftype : VifType
  up : Bool
  /-- The flag `RWNX_AP_ISOLATE` of `ap.flags`. -/
  isolate : Bool
  /-- The addresses in `ap.sta_list`. -/
  staList : List MacAddr

structure Sta where
  valid : Bool
  vlanIdx : UInt8

/-- `RWNX_INVALID_STA` -/
def invalidSta : UInt8 := 0xFF

/-- The flags and indices of a `hw_rxhdr`. -/
structure HwRxhdr where
  isMonitorVif : Bool
  upload : Bool
  is80211Mpdu : Bool
  isAmsdu : Bool
  needReord : Bool
  vifIdx : UInt8
  staIdx : UInt8
  dstIdx : UInt8

/-- What is done with an MSDU. -/
structure Relay where
  forward : Bool
  resend : Bool
  deriving DecidableEq

/-- `-EOPNOTSUPP` -/
def eopnotsupp : Int := -95

/-- `rwnx_cfg80211_change_bss` -/
def changeBss (vif : Vif) (apIsolate : Int) : Vif × Int :=
  if (vif.iftype = .ap ∨ vif.iftype = .p2pGo) ∧ -1 < apIsolate then
    ({ vif with isolate := decide (apIsolate ≠ 0) }, 0)
  else (vif, eopnotsupp)

section Decision

variable (vif : Vif) (staTable : UInt8 → Sta) (hdr : HwRxhdr)

/-- The descriptor names a station of the interface as the receiver. -/
def byIndex : Bool := (staTable hdr.dstIdx).valid && (staTable hdr.dstIdx).vlanIdx == vif.vifIndex

/-- The branch for access points takes a unicast MSDU for one to a station of the cell. -/
def found (dest : MacAddr) : Bool :=
  if hdr.dstIdx ≠ invalidSta ∧ hdr.isAmsdu = false then byIndex vif staTable hdr
  else decide (dest ∈ vif.staList)

/-- What the branch for access points does with an MSDU. -/
def apDecision (dest : MacAddr) : Relay :=
  if MacAddr.isGroup dest then ⟨true, true⟩
  else if found vif staTable hdr dest then ⟨false, true⟩
  else ⟨true, false⟩

/-- The loop of the branch for access points. Frames that are to be reordered need a
    `recv_msdu`, which the first MSDU takes; without one the loop is left. -/
def apLoop (isQos allocated : Bool) : Bool → List MacAddr → List Relay
  | _, [] => []
  | hasFrame, dest :: rest =>
      let decision := apDecision vif staTable hdr dest
      if isQos && hdr.needReord && !hasFrame then
        if allocated then decision :: apLoop isQos allocated true rest
        else { decision with forward := false } :: rest.map fun _ => ⟨false, false⟩
      else decision :: apLoop isQos allocated hasFrame rest

def apBranch (isQos allocated : Bool) (dests : List MacAddr) : List Relay :=
  apLoop vif staTable hdr isQos allocated false dests

/-- What `rwnx_rx_data_skb` finds for the first MSDU of a frame. -/
def skbDecision (dest : MacAddr) : Relay :=
  if MacAddr.isGroup dest then ⟨true, true⟩
  else if hdr.dstIdx ≠ invalidSta ∧ byIndex vif staTable hdr = true then ⟨false, true⟩
  else ⟨true, false⟩

def meshDecision (dest : MacAddr) : Relay :=
  if MacAddr.isGroup dest then ⟨true, false⟩
  else if hdr.dstIdx ≠ invalidSta then ⟨false, true⟩
  else ⟨true, false⟩

/-- `rwnx_rx_data_skb`. It looks at the first MSDU without a test that there is one. -/
def rxDataSkb (dests : List MacAddr) : Option (List Relay) :=
  if (vif.iftype = .ap ∨ vif.iftype = .apVlan ∨ vif.iftype = .p2pGo) ∧ vif.isolate = false then
    dests.head?.map fun first => dests.map fun _ => skbDecision vif staTable hdr first
  else if vif.iftype = .meshPoint then
    dests.head?.map fun first => dests.map fun _ => meshDecision hdr first
  else some (dests.map fun _ => ⟨true, false⟩)

end Decision

/-! ## The rule -/

/-- The rule for an access point: what is for a group is for the host and the cell, what is for
    an associated station is only for the cell, and everything else only for the host.
    An isolated cell gets nothing. -/
def Vif.rule (vif : Vif) (dest : MacAddr) : Relay :=
  if vif.isolate then ⟨true, false⟩
  else if MacAddr.isGroup dest then ⟨true, true⟩
  else if dest ∈ vif.staList then ⟨false, true⟩
  else ⟨true, false⟩

/-- An isolated cell sends nothing on. -/
theorem rule_isolated {vif : Vif} (isolate : vif.isolate = true) (dest : MacAddr) :
    (vif.rule dest).resend = false := by
  rw [Vif.rule, if_pos isolate]

section Fits

variable (vif : Vif) (staTable : UInt8 → Sta) (hdr : HwRxhdr)

/-- The branch for access points is right about an MSDU: in an isolated cell it is for
    neither a group nor a station that is found; else a unicast MSDU is for a station
    that is found exactly if it is for one that is associated. -/
def ApFits (dest : MacAddr) : Prop :=
  if vif.isolate then MacAddr.isGroup dest = false ∧ found vif staTable hdr dest = false
  else MacAddr.isGroup dest = true ∨ (found vif staTable hdr dest = true ↔ dest ∈ vif.staList)

/-- There is a `recv_msdu`, or the frame needs none, or has one MSDU which is not for
    the host. -/
def FrameFits (isQos allocated : Bool) (dests : List MacAddr) : Prop :=
  (isQos && hdr.needReord) = false ∨ allocated = true ∨ dests = [] ∨
    ∃ dest, dests = [dest] ∧ MacAddr.isGroup dest = false ∧ found vif staTable hdr dest = true

/-- `rwnx_rx_data_skb` is right about all MSDUs: the cell is isolated, or there is a
    first one, all are for groups or none is, and in the second case the index tells for
    each whether it is for an associated station. -/
def SkbFits (dests : List MacAddr) : Prop :=
  vif.isolate = true ∨ ∃ first rest, dests = first :: rest ∧
    ∀ dest ∈ dests, MacAddr.isGroup dest = MacAddr.isGroup first ∧ (MacAddr.isGroup first = true ∨
      ((hdr.dstIdx ≠ invalidSta ∧ byIndex vif staTable hdr = true) ↔ dest ∈ vif.staList))

end Fits

/-! ## The two paths and the rule -/

section Paths

variable {vif : Vif} {staTable : UInt8 → Sta} {hdr : HwRxhdr} {isQos allocated : Bool}
  {dest : MacAddr} {dests : List MacAddr}

theorem apDecision_eq_rule :
    apDecision vif staTable hdr dest = vif.rule dest ↔ ApFits vif staTable hdr dest := by
  unfold apDecision Vif.rule ApFits
  by_cases isolate : vif.isolate = true <;> by_cases group : MacAddr.isGroup dest = true <;>
    by_cases station : dest ∈ vif.staList <;>
    by_cases there : found vif staTable hdr dest = true <;>
    simp [isolate, group, station, there]

/-- With a `recv_msdu`, or without a need for one, every MSDU is handled as decided. -/
theorem apLoop_eq {hasFrame : Bool}
    (served : (isQos && hdr.needReord) = false ∨ allocated = true ∨ hasFrame = true) :
    apLoop vif staTable hdr isQos allocated hasFrame dests =
      dests.map (apDecision vif staTable hdr) := by
  induction dests generalizing hasFrame with
  | nil => rfl
  | cons first rest ih =>
      unfold apLoop
      split
      · rename_i needs
        simp only [Bool.and_eq_true, Bool.not_eq_true'] at needs
        have some_ : allocated = true := by
          obtain none_ | yes | has := served
          · simp [needs.1] at none_
          · exact yes
          · rw [needs.2] at has
            cases has
        rw [if_pos some_, ih (.inr (.inr rfl)), List.map_cons]
      · rw [ih served, List.map_cons]

/-- Without one the host gets nothing of the frame. -/
theorem apBranch_unserved (needs : (isQos && hdr.needReord) = true) (failed : allocated = false)
    (first : MacAddr) (rest : List MacAddr) :
    apBranch vif staTable hdr isQos allocated (first :: rest) =
      { apDecision vif staTable hdr first with forward := false } ::
        rest.map fun _ => ⟨false, false⟩ := by
  simp [apBranch, apLoop, needs, failed]

/-- The rule leaves no MSDU without a receiver. -/
theorem rule_ne_nothing : vif.rule dest ≠ ⟨false, false⟩ := by
  unfold Vif.rule
  split
  · simp
  · split
    · simp
    · split <;> simp

/-- The first MSDU of a frame without a `recv_msdu` is handled right if it is not for the
    host. -/
theorem unforwarded_eq_rule :
    { apDecision vif staTable hdr dest with forward := false } = vif.rule dest ↔
      ApFits vif staTable hdr dest ∧ MacAddr.isGroup dest = false ∧
        found vif staTable hdr dest = true := by
  unfold apDecision Vif.rule ApFits
  by_cases isolate : vif.isolate = true <;> by_cases group : MacAddr.isGroup dest = true <;>
    by_cases station : dest ∈ vif.staList <;>
    by_cases there : found vif staTable hdr dest = true <;>
    simp [isolate, group, station, there]

theorem apBranch_eq_rule :
    apBranch vif staTable hdr isQos allocated dests = dests.map vif.rule ↔
      (∀ dest ∈ dests, ApFits vif staTable hdr dest) ∧
        FrameFits vif staTable hdr isQos allocated dests := by
  by_cases served : (isQos && hdr.needReord) = false ∨ allocated = true
  · have every : apBranch vif staTable hdr isQos allocated dests =
        dests.map (apDecision vif staTable hdr) :=
      apLoop_eq (served.imp_right .inl)
    have fits : FrameFits vif staTable hdr isQos allocated dests := served.imp_right .inl
    rw [every, List.map_inj_left, and_iff_left fits]
    exact forall₂_congr fun _ _ => apDecision_eq_rule
  · obtain ⟨needs, failed⟩ := not_or.mp served
    have needs : (isQos && hdr.needReord) = true := Bool.of_not_eq_false needs
    have failed : allocated = false := Bool.of_not_eq_true failed
    cases dests with
    | nil => simp [apBranch, apLoop, FrameFits]
    | cons first rest =>
        rw [apBranch_unserved needs failed, List.map_cons, List.cons.injEq, unforwarded_eq_rule]
        constructor
        · intro ⟨⟨fits, lone⟩, others⟩
          cases rest with
          | nil => exact ⟨by simpa using fits, .inr (.inr (.inr ⟨first, rfl, lone⟩))⟩
          | cons next more =>
              rw [List.map_cons, List.map_cons, List.cons.injEq] at others
              exact absurd others.1.symm rule_ne_nothing
        · intro ⟨fits, frame⟩
          obtain none_ | some_ | empty | ⟨only, same, lone⟩ := frame
          · rw [needs] at none_
            cases none_
          · rw [failed] at some_
            cases some_
          · cases empty
          · obtain ⟨rfl, rfl⟩ := List.cons.inj same
            exact ⟨⟨fits first (List.mem_singleton_self first), lone⟩, rfl⟩

theorem skbDecision_eq_rule {first : MacAddr} (open_ : vif.isolate = false) :
    skbDecision vif staTable hdr first = vif.rule dest ↔
      MacAddr.isGroup dest = MacAddr.isGroup first ∧ (MacAddr.isGroup first = true ∨
        ((hdr.dstIdx ≠ invalidSta ∧ byIndex vif staTable hdr = true) ↔ dest ∈ vif.staList)) := by
  unfold skbDecision Vif.rule
  by_cases group : MacAddr.isGroup dest = true <;> by_cases head : MacAddr.isGroup first = true <;>
    by_cases station : dest ∈ vif.staList <;>
    by_cases there : hdr.dstIdx ≠ invalidSta ∧ byIndex vif staTable hdr = true <;>
    simp [open_, group, head, station, there]

theorem rxDataSkb_eq_rule (served : vif.iftype = .ap ∨ vif.iftype = .p2pGo) :
    rxDataSkb vif staTable hdr dests = some (dests.map vif.rule) ↔ SkbFits vif staTable hdr dests := by
  have kind : vif.iftype = .ap ∨ vif.iftype = .apVlan ∨ vif.iftype = .p2pGo := served.imp_right .inr
  have noMesh : vif.iftype ≠ .meshPoint := by
    rintro mesh
    rw [mesh] at served
    cases served with | _ same => cases same
  cases isolate : vif.isolate with
  | true =>
      have same : vif.rule = fun _ => ⟨true, false⟩ := funext fun dest => by rw [Vif.rule, if_pos isolate]
      simp [rxDataSkb, SkbFits, isolate, noMesh, same]
  | false =>
      rw [rxDataSkb, if_pos ⟨kind, isolate⟩]
      cases dests with
      | nil => simp [SkbFits, isolate]
      | cons first rest =>
          rw [List.head?_cons, Option.map_some, Option.some.injEq, List.map_inj_left]
          constructor
          · intro same
            refine .inr ⟨first, rest, rfl, fun dest member => ?_⟩
            exact (skbDecision_eq_rule isolate).mp (same dest member)
          · intro fits dest member
            obtain on | ⟨head, tail, split_, fits⟩ := fits
            · rw [isolate] at on
              cases on
            · obtain ⟨rfl, rfl⟩ := List.cons.inj split_
              exact (skbDecision_eq_rule isolate).mpr (fits dest member)

/-- On a station everything is for the host. -/
theorem rxDataSkb_client (client : vif.iftype = .station ∨ vif.iftype = .p2pClient) :
    rxDataSkb vif staTable hdr dests = some (dests.map fun _ => ⟨true, false⟩) := by
  cases client with | _ kind => simp [rxDataSkb, kind]

/-- The chain that an MSDU is attached to while frames are reordered is the one that the
    decision asks for. -/
theorem forward_eq {m : Reorder.Msdu} (same : m.inBss = found vif staTable hdr m.eh.hDest) :
    m.forward = (apDecision vif staTable hdr m.eh.hDest).forward := by
  rw [Reorder.Msdu.forward, same, apDecision]
  cases MacAddr.isGroup m.eh.hDest <;> cases found vif staTable hdr m.eh.hDest <;> rfl

end Paths

/-- On both paths of an access point every MSDU is handled by the rule, and so nothing is
    sent on in an isolated cell, exactly when the path is right about each of them. -/
theorem msdus_relayed (vif : Vif) (staTable : UInt8 → Sta) (hdr : HwRxhdr) (isQos allocated : Bool)
    (dests : List MacAddr) (served : vif.iftype = .ap ∨ vif.iftype = .p2pGo) :
    (apBranch vif staTable hdr isQos allocated dests = dests.map vif.rule ↔
      (∀ dest ∈ dests, ApFits vif staTable hdr dest) ∧
        FrameFits vif staTable hdr isQos allocated dests) ∧
    (rxDataSkb vif staTable hdr dests = some (dests.map vif.rule) ↔ SkbFits vif staTable hdr dests) ∧
    (vif.isolate = true → ∀ dest, (vif.rule dest).resend = false) :=
  ⟨apBranch_eq_rule, rxDataSkb_eq_rule served, rule_isolated⟩

section Cell

def broadcast : MacAddr := Vector.replicate 6 0xFF

def peer : MacAddr := sampleMac

/-- An access point with one station, which has the index 0. -/
def cell : Vif := ⟨0, .ap, true, false, [peer]⟩

def stations (idx : UInt8) : Sta := ⟨idx == 0, 0⟩

/-- The header of a data frame for a receiver with an index. -/
def dataHdr (isAmsdu : Bool) (dstIdx : UInt8) : HwRxhdr :=
  ⟨false, true, false, isAmsdu, false, 0, 0, dstIdx⟩

theorem msdus_relayed_peer :
    apBranch cell stations (dataHdr true 0xFF) true true [peer, broadcast] =
      [⟨false, true⟩, ⟨true, true⟩] ∧
    rxDataSkb cell stations (dataHdr false 0) [peer] = some [⟨false, true⟩] := by
  have both := fun hdr dests => msdus_relayed cell stations hdr true true dests (.inl rfl)
  refine ⟨((both (dataHdr true 0xFF) [peer, broadcast]).1.mpr ⟨?_, .inr (.inl rfl)⟩).trans ?_,
    ((both (dataHdr false 0) [peer]).2.1.mpr (.inr ⟨peer, [], rfl, ?_⟩)).trans ?_⟩
  · intro dest member
    obtain rfl | rfl : dest = peer ∨ dest = broadcast := by simpa using member
    · exact .inr (by decide)
    · exact .inl (by decide)
  · decide
  · intro dest member
    obtain rfl := List.mem_singleton.mp member
    exact ⟨rfl, .inr (by decide)⟩
  · decide

/-- In an isolated cell a broadcast is sent on by one path, and in an open one the other path
    handles a broadcast like the unicast MSDU before it. -/
theorem isolated_cell_relays :
    ((changeBss cell 1).1.isolate = true ∧
      apBranch (changeBss cell 1).1 stations (dataHdr false 0xFF) true true [broadcast] =
        [⟨true, true⟩]) ∧
    rxDataSkb cell stations (dataHdr true 0) [peer, broadcast] =
      some [⟨false, true⟩, ⟨false, true⟩] ∧ cell.rule broadcast = ⟨true, true⟩ := by
  decide

end Cell

end Aic8800.Rx
