import Aic8800.Rx.Defrag
import Mathlib

/-! # How far received frames are read

A received skb holds 56 bytes of `hw_rxhdr`, four more bytes, and the frame. `rwnx_rxdataind_aicwf`
finds out how long the header of the frame is and pulls it off, and `rwnx_rx_mgmt` looks at
management frames. What is told of them here is which bytes they read, which lengths they compute,
and which entries of tables they look up.
-/

namespace Aic8800.Rx.Headers

open Lib

open Reorder (MacAddr)

open Defrag (DecrStatus Frag)

abbrev Bytes := List UInt8

/-- `sizeof(struct hw_rxhdr)` -/
def hwRxhdrLen : Nat := 56

/-- `msdu_offset + 2` -/
def msduOffset : Nat := 60

/-- `NX_REMOTE_STA_MAX + NX_VIRT_DEV_MAX`, the entries of `sta_table` and `vif_table` -/
def tableLen : Nat := 36

/-- The reorder blocks of a station -/
def tidMax : Nat := 8

/-- `RWNX_INVALID_VIF` -/
def invalidVif : UInt8 := 0xFF

/-- `WLAN_CATEGORY_FAST_BBS_TRANSITION` -/
def categoryFt : UInt8 := 6

/-- Something that is done with a place, and how far there are places -/
inductive Access where
  /-- `n` bytes are read from the `pos`-th on, of an skb of `size` bytes. -/
  | read (pos n size : Nat)
  | null
  /-- `whole - front` is taken for a length. -/
  | length (whole front : Nat)
  | block (tid : Nat)
  | sta (idx : UInt8)
  | vif (idx : UInt8)
  deriving DecidableEq

def Access.Within : Access → Prop
  | read pos n size => pos + n ≤ size
  | null => False
  | length whole front => front ≤ whole
  | block tid => tid < tidMax
  | sta idx | vif idx => idx.toNat < tableLen

instance (a : Access) : Decidable a.Within := by
  cases a <;> unfold Access.Within <;> infer_instance

/-- The fields of a `hw_rxhdr` -/
structure RxDesc extends HwRxhdr where
  newPeer : Bool
  decrStatus : DecrStatus
  gaFrame : Bool
  /-- `hwvect.len` -/
  len : Nat

def decrStatusOf : Nat → DecrStatus
  | 1 => .wep
  | 2 => .tkip
  | 3 => .ccmp128
  | 4 => .ccmp256
  | 5 => .gcmp128
  | 6 => .gcmp256
  | 7 => .wapi
  | _ => .unenc

/-- The fields are where a little-endian compiler puts them. -/
def RxDesc.ofBytes (skb : Bytes) : RxDesc :=
  let bit (i n : Nat) : Bool := (skb.getD i 0).toNat.testBit n
  { isAmsdu := bit 48 0
    is80211Mpdu := bit 48 1
    newPeer := bit 48 3
    needReord := bit 48 5
    upload := bit 48 6
    isMonitorVif := bit 48 7
    vifIdx := skb.getD 49 0
    staIdx := skb.getD 50 0
    dstIdx := skb.getD 51 0
    decrStatus := decrStatusOf ((skb.getD 36 0).toNat / 4 % 8)
    gaFrame := bit 37 2
    len := (skb.getD 0 0).toNat + 256 * (skb.getD 1 0).toNat }

/-- `vifs` are the interfaces in `rwnx_hw->vifs`, `subframes` says what happens while an aggregate
    is split, and `stas` are the stations that have reorder blocks; `reord_init_sta` finds memory
    for one more, or not. -/
structure HdrEnv extends RxEnv where
  vifs : List Vif
  subframes : Amsdu.Env
  stas : List MacAddr
  initSta : Bool

namespace HdrEnv

variable (env : HdrEnv) (d : RxDesc) (p : Frag)

/-- `rwnx_rx_get_vif` compares the index before it looks it up. -/
def lookup (idx : UInt8) : List Access := if idx.toNat < nxVirtDevMax then [.vif idx] else []

/-- The part for monitor interfaces. What is handed on has the length that the device tells. -/
def monitor (size : Nat) : List Access :=
  if d.upload then [.null]
  else if env.headroom then [.read 0 hwRxhdrLen size, .read msduOffset d.len size]
  else if env.copied then [.read msduOffset d.len size]
  else [.null]

/-! ## The header -/

/-- What is read of the header of a data frame -/
def header : List Access :=
  let size := p.bytes.length
  (if p.bytes.isQos then [.read 24 1 size] else []) ++
    (if p.bytes.byte 1 % 4 = 1 then [.read 16 6 size, .read 10 6 size]
      else if p.bytes.byte 1 % 4 = 2 then [.read 16 6 size, .read 4 6 size]
      else []) ++
    [.read (p.pullLen - 2) 2 size]

/-- What is left of a fragment is appended to those before it. -/
def append : List Access :=
  [.length p.skb.length (p.pullLen - 8),
    .read (p.pullLen - 8) (p.skb.length - (p.pullLen - 8)) p.skb.length]

/-- The paths of a fragment that end with it -/
def fragment : Option (List Access) :=
  if !RxEnv.isFragment d.toHwRxhdr p.bytes then none
  else if p.bytes.moreFrag then
    match env.defragEntry d.toHwRxhdr p.bytes with
    | some info => if info.nextFn ≠ p.bytes.fragNum then some [] else some (append p)
    | none =>
        if !env.defragInfo || !env.defragSkb then some []
        else some [.read 0 p.first.length p.first.length]
  else
    match env.defragEntry d.toHwRxhdr p.bytes with
    | none => none
    | some info =>
        if info.nextFn ≠ p.bytes.fragNum then some [] else some (append p ++ lookup d.vifIdx)

/-- What the skb holds behind that -/
def frame : Bytes :=
  if p.bytes.isData = false then p.bytes else if p.bytes.isAmsdu then p.skb else p.first

/-! ## Management frames -/

/-- The frame is protected, and its cipher is known. -/
def isProtected (g : Bytes) : Bool :=
  !d.gaFrame && (g.getD 0 0 &&& 0x0c == 0 && (g.getD 1 0 &&& 0x40 == 0x40)) &&
    d.decrStatus == .ccmp128

/-- `remove_sec_hdr_mgmt_frame` -/
def removeSecHdr (g : Bytes) : Bytes :=
  if isProtected d g then
    (g.take 24 ++ (Amsdu.skbPull g 8).drop 24).take (Amsdu.skbPull g 8).length
  else g

def removeSecHdrReads (g : Bytes) : List Access :=
  if d.gaFrame then []
  else .read 0 2 g.length :: if isProtected d g then [.read 0 24 g.length] else []

/-- Type and subtype in the frame control -/
def frameType (g : Bytes) : UInt8 := g.getD 0 0 &&& 0xfc

/-- `rwnx_rx_mgmt` -/
def mgmt (g : Bytes) (vif : Vif) : List Access :=
  .read 0 2 g.length ::
    if frameType g = 0x80 then
      if vif.iftype = .meshPoint ∧ d.newPeer then [.length g.length 36] else []
    else if frameType g = 0xc0 ∨ frameType g = 0xa0 then [.read 24 2 g.length]
    else if vif.iftype = .station ∧ frameType g = 0xd0 then
      .read 24 1 g.length ::
        if g.getD 24 0 = categoryFt then [.length g.length (24 + 6 * 2 + 2)] else []
    else []

/-- The interfaces that `rwnx_rx_mgmt_any` comes to -/
def mgmtVifs : List Vif :=
  if d.vifIdx = invalidVif then env.vifs.filter Vif.up else (env.getVif d.vifIdx).toList

/-- `rwnx_rx_mgmt_any` -/
def mgmtAny (g : Bytes) : List Access :=
  (if d.vifIdx = invalidVif then [] else lookup d.vifIdx) ++ (env.mgmtVifs d).flatMap (mgmt d g)

/-! ## Data frames -/

/-- An address in an Ethernet frame -/
def mac (g : Bytes) (i : Nat) : MacAddr := FrameBytes.addr g i

/-- The address that the reorder code finds a station by -/
def staMac (vif : Vif) (g : Bytes) : Option MacAddr :=
  match vif.iftype with
  | .station | .p2pClient => some (mac g 0)
  | .ap | .p2pGo => some (mac g 6)
  | _ => none

/-- The reorder code knows the station. -/
def known (vif : Vif) (g : Bytes) : Bool := (staMac vif g).any env.stas.contains

/-- `reord_flush_tid` comes to the block of the frame. -/
def reordFlushTid (vif : Vif) (g : Bytes) : List Access :=
  if env.known vif g then [.block p.bytes.tid] else []

/-- EAPOL, and what is for a group, is not reordered. -/
def isSingle (g : Bytes) : Bool := (g.getD 12 0 == 0x88 && g.getD 13 0 == 0x8e) || (mac g 0).isGroup

/-- `reord_process_unit` comes to the block of the frame. -/
def reordProcessUnit (vif : Vif) (g : Bytes) : List Access :=
  if isSingle g then []
  else if (staMac vif g).isSome && (env.known vif g || env.initSta) then [.block p.bytes.tid]
  else []

def staBranch (vif : Vif) (g : Bytes) : List Access :=
  if p.bytes.isQos then
    if d.needReord then if env.rxframe then env.reordProcessUnit p vif g else []
    else env.reordFlushTid p vif g
  else []

/-- The flag in the header, which is set anew for data frames -/
def amsdu : Bool := d.toHwRxhdr.amsdu p.bytes

/-- The destination of a frame is looked at, and looked up if the device names it. -/
def destination (g : Bytes) : List Access :=
  .read 0 6 g.length ::
    if !(mac g 0).isGroup && d.dstIdx != invalidSta && !amsdu d p then [.sta d.dstIdx] else []

/-- The loop of the branch for access points. A frame is forwarded or sent again, or both, and
    what is done for the reorder code is the same. `last` is what was dequeued last. -/
def apLoop (vif : Vif) : (hasFrame : Bool) → (last : Bytes) → List Bytes → List Access
  | hasFrame, last, [] => if hasFrame then env.reordProcessUnit p vif last else []
  | hasFrame, _, g :: rest =>
      destination d p g ++
        if p.bytes.isQos && d.needReord then
          if hasFrame || env.rxframe then apLoop vif true g rest else []
        else
          (if p.bytes.isQos then env.reordFlushTid p vif g else []) ++ apLoop vif hasFrame g rest

/-- The frames that the branch for access points goes through, if it comes to do so -/
def apFrames (fuel : Nat) (g : Bytes) : Option (List Bytes) :=
  if amsdu d p then
    (Amsdu.rwnxRxdataProcessAmsdu env.subframes fuel g).map Amsdu.Processed.list
  else some [g]

def apBranch (fuel : Nat) (vif : Vif) (g : Bytes) : List Access :=
  match env.apFrames d p fuel g with
  | none => []
  | some frames => env.apLoop d p vif false [] frames

def deliver (fuel : Nat) (g : Bytes) : List Access :=
  lookup d.vifIdx ++
    if (env.getVif d.vifIdx).isNone then []
    else
      (if d.staIdx = invalidSta then [] else [.sta d.staIdx]) ++
        match env.dataVif d.toHwRxhdr with
        | none => []
        | some vif =>
            match vif.iftype with
            | .station | .p2pClient => env.staBranch d p vif g
            | .ap | .p2pGo => env.apBranch d p fuel vif g
            | _ => []

/-- A frame that is uploaded -/
def upload (fuel : Nat) : List Access :=
  [.read 0 2 p.bytes.length, .read 22 2 p.bytes.length] ++
    (if p.bytes.isData then header p else []) ++
    match env.fragment d p with
    | some accesses => accesses
    | none =>
        if d.is80211Mpdu then
          removeSecHdrReads d (frame p) ++ env.mgmtAny d (removeSecHdr d (frame p))
        else env.deliver d p fuel (frame p)

/-- `rwnx_rxdataind_aicwf`; aggregates are split in at most `fuel` turns. -/
def rxdataind (fuel : Nat) (skb : Bytes) : List Access :=
  let d := RxDesc.ofBytes skb
  .read 48 4 skb.length ::
    if d.isMonitorVif && (env.getVif env.monitorVif).isSome then env.monitor d skb.length
    else if d.upload then env.upload d ⟨Amsdu.skbPull skb msduOffset, d.decrStatus⟩ fuel
    else []

/-- Only bytes of the skb are read, no length is negative, and the tables and the blocks of a
    station are looked up within their bounds. -/
def Sound (skb : Bytes) : Prop := ∀ fuel, ∀ a ∈ env.rxdataind fuel skb, a.Within

/-! ## Which frames are read soundly -/

/-- What is handed to the monitor interface is in the skb; it is not uploaded too, and there is
    room or memory for the radiotap header. -/
def MonitorFits (size : Nat) : Prop :=
  d.upload = false ∧ (env.headroom = true ∨ env.copied = true) ∧ msduOffset + d.len ≤ size

/-- A fragment whose turn it is in an entry of the list -/
def Appended : Prop :=
  RxEnv.isFragment d.toHwRxhdr p.bytes = true ∧
    ∃ info, env.defragEntry d.toHwRxhdr p.bytes = some info ∧ info.nextFn = p.bytes.fragNum

/-- What is looked at of a management frame is there. -/
structure MgmtFits (g : Bytes) (vif : Vif) : Prop where
  beacon : frameType g = 0x80 → vif.iftype = .meshPoint → d.newPeer = true → 36 ≤ g.length
  reason : frameType g = 0xc0 ∨ frameType g = 0xa0 → 26 ≤ g.length
  action : frameType g = 0xd0 → vif.iftype = .station →
    25 ≤ g.length ∧ (g.getD 24 0 = categoryFt → 38 ≤ g.length)

/-- The frame is for a block of its station, which is known or can be made known. -/
def Reordered (vif : Vif) (g : Bytes) : Prop :=
  isSingle g = false ∧ (env.known vif g = true ∨ env.initSta = true)

/-- A TID without a block comes to none in the branch for stations. -/
def StaFits (vif : Vif) (g : Bytes) : Prop :=
  tidMax ≤ p.bytes.tid →
    if d.needReord then env.rxframe = true → ¬env.Reordered vif g else env.known vif g = false

/-- The destination of a frame to one station is in the table, and a TID without a block comes to
    none: neither for any frame, nor, if they are to be reordered, for the last one. -/
def ApFits (fuel : Nat) (vif : Vif) (g : Bytes) : Prop :=
  (amsdu d p = false → (mac g 0).isGroup = false → d.dstIdx ≠ invalidSta →
    d.dstIdx.toNat < tableLen) ∧
  ∀ frames, env.apFrames d p fuel g = some frames → tidMax ≤ p.bytes.tid →
    if d.needReord then env.rxframe = true → ∀ last ∈ frames.getLast?, ¬env.Reordered vif last
    else ∀ f ∈ frames, env.known vif f = false

/-- A data frame for an interface that is there -/
def DataFits (fuel : Nat) (g : Bytes) : Prop :=
  (env.getVif d.vifIdx).isSome = true →
    (d.staIdx ≠ invalidSta → d.staIdx.toNat < tableLen) ∧
    ∀ vif, env.dataVif d.toHwRxhdr = some vif →
      match vif.iftype with
      | .station | .p2pClient => env.StaFits d p vif g
      | .ap | .p2pGo => env.ApFits d p fuel vif g
      | _ => True

/-- The header is in the skb, and so is what is looked at behind it. -/
structure UploadFits (fuel : Nat) : Prop where
  header : 24 ≤ p.bytes.length ∧ (p.bytes.isData = true → p.pullLen ≤ p.bytes.length)
  /-- The header of an A-MSDU is pulled off, and then taken off once more. -/
  append : env.Appended d p → p.bytes.isAmsdu = true → 2 * (p.pullLen - 8) ≤ p.bytes.length
  mgmt : ¬env.Collected d.toHwRxhdr p.bytes → d.is80211Mpdu = true →
    (isProtected d (frame p) = true → 24 ≤ (frame p).length) ∧
      ∀ vif ∈ env.mgmtVifs d, MgmtFits d (removeSecHdr d (frame p)) vif
  data : ¬env.Collected d.toHwRxhdr p.bytes → d.is80211Mpdu = false →
    env.DataFits d p fuel (frame p)

/-- The skb is long enough for its header, and for what the header says of it. -/
structure Fits (fuel : Nat) (skb : Bytes) : Prop where
  flags : 52 ≤ skb.length
  monitor : env.Monitored (RxDesc.ofBytes skb).toHwRxhdr →
    env.MonitorFits (RxDesc.ofBytes skb) skb.length
  upload : ¬env.Monitored (RxDesc.ofBytes skb).toHwRxhdr → (RxDesc.ofBytes skb).upload = true →
    env.UploadFits (RxDesc.ofBytes skb)
      ⟨Amsdu.skbPull skb msduOffset, (RxDesc.ofBytes skb).decrStatus⟩ fuel

end HdrEnv

section Lists

variable {a : Access} {l m : List Access}

end Lists

section Header

variable {env : HdrEnv} {d : RxDesc} {p : Frag} {vif : Vif} {g : Bytes}

theorem fragment_none : env.fragment d p = none ↔ ¬env.Collected d.toHwRxhdr p.bytes := by
  unfold HdrEnv.fragment RxEnv.Collected
  cases RxEnv.isFragment d.toHwRxhdr p.bytes with
  | false => exact iff_of_true rfl fun collected => Bool.false_ne_true collected.1
  | true =>
      cases p.bytes.moreFrag with
      | true =>
          refine iff_of_false ?_ (not_not.mpr ⟨rfl, .inl rfl⟩)
          rw [if_neg (by simp), if_pos rfl]
          split <;> split <;> exact Option.some_ne_none _
      | false =>
          rw [if_neg (by simp), if_neg Bool.false_ne_true]
          cases env.defragEntry d.toHwRxhdr p.bytes with
          | none => simp
          | some info =>
              refine iff_of_false ?_ (not_not.mpr ⟨rfl, .inr rfl⟩)
              simp only
              split <;> exact Option.some_ne_none _

end Header

section Mgmt

variable {env : HdrEnv} {d : RxDesc} {vif : Vif} {g : Bytes}

end Mgmt

section Data

variable {env : HdrEnv} {d : RxDesc} {p : Frag} {vif : Vif} {g last : Bytes} {fuel : Nat}

end Data

section Aggregates

end Aggregates

section Frames

variable {env : HdrEnv} {d : RxDesc} {p : Frag} {vif : Vif} {g : Bytes} {fuel : Nat}

end Frames

section Upload

variable {env : HdrEnv} {d : RxDesc} {p : Frag} {fuel : Nat}

end Upload

/-- No interface is up, and no frame is being put together. -/
def idle : HdrEnv where
  vifTable := fun _ => none
  staTable := fun _ => ⟨false, 0⟩
  monitorVif := 0xff
  defragList := []
  headroom := true
  copied := true
  defragInfo := true
  defragSkb := true
  rxframe := true
  vifs := []
  subframes := ⟨fun _ => true, fun _ => false⟩
  stas := []
  initSta := true

end Aic8800.Rx.Headers
