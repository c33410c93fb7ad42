import Aic8800.Lib.Cells
import Mathlib

/-! # Scan results for the wireless extensions

`translate_scan` offers what is known of a network to the stream of events. The elements of a
beacon are behind its first 36 bytes; most of the walkers over them go on until they have passed
as many bytes as the whole frame has.
-/

namespace Aic8800.Wext.ScanElements

open Lib

abbrev Bytes := List UInt8

/-- `offsetof(struct ieee80211_mgmt, u.beacon.variable)` -/
def beaconVariable : Nat := 36

def wlanEidHtCapability : UInt8 := 45

def wlanEidVhtCapability : UInt8 := 191

def wlanEidExtension : UInt8 := 255

def wlanEidExtHeCapability : UInt8 := 35

/-- `_WPA_IE_ID_` -/
def wpaIeId : UInt8 := 0xdd

/-- `_WPA2_IE_ID_` -/
def wpa2IeId : UInt8 := 0x30

def wpaOui : Bytes := [0x00, 0x50, 0xf2, 0x01]

def wpsOui : Bytes := [0x00, 0x50, 0xf2, 0x04]

/-- `sizeof(wpa_ie)` and `sizeof(rsn_ie)` -/
def ieSize : Nat := 255

/-- `MAX_WPA_IE_LEN * 2` -/
def bufSize : Nat := 512

/-- What is looked at of the entry that `cfg80211` has for the network -/
structure Bss where
  bssid : Bytes
  capability : Nat

/-- A stored result, with the frame; its length is a `u16`. -/
structure ScanResult where
  bss : Option Bss
  frame : Bytes
  lengthU16 : frame.length < 2 ^ 16
  centerFreq : Nat
  /-- `ieee80211_frequency_to_channel(center_freq) > 14` -/
  above14 : Bool
  rssi : Int

/-- Which calls of `vmalloc` succeed, and which events have room in the stream -/
structure Env where
  essidMemory : Bool
  encodeMemory : Bool
  pbuf : Bool
  fits : Nat → Bool

/-! ## The stream -/

inductive Cmd where
  | essid
  | encode
  | custom
  | genie
  deriving DecidableEq

inductive Event where
  | ap (addr : Bytes)
  | name (text : String)
  | freq (m : Nat)
  | mode (master : Bool)
  | bitrate (value : Nat)
  | qual (level : Int)
  | point (cmd : Cmd) (data : Bytes)
  deriving DecidableEq

structure Stream where
  calls : Nat
  events : List Event
  deriving DecidableEq

/-- `iwe_stream_add_event` -/
def Stream.add (env : Env) (s : Stream) (e : Event) : Stream :=
  ⟨s.calls + 1, if env.fits s.calls then s.events ++ [e] else s.events⟩

/-- `iwe_stream_add_point`, which copies the data if there is room for the event -/
def Stream.addPoint (env : Env) (s : Stream) (cmd : Cmd) (extra : Option Bytes) : Option Stream :=
  if env.fits s.calls then do return ⟨s.calls + 1, s.events ++ [.point cmd (← extra)]⟩
  else some { s with calls := s.calls + 1 }

/-! ## The elements -/

namespace ScanResult

variable (r : ScanResult)

/-- `u.beacon.variable`, in the frame -/
def variable' : Bytes := r.frame.drop beaconVariable

/-- `n` bytes of it from the `i`-th on, if they are in the frame -/
def read (i n : Nat) : Option Bytes :=
  if i + n ≤ r.variable'.length then some ((r.variable'.drop i).take n) else none

def byte (i : Nat) : Option UInt8 := r.variable'[i]?

/-- `ie[cnt + 1]` -/
def lenAt (cnt : Nat) : Option Nat := (r.byte (cnt + 1)).map UInt8.toNat

/-- A walk over the elements, while `cnt` is less than the length of the frame -/
def walk {σ : Type} (visit : Nat → σ → Option σ) : (fuel cnt : Nat) → σ → Option σ
  | 0, _, _ => none
  | fuel + 1, cnt, s =>
      if cnt < r.frame.length then do
        let s ← visit cnt s
        walk visit fuel (cnt + ((← r.lenAt cnt) + 2)) s
      else some s

/-- `cfg80211_find_ie`, with the length of the frame -/
def findIe (eid : UInt8) : (fuel pos : Nat) → Option (Option Nat)
  | 0, _ => some none
  | fuel + 1, pos =>
      if pos + 2 ≤ r.frame.length then do
        let id ← r.byte pos
        let len ← r.lenAt pos
        if r.frame.length < pos + (len + 2) then return none
        if id = eid then return some pos
        findIe eid fuel (pos + (len + 2))
      else some none

/-- The call that the functions make -/
def find (eid : UInt8) : Option (Option Nat) := r.findIe eid r.frame.length 0

/-- The extension element that is found is an HE capability. -/
def heCap : Option (Option Nat) := do
  match ← r.find wlanEidExtension with
  | none => return none
  | some pos => return if (← r.byte (pos + 2)) = wlanEidExtHeCapability then some pos else none

/-! ## The functions that offer one event each -/

def essid (env : Env) (s : Stream) : Option Stream := do
  let len ← r.lenAt 0
  guard env.essidMemory
  let ssid ← r.read 2 len
  s.addPoint env .essid (some ((ssid ++ [0]).take (min len 32)))

def protocol (env : Env) (s : Stream) : Option Stream := do
  let ht ← r.find wlanEidHtCapability
  let vht ← r.find wlanEidVhtCapability
  let he ← r.heCap
  let text :=
    if he.isSome then "IEEE 802.11ax"
    else if r.above14 then
      if vht.isSome then "IEEE 802.11ac" else if ht.isSome then "IEEE 802.11an" else "IEEE 802.11a"
    else if ht.isSome then "IEEE 802.11bgn"
    else "IEEE 802.11bg"
  return s.add env (.name text)

def mode (bss : Bss) (env : Env) (s : Stream) : Stream :=
  if bss.capability &&& 3 ≠ 0 then s.add env (.mode (bss.capability &&& 1 ≠ 0)) else s

/-- The name of the network is copied, but none of it is offered. -/
def encryption (env : Env) (s : Stream) : Option Stream := do
  let len ← r.lenAt 0
  guard env.encodeMemory
  let _ ← r.read 2 len
  s.addPoint env .encode (some [])

end ScanResult

/-! ## The rate -/

/-- `VHT_MCS_DATA_RATE` -/
def vhtMcsDataRate : List (List (List Nat)) :=
  [[[13, 26, 39, 52, 78, 104, 117, 130, 156, 156,
      26, 52, 78, 104, 156, 208, 234, 260, 312, 312,
      39, 78, 117, 156, 234, 312, 351, 390, 468, 520],
    [14, 29, 43, 58, 87, 116, 130, 144, 173, 173,
      29, 58, 87, 116, 173, 231, 260, 289, 347, 347,
      43, 87, 130, 173, 260, 347, 390, 433, 520, 578]],
   [[27, 54, 81, 108, 162, 216, 243, 270, 324, 360,
      54, 108, 162, 216, 324, 432, 486, 540, 648, 720,
      81, 162, 243, 324, 486, 648, 729, 810, 972, 1080],
    [30, 60, 90, 120, 180, 240, 270, 300, 360, 400,
      60, 120, 180, 240, 360, 480, 540, 600, 720, 800,
      90, 180, 270, 360, 540, 720, 810, 900, 1080, 1200]],
   [[59, 117, 176, 234, 351, 468, 527, 585, 702, 780,
      117, 234, 351, 468, 702, 936, 1053, 1170, 1404, 1560,
      176, 351, 527, 702, 1053, 1404, 1580, 1755, 2106, 2340],
    [65, 130, 195, 260, 390, 520, 585, 650, 780, 867,
      130, 260, 390, 520, 780, 1040, 1170, 1300, 1560, 1734,
      195, 390, 585, 780, 1170, 1560, 1755, 1950, 2340, 2600]]]

/-- What is kept of an HT capability: `cap_info`, and two bytes of the MCS set -/
structure Ht where
  capInfo : Nat
  mcsRate : Nat

namespace Ht

def shortGi (h : Ht) : Nat := if h.capInfo &&& 0x60 ≠ 0 then 1 else 0

/-- The mask is `NL80211_CHAN_WIDTH_40`, a number and not a bit of `cap_info`. -/
def bw40MHz (h : Ht) : Bool := h.capInfo &&& 2 ≠ 0

def maxRate (h : Ht) : Nat :=
  if h.mcsRate &&& 0x8000 ≠ 0 then
    if h.bw40MHz then if h.shortGi ≠ 0 then 300 else 270
    else if h.shortGi ≠ 0 then 144 else 130
  else if h.bw40MHz then if h.shortGi ≠ 0 then 150 else 135
  else if h.shortGi ≠ 0 then 72 else 65

end Ht

def le16 (b : Bytes) : Nat := (b.getD 0 0).toNat + 256 * (b.getD 1 0).toNat

/-- `tx_mcs_index`, a `u8` -/
def txMcsIndex (map : UInt8) : Nat := ((map &&& 0x0f) - 1).toNat

/-- `short_GI` of a VHT capability, by its first byte -/
def vhtShortGi (info : UInt8) : Nat :=
  if (info >>> 2) &&& 3 ≠ 0 then ((info >>> 6) &&& 1).toNat else ((info >>> 5) &&& 1).toNat

/-- What is made of the width in an HE capability -/
def heMaxRate (width : UInt8) : Nat :=
  2 * if width &&& 0x10 ≠ 0 then 601
    else if width &&& 0x08 ≠ 0 then 1147
    else if width &&& 0x04 ≠ 0 then 287
    else if width &&& 0x02 ≠ 0 then 287
    else 144

namespace ScanResult

variable (r : ScanResult)

def htCapability : Option (Option Ht) := do
  match ← r.find wlanEidHtCapability with
  | none => return none
  | some pos => return some ⟨le16 (← r.read (pos + 2) 2), le16 (← r.read (pos + 5) 2)⟩

/-- `vht_data_rate`, if there is a VHT capability -/
def vhtDataRate : Option (Option Nat) := do
  match ← r.find wlanEidVhtCapability with
  | none => return none
  | some pos =>
      let info ← r.byte (pos + 2)
      let map ← r.read (pos + 10) 2
      let table := (vhtMcsDataRate.getD (if r.above14 then 2 else 1) []).getD (vhtShortGi info) []
      return some (← table[txMcsIndex (map.headD 0)]?)

def heDataRate : Option (Option Nat) := do
  match ← r.heCap with
  | none => return none
  | some pos => return some (heMaxRate (← r.byte (pos + 8)))

def rate (env : Env) (s : Stream) : Option Stream := do
  let ht ← r.htCapability
  let vht ← r.vhtDataRate
  let he ← r.heDataRate
  let maxRate :=
    match he, vht, ht with
    | some rate, _, _ => rate
    | none, some rate, _ => rate
    | none, none, some ht => ht.maxRate
    | none, none, none => 0
  return s.add env (.bitrate (maxRate * 1000000))

/-! ## WPA, RSN and WPS -/

/-- A vendor element with these first four bytes -/
def vendor (oui : Bytes) (cnt : Nat) : Option Bool := do
  if (← r.byte cnt) = wpaIeId then return (← r.read (cnt + 2) 4) = oui else return false

/-- `memcpy(dst, &in_ie[cnt], in_ie[cnt + 1] + 2)`, and what it is long -/
def copyIe (cnt : Nat) (dst : Bytes) : Option (Bytes × Nat) := do
  let len := (← r.lenAt cnt) + 2
  return (← Cells.copy (← r.read cnt len) dst, len)

end ScanResult

/-- The variables of `aic_get_sec_ie` -/
structure Sec where
  wpaIe : Bytes
  wpaLen : Nat
  rsnIe : Bytes
  rsnLen : Nat

namespace ScanResult

variable (r : ScanResult)

/-- An element in `aic_get_sec_ie` -/
def secVisit (cnt : Nat) (s : Sec) : Option Sec := do
  if ← r.vendor wpaOui cnt then
    let (wpaIe, wpaLen) ← r.copyIe cnt s.wpaIe
    return { s with wpaIe, wpaLen }
  else if (← r.byte cnt) = wpa2IeId then
    let (rsnIe, rsnLen) ← r.copyIe cnt s.rsnIe
    return { s with rsnIe, rsnLen }
  else return s

def aicGetSecIe : Option Sec :=
  r.walk r.secVisit (r.frame.length + 1) 0
    ⟨List.replicate ieSize 0, 0, List.replicate ieSize 0, 0⟩

end ScanResult

/-- `sprintf(p, "%02x", b)` -/
def hexByte (b : UInt8) : Bytes :=
  let digit (n : UInt8) := if n < 10 then 48 + n else 87 + n
  [digit (b / 16), digit (b % 16)]

/-- `wpa_ie=`, `rsn_ie=` -/
def wpaLabel : Bytes := [119, 112, 97, 95, 105, 101, 61]

def rsnLabel : Bytes := [114, 115, 110, 95, 105, 101, 61]

def ieText (label ie : Bytes) : Bytes := label ++ ie.flatMap hexByte

/-- The text of an element, if there is one, is printed at `p` in `pbuf`, which has been cleared.
    What is offered is the text from the first byte of `pbuf` on, and the element. -/
def offerIe (env : Env) (label ie : Bytes) (len p : Nat) (s : Stream) : Option (Stream × Nat) :=
  if len = 0 then some (s, p)
  else do
    let text := ieText label (ie.take len)
    let pbuf ← Cells.copyAt p (text ++ [0]) (List.replicate bufSize 0)
    let s ← s.addPoint env .custom (Cells.text 0 pbuf)
    let s ← s.addPoint env .genie (some (ie.take len))
    return (s, p + text.length)

namespace ScanResult

variable (r : ScanResult)

/-- `aicwf_get_iwe_stream_wpa_wpa2` -/
def wpaWpa2 (env : Env) (s : Stream) : Option Stream :=
  if env.pbuf = false then some s
  else do
    let sec ← r.aicGetSecIe
    let (s, p) ← offerIe env wpaLabel sec.wpaIe sec.wpaLen 0 s
    let (s, _) ← offerIe env rsnLabel sec.rsnIe sec.rsnLen p s
    return s

/-- An element in `aicwf_get_iwe_stream_wps` -/
def wpsVisit (env : Env) (cnt : Nat) (s : Stream) : Option Stream := do
  if ← r.vendor wpsOui cnt then
    let len := (← r.lenAt cnt) + 2
    if 2 < len then s.addPoint env .genie (r.read cnt len) else return s
  else return s

def wps (env : Env) (s : Stream) : Option Stream :=
  r.walk (r.wpsVisit env) (r.frame.length + 1) 0 s

/-- `translate_scan` -/
def translateScan (env : Env) (s : Stream) : Option Stream :=
  match r.bss with
  | none => some s
  | some bss => do
      let s := s.add env (.ap bss.bssid)
      let s ← r.essid env s
      let s ← r.protocol env s
      let s := s.add env (.freq (r.centerFreq * 100000))
      let s := mode bss env s
      let s ← r.encryption env s
      let s ← r.rate env s
      let s ← r.wpaWpa2 env s
      let s ← r.wps env s
      return s.add env (.qual r.rssi)

end ScanResult

/-! ## What is promised -/

/-- An element of a beacon -/
structure Elem where
  id : UInt8
  data : Bytes
  deriving DecidableEq

namespace Elem

def encode (e : Elem) : Bytes := e.id :: .ofNat e.data.length :: e.data

def isWpa (e : Elem) : Bool := e.id = wpaIeId ∧ e.data.take 4 = wpaOui

def isRsn (e : Elem) : Bool := e.id = wpa2IeId

def isWps (e : Elem) : Bool := e.id = wpaIeId ∧ e.data.take 4 = wpsOui

end Elem

/-- The frame is a header, and these elements. -/
def WellFormed (r : ScanResult) (elems : List Elem) : Prop :=
  beaconVariable ≤ r.frame.length ∧ (∀ e ∈ elems, e.data.length < 2 ^ 8) ∧
    r.frame.drop beaconVariable = elems.flatMap Elem.encode

/-- The elements that are offered are those of the frame, and the texts are theirs. -/
def Reported (elems : List Elem) (events : List Event) : Prop :=
  (∀ data, .point .genie data ∈ events ↔
    ∃ e ∈ elems, (e.isWpa ∨ e.isRsn ∨ e.isWps) ∧ data = e.encode) ∧
  ∀ data, .point .custom data ∈ events ↔
    ∃ e ∈ elems, e.isWpa ∧ data = ieText wpaLabel e.encode ∨
      e.isRsn ∧ data = ieText rsnLabel e.encode

/-- Whatever room there is in the stream, only the frame is read, only the arrays are written, and
    the tables are indexed in their bounds; and what a well-formed frame holds is reported if there
    is room for it. -/
def Sound (env : Env) (r : ScanResult) : Prop :=
  ∀ fits, ∃ out, r.translateScan { env with fits } ⟨0, []⟩ = some out ∧
    ∀ elems, WellFormed r elems → r.bss.isSome → env.pbuf → (∀ n, fits n = true) →
      Reported elems out.events

/-! ## Which results are treated soundly -/

namespace ScanResult

variable (r : ScanResult)

/-- The name of the network is in the frame. -/
def EssidFits : Prop :=
  ∃ len, r.lenAt 0 = some len ∧ (r.read 2 len).isSome

/-- The bytes of an HT capability that are looked at are in the frame. -/
def HtFits : Prop :=
  ∀ pos, r.find wlanEidHtCapability = some (some pos) → (r.read (pos + 5) 2).isSome

/-- So are those of a VHT capability, and its map has a stream. -/
def VhtFits : Prop :=
  ∀ pos, r.find wlanEidVhtCapability = some (some pos) →
    ∃ map, r.read (pos + 10) 2 = some map ∧ map.headD 0 &&& 0x0f ≠ 0

/-- So are those of an extension, and of an HE capability. -/
def HeFits : Prop :=
  ∀ pos, r.find wlanEidExtension = some (some pos) →
    ∃ id, r.byte (pos + 2) = some id ∧ (id = wlanEidExtHeCapability → (r.byte (pos + 8)).isSome)

/-- The elements that are come by from `cnt` on, each with its header in the frame -/
inductive Chain : Nat → List Nat → Prop where
  | done {cnt : Nat} : r.frame.length ≤ cnt → Chain cnt []
  | next {cnt len : Nat} {ps : List Nat} : cnt < r.frame.length → r.lenAt cnt = some len →
      Chain (cnt + (len + 2)) ps → Chain cnt (cnt :: ps)

def len (cnt : Nat) : Nat := (r.lenAt cnt).getD 0

/-- Four bytes that are compared are in the frame. -/
def VendorFits (cnt : Nat) : Prop := r.byte cnt = some wpaIeId → (r.read (cnt + 2) 4).isSome

def IsWpa (cnt : Nat) : Prop := r.vendor wpaOui cnt = some true

def IsRsn (cnt : Nat) : Prop := r.byte cnt = some wpa2IeId

def IsWps (cnt : Nat) : Prop := r.vendor wpsOui cnt = some true

instance (cnt : Nat) : Decidable (r.IsWpa cnt) := inferInstanceAs (Decidable (_ = _))

instance (cnt : Nat) : Decidable (r.IsRsn cnt) := inferInstanceAs (Decidable (_ = _))

instance (cnt : Nat) : Decidable (r.IsWps cnt) := inferInstanceAs (Decidable (_ = _))

/-- The element is in the frame. -/
def Whole (cnt : Nat) : Prop := (r.read cnt (r.len cnt + 2)).isSome

/-- An element that is copied is in the frame, and not too long for the array. -/
def SecFits (cnt : Nat) : Prop := r.IsWpa cnt ∨ r.IsRsn cnt → r.Whole cnt ∧ r.len cnt + 2 ≤ ieSize

/-- `wpa_len`, after these elements -/
def wpaLen (ps : List Nat) : Nat :=
  ps.foldl (fun n cnt => if r.IsWpa cnt then r.len cnt + 2 else n) 0

/-- `rsn_len`, after these elements -/
def rsnLen (ps : List Nat) : Nat :=
  ps.foldl (fun n cnt => if r.IsRsn cnt then r.len cnt + 2 else n) 0

end ScanResult

/-- Both texts have room in `pbuf`, one behind the other. -/
def TextFits (wpaLen rsnLen : Nat) : Prop :=
  (wpaLen ≠ 0 → 7 + 2 * wpaLen < bufSize) ∧
    (rsnLen ≠ 0 → (if wpaLen = 0 then 0 else 7 + 2 * wpaLen) + (7 + 2 * rsnLen) < bufSize)

/-- What the walkers look for is in the frame. -/
structure Inside (env : Env) (r : ScanResult) : Prop where
  essid : r.EssidFits
  memory : env.essidMemory ∧ env.encodeMemory
  ht : r.HtFits
  vht : r.VhtFits
  he : r.HeFits
  chain : ∃ ps, r.Chain 0 ps ∧
    (∀ cnt ∈ ps, r.VendorFits cnt ∧ (r.IsWps cnt → r.Whole cnt) ∧ (env.pbuf → r.SecFits cnt)) ∧
    (env.pbuf → TextFits (r.wpaLen ps) (r.rsnLen ps))

/-- Nothing is known of the network, or what the walkers look for is in the frame. -/
def Regular (env : Env) (r : ScanResult) : Prop := r.bss.isSome → Inside env r

section Walks

variable {r : ScanResult} {cnt fuel : Nat} {ps : List Nat} {σ : Type} {s out : σ}
  {visit : Nat → σ → Option σ}

theorem walk_eq (chain : r.Chain cnt ps) (enough : r.frame.length - cnt < fuel) :
    r.walk visit fuel cnt s = ps.foldlM (fun s cnt => visit cnt s) s := by
  induction chain generalizing fuel s with
  | done past =>
      obtain ⟨fuel, rfl⟩ := Nat.exists_eq_succ_of_ne_zero (Nat.ne_zero_of_lt enough)
      exact if_neg (Nat.not_lt.mpr past)
  | @next cnt len ps inside length chain ih =>
      obtain ⟨fuel, rfl⟩ := Nat.exists_eq_succ_of_ne_zero (Nat.ne_zero_of_lt enough)
      rw [ScanResult.walk, if_pos inside, length, List.foldlM_cons]
      simp only [Option.bind_eq_bind]
      congr 1
      funext s
      exact ih (by omega)

theorem chain_of_walk (walked : r.walk visit fuel cnt s = some out) : ∃ ps, r.Chain cnt ps := by
  induction fuel generalizing cnt s with
  | zero => cases walked
  | succ fuel ih =>
      rw [ScanResult.walk] at walked
      split at walked
      · rename_i inside
        obtain ⟨t, -, walked⟩ := Option.bind_eq_some_iff.mp walked
        obtain ⟨len, length, walked⟩ := Option.bind_eq_some_iff.mp walked
        obtain ⟨ps, chain⟩ := ih walked
        exact ⟨cnt :: ps, .next inside length chain⟩
      · rename_i past
        exact ⟨[], .done (Nat.le_of_not_lt past)⟩

theorem lengths_of_chain (chain : r.Chain cnt ps) : ∀ i ∈ ps, ∃ len, r.lenAt i = some len := by
  induction chain with
  | done => exact fun i none => absurd none List.not_mem_nil
  | next _ length _ ih =>
      intro i member
      rcases List.mem_cons.mp member with rfl | member
      · exact ⟨_, length⟩
      · exact ih i member

theorem byte_of_lenAt {len : Nat} (length : r.lenAt cnt = some len) :
    (∃ b, r.byte cnt = some b) ∧ r.len cnt = len := by
  unfold ScanResult.lenAt at length
  obtain ⟨b, there, -⟩ := Option.map_eq_some_iff.mp length
  have inside := (List.getElem?_eq_some_iff.mp there).1
  refine ⟨⟨_, List.getElem?_eq_getElem (by omega)⟩, ?_⟩
  unfold ScanResult.len ScanResult.lenAt
  rw [length]
  rfl

theorem no_chain_from {elems : List Elem} {pre : Bytes}
    (short : ∀ e ∈ elems, e.data.length < 2 ^ 8)
    (whole : r.variable' = pre ++ elems.flatMap Elem.encode) (place : pre.length = cnt)
    (less : r.variable'.length < r.frame.length) : ¬r.Chain cnt ps := by
  intro chain
  induction elems generalizing pre cnt ps with
  | nil =>
      rw [List.flatMap_nil, List.append_nil] at whole
      cases chain with
      | done past =>
          rw [whole] at less
          omega
      | next inside length =>
          obtain ⟨b, there, -⟩ := Option.map_eq_some_iff.mp length
          have inside := (List.getElem?_eq_some_iff.mp there).1
          rw [whole] at inside
          omega
  | cons e elems ih =>
      have size : e.encode.length = e.data.length + 2 := rfl
      have behind : r.variable' = (pre ++ e.encode) ++ elems.flatMap Elem.encode := by
        rw [whole, List.flatMap_cons, List.append_assoc]
      cases chain with
      | done past =>
          rw [whole, List.length_append] at less
          omega
      | @next _ len ps inside length chain =>
          have read : r.lenAt cnt = some e.data.length := by
            have small : (UInt8.ofNat e.data.length).toNat = e.data.length := by
              rw [UInt8.toNat_ofNat', Nat.mod_eq_of_lt (short e List.mem_cons_self)]
            unfold ScanResult.lenAt ScanResult.byte
            rw [behind, List.append_assoc, ← place,
              List.getElem?_append_right (Nat.le_add_right _ _), Nat.add_sub_cancel_left]
            exact congrArg some small
          obtain rfl := Option.some.inj (length.symm.trans read)
          refine ih (fun e member => short e (List.mem_cons_of_mem _ member)) behind ?_ chain
          rw [List.length_append, size, place]

/-- A frame whose elements are well formed ends before the walk over it does. -/
theorem no_chain {elems : List Elem} (formed : WellFormed r elems) : ¬r.Chain 0 ps := by
  obtain ⟨long, short, whole⟩ := formed
  have whole : r.variable' = [] ++ elems.flatMap Elem.encode := whole
  refine no_chain_from short whole rfl ?_
  unfold ScanResult.variable'
  rw [List.length_drop]
  unfold beaconVariable at long ⊢
  omega

end Walks

section Visits

variable {r : ScanResult} {env : Env} {cnt len : Nat} {oui : Bytes}

theorem vendor_isSome (oui : Bytes) (there : ∃ b, r.byte cnt = some b) :
    (r.vendor oui cnt).isSome ↔ r.VendorFits cnt := by
  obtain ⟨b, there⟩ := there
  unfold ScanResult.vendor ScanResult.VendorFits
  rw [there]
  simp only [Option.bind_eq_bind, Option.bind_some, Option.some.injEq]
  split
  · rename_i vendor
    rw [forall_prop_of_true vendor]
    cases r.read (cnt + 2) 4 <;> simp
  · rename_i other
    exact iff_of_true rfl fun same => absurd same other

/-- What the arrays hold, and what was copied last -/
structure Sec.Holds (s : Sec) (wpa rsn : Nat) : Prop where
  wpaIe : s.wpaIe.length = ieSize
  rsnIe : s.rsnIe.length = ieSize
  wpaLen : s.wpaLen = wpa
  rsnLen : s.rsnLen = rsn
  wpaFits : wpa ≤ ieSize
  rsnFits : rsn ≤ ieSize

theorem read_length {i n : Nat} {b : Bytes} (read : r.read i n = some b) : b.length = n := by
  unfold ScanResult.read at read
  split at read
  · obtain rfl := Option.some.inj read
    rw [List.length_take, List.length_drop]
    omega
  · cases read

theorem copyIe_isSome (length : r.lenAt cnt = some len) {dst : Bytes}
    (size : dst.length = ieSize) :
    (r.copyIe cnt dst).isSome ↔ r.Whole cnt ∧ r.len cnt + 2 ≤ ieSize := by
  obtain ⟨-, same⟩ := byte_of_lenAt length
  unfold ScanResult.copyIe ScanResult.Whole Cells.copy
  rw [length, same]
  simp only [Option.bind_eq_bind, Option.bind_some]
  cases read : r.read cnt (len + 2) with
  | none => exact iff_of_false Bool.false_ne_true fun whole => Bool.false_ne_true whole.1
  | some b =>
      rw [Option.bind_some, read_length read, size]
      split
      · rename_i fits
        exact iff_of_true rfl ⟨rfl, fits⟩
      · rename_i long
        exact iff_of_false Bool.false_ne_true fun fits => long fits.2

/-- What was copied is within the array. -/
theorem of_copyIe (length : r.lenAt cnt = some len) {dst : Bytes} {out : Bytes × Nat}
    (size : dst.length = ieSize) (copied : r.copyIe cnt dst = some out) :
    out.1.length = ieSize ∧ out.2 = r.len cnt + 2 ∧ out.2 ≤ ieSize := by
  obtain ⟨-, same⟩ := byte_of_lenAt length
  have fits := ((copyIe_isSome length size).mp (Option.isSome_iff_exists.mpr ⟨out, copied⟩)).2
  unfold ScanResult.copyIe at copied
  rw [length] at copied
  simp only [Option.bind_eq_bind, Option.bind_some, Option.bind_eq_some_iff] at copied
  obtain ⟨b, read, a, filled, made⟩ := copied
  obtain rfl := Option.some.inj made
  rw [same] at fits ⊢
  unfold Cells.copy at filled
  split at filled
  · rename_i room
    obtain rfl := Option.some.inj filled
    exact ⟨(Cells.length_fill room).trans size, rfl, fits⟩
  · cases filled

/-- A vendor element is no RSN element. -/
theorem not_rsn (wpa : r.IsWpa cnt) : ¬r.IsRsn cnt := by
  intro rsn
  unfold ScanResult.IsRsn at rsn
  unfold ScanResult.IsWpa ScanResult.vendor at wpa
  rw [rsn] at wpa
  cases wpa

theorem isSome_bind_some {α β : Type} {x : Option α} {f : α → β} :
    (x.bind fun a => some (f a)).isSome ↔ x.isSome := by
  cases x <;> rfl

theorem secVisit_isSome (length : r.lenAt cnt = some len) {s : Sec} {wpa rsn : Nat}
    (holds : s.Holds wpa rsn) :
    (r.secVisit cnt s).isSome ↔ r.VendorFits cnt ∧ r.SecFits cnt := by
  have there := (byte_of_lenAt length).1
  have wpaIe := copyIe_isSome length holds.wpaIe
  have rsnIe := copyIe_isSome length holds.rsnIe
  rw [← vendor_isSome wpaOui there]
  unfold ScanResult.secVisit ScanResult.SecFits ScanResult.IsWpa ScanResult.IsRsn
  obtain ⟨b, there⟩ := there
  rw [there]
  cases vendor : r.vendor wpaOui cnt with
  | none => exact iff_of_false Bool.false_ne_true fun fits => Bool.false_ne_true fits.1
  | some wpa =>
      simp only [Option.bind_eq_bind, Option.bind_some, Option.isSome_some, true_and,
        Option.some.injEq, Option.pure_def]
      cases wpa with
      | true => rw [if_pos rfl, isSome_bind_some, wpaIe, forall_prop_of_true (.inl rfl)]
      | false =>
          rw [if_neg Bool.false_ne_true, or_iff_right Bool.false_ne_true]
          split
          · rename_i rsn
            rw [isSome_bind_some, rsnIe, forall_prop_of_true rsn]
          · rename_i other
            exact iff_of_true rfl fun rsn => absurd rsn other

/-- What an element leaves in the arrays -/
theorem of_secVisit (length : r.lenAt cnt = some len) {s t : Sec} {wpa rsn : Nat}
    (holds : s.Holds wpa rsn) (visited : r.secVisit cnt s = some t) :
    t.Holds (if r.IsWpa cnt then r.len cnt + 2 else wpa)
      (if r.IsRsn cnt then r.len cnt + 2 else rsn) := by
  unfold ScanResult.secVisit at visited
  obtain ⟨vendor, read, visited⟩ := Option.bind_eq_some_iff.mp visited
  by_cases wpa' : r.IsWpa cnt
  · obtain rfl := Option.some.inj (read.symm.trans wpa')
    rw [if_pos rfl] at visited
    obtain ⟨copied, copy, made⟩ := Option.bind_eq_some_iff.mp visited
    obtain rfl := Option.some.inj made
    obtain ⟨size, same, fits⟩ := of_copyIe length holds.wpaIe copy
    rw [if_pos wpa', if_neg (not_rsn wpa')]
    exact ⟨size, holds.rsnIe, same, holds.rsnLen, same ▸ fits, holds.rsnFits⟩
  · have other : vendor = false := by
      cases vendor with
      | false => rfl
      | true => exact absurd read wpa'
    rw [other, if_neg Bool.false_ne_true] at visited
    obtain ⟨b, there, visited⟩ := Option.bind_eq_some_iff.mp visited
    rw [if_neg wpa']
    split at visited
    · rename_i rsn'
      have rsn' : r.IsRsn cnt := there.trans (congrArg some rsn')
      obtain ⟨copied, copy, made⟩ := Option.bind_eq_some_iff.mp visited
      obtain rfl := Option.some.inj made
      obtain ⟨size, same, fits⟩ := of_copyIe length holds.rsnIe copy
      rw [if_pos rsn']
      exact ⟨holds.wpaIe, size, holds.wpaLen, same, holds.wpaFits, same ▸ fits⟩
    · rename_i other
      obtain rfl := Option.some.inj visited
      rw [if_neg fun rsn' : r.IsRsn cnt => other (Option.some.inj (there.symm.trans rsn'))]
      exact holds

/-- All elements are visited if each of them can be. -/
theorem secVisits_isSome {ps : List Nat} (lengths : ∀ i ∈ ps, ∃ len, r.lenAt i = some len)
    {s : Sec} {wpa rsn : Nat} (holds : s.Holds wpa rsn) :
    (ps.foldlM (fun s cnt => r.secVisit cnt s) s).isSome ↔
      ∀ cnt ∈ ps, r.VendorFits cnt ∧ r.SecFits cnt := by
  induction ps generalizing s wpa rsn with
  | nil => exact iff_of_true rfl fun i none => absurd none List.not_mem_nil
  | cons cnt ps ih =>
      obtain ⟨len, length⟩ := lengths cnt List.mem_cons_self
      rw [List.foldlM_cons, List.forall_mem_cons, ← secVisit_isSome length holds]
      cases visited : r.secVisit cnt s with
      | none => exact iff_of_false Bool.false_ne_true fun fits => Bool.false_ne_true fits.1
      | some t =>
          have rest := ih (fun i member => lengths i (List.mem_cons_of_mem _ member))
            (of_secVisit length holds visited)
          exact rest.trans (and_iff_right rfl).symm

theorem of_secVisits {ps : List Nat} (lengths : ∀ i ∈ ps, ∃ len, r.lenAt i = some len)
    {s t : Sec} {wpa rsn : Nat} (holds : s.Holds wpa rsn)
    (visited : ps.foldlM (fun s cnt => r.secVisit cnt s) s = some t) :
    t.Holds (ps.foldl (fun n cnt => if r.IsWpa cnt then r.len cnt + 2 else n) wpa)
      (ps.foldl (fun n cnt => if r.IsRsn cnt then r.len cnt + 2 else n) rsn) := by
  induction ps generalizing s wpa rsn with
  | nil =>
      obtain rfl := Option.some.inj visited
      exact holds
  | cons cnt ps ih =>
      obtain ⟨len, length⟩ := lengths cnt List.mem_cons_self
      rw [List.foldlM_cons] at visited
      obtain ⟨u, first, visited⟩ := Option.bind_eq_some_iff.mp visited
      exact ih (fun i member => lengths i (List.mem_cons_of_mem _ member))
        (of_secVisit length holds first) visited

/-- A WPS element is offered if it is in the frame, and it need not be if there is no room. -/
theorem wpsVisit_isSome (env : Env) (length : r.lenAt cnt = some len) (vendor : r.VendorFits cnt)
    (whole : r.IsWps cnt → r.Whole cnt) (s : Stream) : (r.wpsVisit env cnt s).isSome := by
  obtain ⟨there, same⟩ := byte_of_lenAt length
  obtain ⟨wps, read⟩ :=
    Option.isSome_iff_exists.mp ((vendor_isSome wpsOui there).mpr vendor)
  unfold ScanResult.wpsVisit
  rw [read]
  cases wps with
  | false => rfl
  | true =>
      obtain ⟨b, ie⟩ := Option.isSome_iff_exists.mp (whole read)
      rw [same] at ie
      simp only [Option.bind_eq_bind, Option.bind_some, if_true, length]
      split
      · unfold Stream.addPoint
        rw [ie]
        split <;> rfl
      · rfl

/-- Where there is room for all events, an element that is visited has been in the frame. -/
theorem of_wpsVisit (length : r.lenAt cnt = some len) {s t : Stream}
    (room : ∀ n, env.fits n = true) (visited : r.wpsVisit env cnt s = some t) :
    r.VendorFits cnt ∧ (r.IsWps cnt → r.Whole cnt) := by
  obtain ⟨there, same⟩ := byte_of_lenAt length
  unfold ScanResult.wpsVisit at visited
  obtain ⟨wps, read, visited⟩ := Option.bind_eq_some_iff.mp visited
  refine ⟨(vendor_isSome wpsOui there).mp (Option.isSome_iff_exists.mpr ⟨wps, read⟩), fun wps' => ?_⟩
  obtain rfl := Option.some.inj (read.symm.trans wps')
  rw [if_pos rfl, length] at visited
  simp only [Option.bind_eq_bind, Option.bind_some] at visited
  unfold ScanResult.Whole
  rw [same]
  split at visited
  · unfold Stream.addPoint at visited
    rw [if_pos (room _)] at visited
    obtain ⟨b, ie, -⟩ := Option.bind_eq_some_iff.mp visited
    exact Option.isSome_iff_exists.mpr ⟨b, ie⟩
  · rename_i empty
    obtain ⟨b, there, -⟩ := Option.map_eq_some_iff.mp length
    have inside := (List.getElem?_eq_some_iff.mp there).1
    unfold ScanResult.read
    rw [if_pos (by omega)]
    rfl

/-- All WPS elements are offered if each of them can be. -/
theorem wpsVisits_isSome (env : Env) {ps : List Nat}
    (lengths : ∀ i ∈ ps, ∃ len, r.lenAt i = some len)
    (fits : ∀ cnt ∈ ps, r.VendorFits cnt ∧ (r.IsWps cnt → r.Whole cnt)) (s : Stream) :
    (ps.foldlM (fun s cnt => r.wpsVisit env cnt s) s).isSome := by
  induction ps generalizing s with
  | nil => rfl
  | cons cnt ps ih =>
      obtain ⟨len, length⟩ := lengths cnt List.mem_cons_self
      obtain ⟨vendor, whole⟩ := fits cnt List.mem_cons_self
      obtain ⟨t, visited⟩ := Option.isSome_iff_exists.mp
        (wpsVisit_isSome env length vendor whole s)
      rw [List.foldlM_cons, visited]
      exact ih (fun i member => lengths i (List.mem_cons_of_mem _ member))
        (fun i member => fits i (List.mem_cons_of_mem _ member)) t

theorem of_wpsVisits {ps : List Nat} (lengths : ∀ i ∈ ps, ∃ len, r.lenAt i = some len)
    (room : ∀ n, env.fits n = true) {s t : Stream}
    (visited : ps.foldlM (fun s cnt => r.wpsVisit env cnt s) s = some t) :
    ∀ cnt ∈ ps, r.VendorFits cnt ∧ (r.IsWps cnt → r.Whole cnt) := by
  induction ps generalizing s with
  | nil => exact fun i none => absurd none List.not_mem_nil
  | cons cnt ps ih =>
      obtain ⟨len, length⟩ := lengths cnt List.mem_cons_self
      rw [List.foldlM_cons] at visited
      obtain ⟨u, first, visited⟩ := Option.bind_eq_some_iff.mp visited
      exact List.forall_mem_cons.mpr ⟨of_wpsVisit length room first,
        ih (fun i member => lengths i (List.mem_cons_of_mem _ member)) visited⟩

end Visits

section Offers

variable {env : Env} {label ie : Bytes} {len p : Nat} {s : Stream}

theorem length_hex (ie : Bytes) : (ie.flatMap hexByte).length = 2 * ie.length := by
  induction ie with
  | nil => rfl
  | cons b ie ih =>
      rw [List.flatMap_cons, List.length_append, ih, List.length_cons, Nat.mul_succ, Nat.add_comm]
      rfl

theorem length_ieText (size : label.length = 7) (fits : len ≤ ie.length) :
    (ieText label (ie.take len)).length = 7 + 2 * len := by
  unfold ieText
  rw [List.length_append, size, length_hex, List.length_take, Nat.min_eq_left fits]

theorem addPoint_isSome (env : Env) (s : Stream) (cmd : Cmd) {extra : Option Bytes}
    (given : extra.isSome) :
    (s.addPoint env cmd extra).isSome := by
  obtain ⟨data, rfl⟩ := Option.isSome_iff_exists.mp given
  unfold Stream.addPoint
  split <;> rfl

/-- What is printed in the buffer ends in it. -/
theorem text_isSome {text pbuf out : Bytes}
    (printed : Cells.copyAt p (text ++ [0]) pbuf = some out) : (Cells.text 0 out).isSome := by
  unfold Cells.copyAt at printed
  split at printed
  · obtain rfl := Option.some.inj printed
    unfold Cells.text
    rw [if_pos (by simp)]
    rfl
  · cases printed

/-- An element is offered if the text of it has room in the buffer, with the end of it. -/
theorem offerIe_isSome (env : Env) (p : Nat) (s : Stream) (size : label.length = 7)
    (fits : len ≤ ie.length) :
    (offerIe env label ie len p s).isSome ↔ (len ≠ 0 → p + (7 + 2 * len) < bufSize) := by
  unfold offerIe
  split
  · rename_i empty
    exact iff_of_true rfl fun filled => absurd empty filled
  · rename_i filled
    rw [forall_prop_of_true filled]
    have room : (Cells.copyAt p (ieText label (ie.take len) ++ [0])
        (List.replicate bufSize 0)).isSome ↔ p + (7 + 2 * len) < bufSize := by
      unfold Cells.copyAt
      rw [List.length_append, length_ieText size fits, List.length_singleton,
        List.length_replicate]
      split
      · exact iff_of_true rfl (by omega)
      · exact iff_of_false Bool.false_ne_true (by omega)
    rw [← room]
    cases printed : Cells.copyAt p (ieText label (ie.take len) ++ [0])
        (List.replicate bufSize 0) with
    | none =>
        simp only [printed]
        exact iff_of_false Bool.false_ne_true Bool.false_ne_true
    | some pbuf =>
        obtain ⟨t, first⟩ := Option.isSome_iff_exists.mp
          (addPoint_isSome env s .custom (text_isSome printed))
        have given : (some (ie.take len)).isSome := rfl
        obtain ⟨u, second⟩ := Option.isSome_iff_exists.mp (addPoint_isSome env t .genie given)
        simp only [printed, Option.bind_eq_bind, Option.bind_some, first, second]
        exact iff_of_true rfl rfl

theorem of_offerIe {t : Stream} {q : Nat} (size : label.length = 7) (fits : len ≤ ie.length)
    (offered : offerIe env label ie len p s = some (t, q)) :
    q = if len = 0 then p else p + (7 + 2 * len) := by
  unfold offerIe at offered
  split at offered
  · rename_i empty
    obtain ⟨-, rfl⟩ := Prod.mk.injEq .. ▸ Option.some.inj offered
    rw [if_pos empty]
  · rename_i filled
    simp only [Option.bind_eq_bind, Option.bind_eq_some_iff] at offered
    obtain ⟨pbuf, -, t', -, u, -, made⟩ := offered
    obtain ⟨-, rfl⟩ := Prod.mk.injEq .. ▸ Option.some.inj made
    rw [if_neg filled, length_ieText size fits]

end Offers

section Stages

variable {r : ScanResult} {env : Env} {ps : List Nat} {s : Stream}

theorem Sec.holds_zero :
    Sec.Holds ⟨List.replicate ieSize 0, 0, List.replicate ieSize 0, 0⟩ 0 0 :=
  ⟨List.length_replicate, List.length_replicate, rfl, rfl, Nat.zero_le _, Nat.zero_le _⟩

theorem aicGetSecIe_isSome (chain : r.Chain 0 ps) :
    r.aicGetSecIe.isSome ↔ ∀ cnt ∈ ps, r.VendorFits cnt ∧ r.SecFits cnt := by
  unfold ScanResult.aicGetSecIe
  rw [walk_eq chain (by omega)]
  exact secVisits_isSome (lengths_of_chain chain) Sec.holds_zero

theorem of_aicGetSecIe (chain : r.Chain 0 ps) {sec : Sec} (got : r.aicGetSecIe = some sec) :
    sec.Holds (r.wpaLen ps) (r.rsnLen ps) := by
  unfold ScanResult.aicGetSecIe at got
  rw [walk_eq chain (by omega)] at got
  exact of_secVisits (lengths_of_chain chain) Sec.holds_zero got

theorem wpaWpa2_isSome (chain : r.Chain 0 ps) (memory : env.pbuf = true) :
    (r.wpaWpa2 env s).isSome ↔
      (∀ cnt ∈ ps, r.VendorFits cnt ∧ r.SecFits cnt) ∧ TextFits (r.wpaLen ps) (r.rsnLen ps) := by
  rw [← aicGetSecIe_isSome chain]
  unfold ScanResult.wpaWpa2
  rw [memory, if_neg Bool.false_ne_true.symm]
  cases got : r.aicGetSecIe with
  | none => exact iff_of_false Bool.false_ne_true fun fits => Bool.false_ne_true fits.1
  | some sec =>
      obtain ⟨wpaIe, rsnIe, wpaLen, rsnLen, wpaFits, rsnFits⟩ := of_aicGetSecIe chain got
      rw [Option.bind_eq_bind, Option.bind_some, wpaLen, rsnLen]
      have wpaFits := wpaFits.trans_eq wpaIe.symm
      have rsnFits := rsnFits.trans_eq rsnIe.symm
      have first := @offerIe_isSome wpaLabel _ _ env 0 s rfl wpaFits
      unfold TextFits
      rw [and_iff_right (by rfl)]
      rw [Nat.zero_add] at first
      rw [← first]
      cases offered : offerIe env wpaLabel sec.wpaIe (r.wpaLen ps) 0 s with
      | none => exact iff_of_false Bool.false_ne_true fun fits => Bool.false_ne_true fits.1
      | some out =>
          obtain ⟨t, q⟩ := out
          have cursor := of_offerIe rfl wpaFits offered
          rw [Nat.zero_add] at cursor
          rw [and_iff_right (by rfl), ← cursor,
            ← @offerIe_isSome rsnLabel _ _ env q t rfl rsnFits]
          simp only [Option.bind_eq_bind, Option.bind_some]
          exact isSome_bind_some

theorem wps_isSome (env : Env) (s : Stream) (chain : r.Chain 0 ps)
    (fits : ∀ cnt ∈ ps, r.VendorFits cnt ∧ (r.IsWps cnt → r.Whole cnt)) :
    (r.wps env s).isSome := by
  unfold ScanResult.wps
  rw [walk_eq chain (by omega)]
  exact wpsVisits_isSome env (lengths_of_chain chain) fits s

theorem of_wps (room : ∀ n, env.fits n = true) (offered : (r.wps env s).isSome) :
    ∃ ps, r.Chain 0 ps ∧ ∀ cnt ∈ ps, r.VendorFits cnt ∧ (r.IsWps cnt → r.Whole cnt) := by
  obtain ⟨t, visited⟩ := Option.isSome_iff_exists.mp offered
  obtain ⟨ps, chain⟩ := chain_of_walk visited
  unfold ScanResult.wps at visited
  rw [walk_eq chain (by omega)] at visited
  exact ⟨ps, chain, of_wpsVisits (lengths_of_chain chain) room visited⟩

/-- `cfg80211_find_ie` stays in the frame where the walkers do. -/
theorem findIe_isSome {eid : UInt8} {fuel pos : Nat} (chain : r.Chain pos ps) :
    (r.findIe eid fuel pos).isSome := by
  induction fuel generalizing pos ps with
  | zero => rfl
  | succ fuel ih =>
      unfold ScanResult.findIe
      split
      · rename_i header
        cases chain with
        | done past => omega
        | next inside length chain =>
            obtain ⟨⟨b, there⟩, -⟩ := byte_of_lenAt length
            rw [there, length]
            simp only [Option.bind_eq_bind, Option.bind_some]
            split
            · rfl
            · split
              · rfl
              · exact ih chain
      · rfl

theorem named_isSome {memory : Bool} {offer : Nat → Bytes → Option Stream}
    (given : ∀ len ssid, (offer len ssid).isSome) :
    (do let len ← r.lenAt 0; guard memory; let ssid ← r.read 2 len; offer len ssid).isSome ↔
      r.EssidFits ∧ memory := by
  unfold ScanResult.EssidFits
  cases length : r.lenAt 0 with
  | none => exact iff_of_false Bool.false_ne_true fun ⟨⟨_, same, _⟩, _⟩ => nomatch same
  | some len =>
      simp only [Option.bind_eq_bind, Option.bind_some, Option.some.injEq, exists_eq_left']
      cases memory with
      | false => exact iff_of_false Bool.false_ne_true fun fits => Bool.false_ne_true fits.2
      | true =>
          rw [guard, if_pos rfl]
          cases read : r.read 2 len with
          | none => exact iff_of_false Bool.false_ne_true fun fits => Bool.false_ne_true fits.1
          | some ssid => exact iff_of_true (given len ssid) ⟨rfl, rfl⟩

theorem essid_isSome (env : Env) (s : Stream) :
    (r.essid env s).isSome ↔ r.EssidFits ∧ env.essidMemory :=
  named_isSome fun _ _ => addPoint_isSome env s _ rfl

theorem encryption_isSome (env : Env) (s : Stream) :
    (r.encryption env s).isSome ↔ r.EssidFits ∧ env.encodeMemory :=
  named_isSome fun _ _ => addPoint_isSome env s _ rfl

theorem find_isSome (eid : UInt8) (chain : r.Chain 0 ps) : (r.find eid).isSome :=
  findIe_isSome chain

/-- The index of a row of rates is in it, except where the map has no stream. -/
theorem txMcsIndex_lt (map : UInt8) : txMcsIndex map < 30 ↔ map &&& 0x0f ≠ 0 := by
  unfold txMcsIndex
  have low : (map &&& 0x0f).toNat < 16 := by
    rw [UInt8.toNat_and]
    exact Nat.lt_of_le_of_lt Nat.and_le_right (by decide)
  rw [UInt8.toNat_sub]
  constructor
  · intro small zero
    rw [zero] at small
    revert small
    decide
  · intro some
    have pos : (map &&& 0x0f).toNat ≠ 0 := fun zero => some (UInt8.toNat_inj.mp zero)
    have one : (1 : UInt8).toNat = 1 := rfl
    rw [one]
    omega

theorem vhtShortGi_lt (info : UInt8) : vhtShortGi info < 2 := by
  have low (b : UInt8) : (b &&& 1).toNat < 2 := by
    rw [UInt8.toNat_and]
    exact Nat.lt_of_le_of_lt Nat.and_le_right (by decide)
  unfold vhtShortGi
  split <;> exact low _

theorem length_vhtRow {width gi : Nat} (width' : width = 2 ∨ width = 1) (gi' : gi < 2) :
    ((vhtMcsDataRate.getD width []).getD gi []).length = 30 := by
  obtain rfl | rfl : gi = 0 ∨ gi = 1 := by omega
  all_goals obtain rfl | rfl := width' <;> rfl

theorem read_isSome {i n : Nat} : (r.read i n).isSome ↔ i + n ≤ r.variable'.length := by
  unfold ScanResult.read
  split
  · rename_i fits
    exact iff_of_true rfl fits
  · rename_i long
    exact iff_of_false Bool.false_ne_true long

theorem byte_isSome {i : Nat} : (r.byte i).isSome ↔ i < r.variable'.length :=
  iff_of_eq (isSome_getElem? _ _)

theorem htCapability_isSome (chain : r.Chain 0 ps) : r.htCapability.isSome ↔ r.HtFits := by
  unfold ScanResult.htCapability ScanResult.HtFits
  obtain ⟨found, find⟩ :=
    Option.isSome_iff_exists.mp (find_isSome wlanEidHtCapability chain)
  rw [find]
  cases found with
  | none => exact iff_of_true rfl fun pos other => nomatch other
  | some pos =>
      simp only [Option.bind_eq_bind, Option.bind_some, Option.some.injEq, forall_eq']
      rw [read_isSome]
      cases info : r.read (pos + 2) 2 with
      | none =>
          have cut := mt read_isSome.mpr (Option.not_isSome_iff_eq_none.mpr info)
          exact iff_of_false Bool.false_ne_true (by omega)
      | some info => exact isSome_bind_some.trans read_isSome

theorem vhtDataRate_isSome (chain : r.Chain 0 ps) : r.vhtDataRate.isSome ↔ r.VhtFits := by
  unfold ScanResult.vhtDataRate ScanResult.VhtFits
  obtain ⟨found, find⟩ :=
    Option.isSome_iff_exists.mp (find_isSome wlanEidVhtCapability chain)
  rw [find]
  cases found with
  | none => exact iff_of_true rfl fun pos other => nomatch other
  | some pos =>
      simp only [Option.bind_eq_bind, Option.bind_some, Option.some.injEq, forall_eq']
      cases read : r.read (pos + 10) 2 with
      | none =>
          refine iff_of_false ?_ fun ⟨_, same, _⟩ => nomatch same
          cases r.byte (pos + 2) <;> exact Bool.false_ne_true
      | some map =>
          have inside := read_isSome.mp (Option.isSome_iff_exists.mpr ⟨map, read⟩)
          obtain ⟨info, there⟩ :=
            Option.isSome_iff_exists.mp (byte_isSome.mpr (by omega : pos + 2 < r.variable'.length))
          rw [there]
          simp only [Option.bind_some, Option.some.injEq, exists_eq_left', ← txMcsIndex_lt]
          refine isSome_bind_some.trans ((iff_of_eq (isSome_getElem? _ _)).trans ?_)
          rw [length_vhtRow (by split <;> simp) (vhtShortGi_lt info)]

/-- An extension that is no HE capability is looked at as far as its first byte. -/
theorem heDataRate_isSome (chain : r.Chain 0 ps) : r.heDataRate.isSome ↔ r.HeFits := by
  unfold ScanResult.heDataRate ScanResult.heCap ScanResult.HeFits
  obtain ⟨found, find⟩ :=
    Option.isSome_iff_exists.mp (find_isSome wlanEidExtension chain)
  rw [find]
  cases found with
  | none => exact iff_of_true rfl fun pos other => nomatch other
  | some pos =>
      simp only [Option.bind_eq_bind, Option.bind_some, Option.some.injEq, forall_eq']
      cases there : r.byte (pos + 2) with
      | none => exact iff_of_false Bool.false_ne_true fun ⟨_, same, _⟩ => nomatch same
      | some id =>
          simp only [Option.bind_some, Option.some.injEq, exists_eq_left']
          by_cases he : id = wlanEidExtHeCapability
          · rw [forall_prop_of_true he, if_pos he]
            exact isSome_bind_some
          · rw [if_neg he]
            exact iff_of_true rfl fun same => absurd same he

theorem heCap_isSome (fits : r.heDataRate.isSome) : r.heCap.isSome := by
  unfold ScanResult.heDataRate at fits
  cases cap : r.heCap with
  | none =>
      rw [cap] at fits
      exact absurd fits Bool.false_ne_true
  | some cap => rfl

theorem protocol_isSome (env : Env) (s : Stream) (chain : r.Chain 0 ps) (he : r.heCap.isSome) :
    (r.protocol env s).isSome := by
  obtain ⟨ht, ht'⟩ := Option.isSome_iff_exists.mp (find_isSome wlanEidHtCapability chain)
  obtain ⟨vht, vht'⟩ := Option.isSome_iff_exists.mp (find_isSome wlanEidVhtCapability chain)
  obtain ⟨cap, cap'⟩ := Option.isSome_iff_exists.mp he
  unfold ScanResult.protocol
  rw [ht', vht', cap']
  rfl

theorem rate_isSome (env : Env) (s : Stream) (chain : r.Chain 0 ps) :
    (r.rate env s).isSome ↔ r.HtFits ∧ r.VhtFits ∧ r.HeFits := by
  rw [← htCapability_isSome chain, ← vhtDataRate_isSome chain, ← heDataRate_isSome chain]
  unfold ScanResult.rate
  cases r.htCapability with
  | none => exact iff_of_false Bool.false_ne_true fun fits => Bool.false_ne_true fits.1
  | some ht =>
      cases r.vhtDataRate with
      | none => exact iff_of_false Bool.false_ne_true fun fits => Bool.false_ne_true fits.2.1
      | some vht =>
          cases r.heDataRate with
          | none => exact iff_of_false Bool.false_ne_true fun fits => Bool.false_ne_true fits.2.2
          | some he => exact iff_of_true rfl ⟨rfl, rfl, rfl⟩

/-- Where there is room for all events, a scan is offered only if what is looked for is in the
    frame. -/
theorem inside_of_translateScan (room : ∀ n, env.fits n = true) (known : r.bss.isSome)
    (offered : (r.translateScan env s).isSome) : Inside env r := by
  obtain ⟨bss, known⟩ := Option.isSome_iff_exists.mp known
  obtain ⟨out, offered⟩ := Option.isSome_iff_exists.mp offered
  unfold ScanResult.translateScan at offered
  rw [known] at offered
  simp only [Option.bind_eq_bind, Option.bind_eq_some_iff] at offered
  obtain ⟨s₁, essid, s₂, -, s₃, encryption, s₄, rate, s₅, wpa, s₆, wps, -⟩ := offered
  obtain ⟨ps, chain, walked⟩ := of_wps room (Option.isSome_iff_exists.mpr ⟨s₆, wps⟩)
  have essid := (essid_isSome env _).mp (Option.isSome_iff_exists.mpr ⟨s₁, essid⟩)
  have encryption := (encryption_isSome env _).mp (Option.isSome_iff_exists.mpr ⟨s₃, encryption⟩)
  have rate := (rate_isSome env s₃ chain).mp (Option.isSome_iff_exists.mpr ⟨s₄, rate⟩)
  have sec (memory : env.pbuf = true) :=
    (wpaWpa2_isSome chain memory).mp (Option.isSome_iff_exists.mpr ⟨s₅, wpa⟩)
  refine ⟨essid.1, ⟨essid.2, encryption.2⟩, rate.1, rate.2.1, rate.2.2, ps, chain, ?_, ?_⟩
  · intro cnt member
    exact ⟨(walked cnt member).1, (walked cnt member).2, fun memory => ((sec memory).1 cnt member).2⟩
  · exact fun memory => (sec memory).2

theorem translateScan_of_inside (s : Stream) (inside : Inside env r) :
    (r.translateScan env s).isSome := by
  unfold ScanResult.translateScan
  cases r.bss with
  | none => rfl
  | some bss =>
      obtain ⟨ps, chain, walked, text⟩ := inside.chain
      have sec (s : Stream) : (r.wpaWpa2 env s).isSome := by
        by_cases memory : env.pbuf = true
        · exact (wpaWpa2_isSome chain memory).mpr
            ⟨fun cnt member => ⟨(walked cnt member).1, (walked cnt member).2.2 memory⟩, text memory⟩
        · unfold ScanResult.wpaWpa2
          rw [if_pos (Bool.eq_false_iff.mpr memory)]
          rfl
      obtain ⟨s₁, essid⟩ := Option.isSome_iff_exists.mp
        ((essid_isSome env (s.add env (.ap bss.bssid))).mpr ⟨inside.essid, inside.memory.1⟩)
      have he := heCap_isSome ((heDataRate_isSome chain).mpr inside.he)
      obtain ⟨s₂, protocol⟩ := Option.isSome_iff_exists.mp
        (protocol_isSome env s₁ chain he)
      obtain ⟨s₃, encryption⟩ := Option.isSome_iff_exists.mp
        ((encryption_isSome env
          (ScanResult.mode bss env (s₂.add env (.freq (r.centerFreq * 100000))))).mpr
          ⟨inside.essid, inside.memory.2⟩)
      obtain ⟨s₄, rate⟩ := Option.isSome_iff_exists.mp
        ((rate_isSome env s₃ chain).mpr ⟨inside.ht, inside.vht, inside.he⟩)
      obtain ⟨s₅, wpa⟩ := Option.isSome_iff_exists.mp (sec s₄)
      obtain ⟨s₆, wps⟩ := Option.isSome_iff_exists.mp (wps_isSome env s₅ chain
        fun cnt member => ⟨(walked cnt member).1, (walked cnt member).2.1⟩)
      simp only [Option.bind_eq_bind, essid, protocol, encryption, rate, wpa, wps,
        Option.bind_some]
      rfl

end Stages

/-- A scan result is treated soundly if nothing is known of the network, or what the walkers look
    for is in the frame. -/
theorem scan_sound_iff (env : Env) (r : ScanResult) : Sound env r ↔ Regular env r := by
  constructor
  · intro sound known
    obtain ⟨out, offered, -⟩ := sound fun _ => true
    obtain ⟨essid, memory, ht, vht, he, chain⟩ := inside_of_translateScan (fun _ => rfl) known
      (Option.isSome_iff_exists.mpr ⟨out, offered⟩)
    exact ⟨essid, memory, ht, vht, he, chain⟩
  · intro regular fits
    by_cases known : r.bss.isSome
    · obtain ⟨essid, memory, ht, vht, he, chain⟩ := regular known
      have inside : Inside { env with fits } r := ⟨essid, memory, ht, vht, he, chain⟩
      obtain ⟨out, offered⟩ := Option.isSome_iff_exists.mp (translateScan_of_inside ⟨0, []⟩ inside)
      refine ⟨out, offered, fun elems formed _ _ _ => ?_⟩
      obtain ⟨ps, chain, -⟩ := chain
      exact absurd chain (no_chain formed)
    · refine ⟨⟨0, []⟩, ?_, fun _ _ known' => absurd known' known⟩
      unfold ScanResult.translateScan
      rw [Option.not_isSome_iff_eq_none.mp known]

/-- No scan result with a well-formed frame is treated soundly: the walkers go on behind it. -/
theorem formed_unsound {env : Env} {r : ScanResult} {elems : List Elem}
    (formed : WellFormed r elems) (known : r.bss.isSome) : ¬Sound env r := by
  intro sound
  obtain ⟨out, offered, -⟩ := sound fun _ => true
  obtain ⟨ps, chain, -⟩ := (inside_of_translateScan (fun _ => rfl) known
    (Option.isSome_iff_exists.mpr ⟨out, offered⟩)).chain
  exact no_chain formed chain

/-! ## A beacon -/

/-- All memory that is asked for is there, and room for all events. -/
def roomy : Env := ⟨true, true, true, fun _ => true⟩

/-- A network named `A`, with an RSN element -/
def beaconElems : List Elem := [⟨0, [65]⟩, ⟨wpa2IeId, [1, 0]⟩]

def beacon : ScanResult where
  bss := some ⟨[2, 0, 0, 0, 0, 1], 1⟩
  frame := 0x80 :: List.replicate 35 0 ++ beaconElems.flatMap Elem.encode
  lengthU16 := by decide
  centerFreq := 2412
  above14 := false
  rssi := -40

/-- The walkers go on behind the last element of the beacon. -/
theorem beacon_overrun : WellFormed beacon beaconElems ∧ ¬Sound roomy beacon := by
  have formed : WellFormed beacon beaconElems := ⟨by decide, by decide, rfl⟩
  exact ⟨formed, formed_unsound formed rfl⟩

end Aic8800.Wext.ScanElements
