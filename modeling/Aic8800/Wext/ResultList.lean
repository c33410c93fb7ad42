import Aic8800.Lib.Ledger
import Aic8800.Lib.Run
import Aic8800.Wext.ScanElements
import Mathlib

/-! # The list of results for the wireless extensions

The results of a scan are kept in a list until they are read. The list is told with its entries,
their buffers and their references to what `cfg80211` knows of the networks; of a read, which
events are offered and how long they are. What is behind a frame is taken as it comes.
-/

namespace Aic8800.Wext.ResultList

open Lib Run
open ScanElements (Bytes Bss Cmd beaconVariable wpaIeId wpa2IeId wpaOui wpsOui)

/-- `struct scanu_result_wext`. The buffers and the reference are known by numbers. -/
structure Entry where
  node : Nat
  ind : Nat
  /-- NULL for a frame of no bytes -/
  payload : Option Nat
  bss : Option (Bss × Nat)
  length : Nat
  bytes : Nat → UInt8

namespace Entry

variable (e : Entry)

def bssid : Option Bytes := e.bss.map fun b => b.1.bssid

def ref : Option Nat := e.bss.map Prod.snd

def buffers : List Nat := e.payload.toList ++ [e.ind, e.node]

end Entry

/-- The part of `struct rwnx_hw` that the wireless extensions have, with what was allocated and
    freed, and the references that were taken and put -/
structure Hw where
  wextScan : Bool
  list : List Entry
  buffers : Ledger Unit
  refs : Ledger Unit

/-! ## Results -/

/-- `SCANU_RESULT_IND`, with what `ieee80211_get_channel`, `cfg80211_inform_bss` and the three calls
    of `vmalloc` give for it -/
structure Result where
  chan : Bool
  bss : Option Bss
  node : Bool
  ind : Bool
  payload : Bool
  length : Nat
  bytes : Nat → UInt8

/-- The loop over the list; a pointer that is NULL is followed to `bssid`. -/
def alreadyExists (bss : Option Bss) : List Entry → Option Bool
  | [] => some false
  | e :: rest => do
      if (← e.bss).1.bssid = (← bss).bssid then return true
      alreadyExists bss rest

namespace Hw

variable (hw : Hw)

/-- `cfg80211_inform_bss`, which takes a reference if it gives an entry -/
def inform (bss : Option Bss) : Option (Bss × Nat) × Hw :=
  match bss with
  | none => (none, hw)
  | some bss => (some (bss, hw.refs.issued), { hw with refs := hw.refs.issue })

/-- `putbss` -/
def putBss (bss : Option (Bss × Nat)) : Hw :=
  match bss with
  | none => hw
  | some (_, ref) => { hw with refs := hw.refs.settle ref () }

/-- A new entry. Memory that was not given is written to, but for none of it. -/
def keep (r : Result) (bss : Option (Bss × Nat)) : Option Hw :=
  if r.node ∧ r.ind ∧ (r.payload ∨ r.length = 0) then
    let n := hw.buffers.issued
    let payload := if r.length = 0 then none else some (n + 2)
    some { hw with
      list := hw.list ++ [⟨n, n + 1, payload, bss, r.length, r.bytes⟩]
      buffers := hw.buffers.issues (if r.length = 0 then 2 else 3) }
  else none

/-- `rwnx_rx_scanu_result_ind` -/
def scanuResultInd (r : Result) : Option Hw :=
  if r.chan then
    let (bss, hw) := hw.inform r.bss
    if hw.wextScan then
      match alreadyExists r.bss hw.list with
      | none => none
      | some true => some (hw.putBss bss)
      | some false => hw.keep r bss
    else some (hw.putBss bss)
  else some hw

end Hw

/-! ## Scans -/

/-- What `aicwf_set_scan` comes by: `scanning`, what the two messages to the device give, and
    whether there is memory for the request and for the name, if one is asked for -/
structure ScanCall where
  scanning : Bool
  cancel : Int
  request : Bool
  thisEssid : Bool
  ssids : Bool
  scanuReq : Int

def enomem : Int := 12

/-- `aicwf_set_scan`. A request that was not given is written to. -/
def Hw.setScan (hw : Hw) (c : ScanCall) : Option (Int × Hw) :=
  if (hw.wextScan ∨ c.scanning) ∧ c.cancel ≠ 0 then some (c.cancel, hw)
  else if c.request then
    if c.thisEssid ∧ ¬c.ssids then some (-enomem, { hw with wextScan := true })
    else some (c.scanuReq, { hw with wextScan := true })
  else none

/-! ## Reads -/

/-- An event that is offered to the stream -/
inductive Offer where
  | ap
  | name
  | freq
  | mode
  | bitrate
  | qual
  | point (cmd : Cmd) (length : Nat)
  deriving DecidableEq

/-- Its length in the stream, for this `lcp_len` -/
def Offer.size (lcpLen : Nat) : Offer → Nat
  | .ap | .name => lcpLen + 16
  | .freq | .bitrate => lcpLen + 8
  | .mode | .qual => lcpLen + 4
  | .point _ length => 2 * lcpLen + length

/-- Where the elements begin that are come by -/
def elements (ie : Nat → UInt8) (length : Nat) : (fuel cnt : Nat) → List Nat
  | 0, _ => []
  | fuel + 1, cnt =>
      if cnt < length then cnt :: elements ie length fuel (cnt + ((ie (cnt + 1)).toNat + 2)) else []

def isVendor (ie : Nat → UInt8) (oui : Bytes) (cnt : Nat) : Bool :=
  ie cnt = wpaIeId ∧ (List.range 4).map (fun i => ie (cnt + 2 + i)) = oui

/-- `wpa_len` and `rsn_len` of `aic_get_sec_ie` -/
def aicGetSecIe (ie : Nat → UInt8) (cnts : List Nat) : Nat × Nat :=
  cnts.foldl (fun lens cnt =>
    if isVendor ie wpaOui cnt then ((ie (cnt + 1)).toNat + 2, lens.2)
    else if ie cnt = wpa2IeId then (lens.1, (ie (cnt + 1)).toNat + 2)
    else lens) (0, 0)

/-- `aicwf_get_iwe_stream_wpa_wpa2`. A second text is not where `pbuf` begins. -/
def wpaWpa2 (lens : Nat × Nat) : List Offer :=
  (if lens.1 = 0 then [] else [.point .custom (7 + 2 * lens.1), .point .genie lens.1]) ++
    if lens.2 = 0 then []
    else [.point .custom (if lens.1 = 0 then 7 + 2 * lens.2 else 0), .point .genie lens.2]

/-- `aicwf_get_iwe_stream_wps` -/
def wps (ie : Nat → UInt8) (cnts : List Nat) : List Offer :=
  (cnts.filter fun cnt => isVendor ie wpsOui cnt && 0 < (ie (cnt + 1)).toNat).map fun cnt =>
    .point .genie ((ie (cnt + 1)).toNat + 2)

/-- Which calls of `vmalloc` for an entry succeed -/
structure Memory where
  essid : Bool
  encode : Bool
  pbuf : Bool

/-- What `translate_scan` offers for an entry, if it does not follow NULL -/
def Entry.offers (e : Entry) (memory : Memory) : Option (List Offer) :=
  match e.bss with
  | none => some []
  | some (bss, _) =>
      if e.payload.isSome ∧ memory.essid ∧ memory.encode then
        let ie := fun i => e.bytes (beaconVariable + i)
        let cnts := elements ie e.length e.length 0
        some ([.ap, .point .essid (min (ie 1).toNat 32), .name, .freq] ++
          (if bss.capability &&& 3 ≠ 0 then [.mode] else []) ++ [.point .encode 0, .bitrate] ++
          (if memory.pbuf then wpaWpa2 (aicGetSecIe ie cnts) else []) ++ wps ie cnts ++ [.qual])
      else none

/-- A read: the length of the user's buffer, the `lcp_len` of its events, and the memory there is -/
structure Reading where
  length : Nat
  wide : Bool
  memory : Entry → Memory

structure Stream where
  start : Nat
  data : List (Entry × Offer)

inductive Reply where
  | tooBig
  | data (length : Nat) (data : List (Entry × Offer))

namespace Reading

variable (rd : Reading)

def lcpLen : Nat := if rd.wide then 8 else 4

/-- `iwe_stream_add_event` and `iwe_stream_add_point` -/
def add (e : Entry) (s : Stream) (o : Offer) : Stream :=
  if s.start + o.size rd.lcpLen < rd.length then
    ⟨s.start + o.size rd.lcpLen, s.data ++ [(e, o)]⟩
  else s

def translateScan (e : Entry) (s : Stream) : Option Stream := do
  return (← e.offers (rd.memory e)).foldl (rd.add e) s

/-- The first loop of `aicwf_get_scan`, which gives nothing for `-E2BIG` -/
def fill : List Entry → Stream → Option (Option Stream)
  | [], s => some (some s)
  | e :: rest, s => do
      let s ← rd.translateScan e s
      if rd.length - s.start < 768 then return none
      fill rest s

end Reading

/-- `aicwf_get_scan` -/
def Hw.getScan (hw : Hw) (rd : Reading) : Option (Reply × Hw) := do
  match ← rd.fill hw.list ⟨0, []⟩ with
  | none => return (.tooBig, hw)
  | some s =>
      let freed := (hw.list.flatMap Entry.buffers).map (·, ())
      return (.data s.start s.data, { hw with list := [], buffers := hw.buffers.settles freed })

/-! ## Runs -/

inductive Label where
  | scanuResultInd (r : Result)
  | setScan (c : ScanCall)
  /-- `rwnx_rx_scanu_start_cfm`, at the end of a scan -/
  | scanuStartCfm
  | getScan (rd : Reading)
  /-- `aicwf_set_wireless_ext`, for an interface that is added -/
  | setWirelessExt

namespace Hw

def step (hw : Hw) : Label → Option Hw
  | .scanuResultInd r => hw.scanuResultInd r
  | .setScan c => (hw.setScan c).map Prod.snd
  | .scanuStartCfm => some { hw with wextScan := false }
  | .getScan rd => (hw.getScan rd).map Prod.snd
  | .setWirelessExt => some { hw with list := [] }

/-- When the first interface has been added -/
def start : Hw := ⟨false, [], .empty, .empty⟩

end Hw

/-! ## What is promised -/

/-- What a read that is not too big gives of an entry -/
def Reading.whole (rd : Reading) (e : Entry) : List (Entry × Offer) :=
  ((e.offers (rd.memory e)).getD []).map (e, ·)

namespace Hw

variable (hw : Hw)

/-- No two entries have the same BSSID, each has what is known of its network, and every buffer is
    in one entry of the list or was freed once. -/
structure Tidy : Prop where
  distinct : (hw.list.map Entry.bssid).Nodup
  bss : ∀ e ∈ hw.list, e.bss ≠ none
  buffers : hw.buffers.Accounts (hw.list.flatMap Entry.buffers)

/-- Every reference is that of one entry of the list or was put once. -/
def Released : Prop := hw.refs.Accounts (hw.list.filterMap Entry.ref)

/-- A read that is too big leaves everything as it is, and another one gives each entry once, with
    all that is offered for it, and leaves no entry. -/
def Answered : Label → Prop
  | .getScan rd => ∀ reply next, hw.getScan rd = some (reply, next) →
      match reply with
      | .tooBig => next = hw
      | .data _ data => data = hw.list.flatMap rd.whole ∧ next.list = []
  | _ => True

/-- The step is taken, and leaves the list tidy. -/
def Kept (l : Label) : Prop := hw.Answered l ∧ ∃ next, hw.step l = some next ∧ next.Tidy

/-- So does it, and no reference is lost or put twice. -/
def KeptReleased (l : Label) : Prop :=
  hw.Answered l ∧ ∃ next, hw.step l = some next ∧ next.Tidy ∧ next.Released

end Hw

/-! ## When it is kept -/

namespace Reading

variable (rd : Reading)

/-- How many bytes are offered for these entries -/
def bytes (es : List Entry) : Nat := ((es.flatMap rd.whole).map fun o => o.2.size rd.lcpLen).sum

/-- For each entry that is come to, NULL is not followed. An entry is come to if 768 bytes are left
    behind the one before it. -/
def Readable : Nat → List Entry → Prop
  | _, [] => True
  | start, e :: rest => (e.offers (rd.memory e)).isSome ∧
      (start + rd.bytes [e] + 768 ≤ rd.length → Readable (start + rd.bytes [e]) rest)

end Reading

namespace Hw

variable (hw : Hw)

/-- What is found in a scan is known to `cfg80211`, and there is memory for it if it is new; there
    is memory for the request of a scan; a read follows no NULL; and no interface is added while
    there are entries. -/
def Careful : Label → Prop
  | .scanuResultInd r => hw.wextScan → r.chan → ∃ bss, r.bss = some bss ∧
      (some bss.bssid ∈ hw.list.map Entry.bssid ∨ r.node ∧ r.ind ∧ (r.payload ∨ r.length = 0))
  | .setScan c => ((hw.wextScan ∨ c.scanning) → c.cancel = 0) → c.request
  | .scanuStartCfm => True
  | .getScan rd => rd.Readable 0 hw.list
  | .setWirelessExt => hw.list = []

/-- In addition, no entry is read: there is none, or the buffer does not have 768 bytes more than
    are offered. -/
def CarefulUnread (l : Label) : Prop :=
  hw.Careful l ∧ ∀ rd, l = .getScan rd → hw.list = [] ∨ rd.length < rd.bytes hw.list + 768

end Hw

/-! ## Reading -/

/-- The fuel is enough for the loops over the elements. -/
theorem elements_eq {ie : Nat → UInt8} {length fuel cnt : Nat} (enough : length - cnt ≤ fuel) :
    elements ie length fuel cnt =
      if cnt < length then
        cnt :: elements ie length fuel (cnt + ((ie (cnt + 1)).toNat + 2))
      else [] := by
  induction fuel generalizing cnt with
  | zero => rw [if_neg (by omega), elements]
  | succ fuel ih =>
      rw [elements]
      split
      · rw [ih (by omega)]
        rfl
      · rfl

theorem aicGetSecIe_le (ie : Nat → UInt8) (cnts : List Nat) :
    (aicGetSecIe ie cnts).1 ≤ 257 ∧ (aicGetSecIe ie cnts).2 ≤ 257 := by
  have start : (0, 0).1 ≤ 257 ∧ (0, 0).2 ≤ 257 := ⟨Nat.zero_le _, Nat.zero_le _⟩
  unfold aicGetSecIe
  generalize (0, 0) = lens at start ⊢
  induction cnts generalizing lens with
  | nil => exact start
  | cons cnt cnts ih =>
      rw [List.foldl_cons]
      refine ih _ ?_
      have short := (ie (cnt + 1)).toNat_lt
      split_ifs
      · exact ⟨by omega, start.2⟩
      · exact ⟨start.1, by omega⟩
      · exact start

theorem wpaWpa2_size {lens : Nat × Nat} (short : lens.1 ≤ 257 ∧ lens.2 ≤ 257) {lcpLen : Nat}
    (lcp : lcpLen ≤ 8) : ∀ o ∈ wpaWpa2 lens, o.size lcpLen < 768 := by
  intro o member
  unfold wpaWpa2 at member
  rcases List.mem_append.mp member with member | member
  · split at member
    · cases member
    · simp only [List.mem_cons, List.not_mem_nil, or_false] at member
      rcases member with rfl | rfl
      · simp only [Offer.size]
        omega
      · simp only [Offer.size]
        omega
  · split at member
    · cases member
    · simp only [List.mem_cons, List.not_mem_nil, or_false] at member
      rcases member with rfl | rfl
      · simp only [Offer.size]
        split <;> omega
      · simp only [Offer.size]
        omega

theorem wps_size (ie : Nat → UInt8) (cnts : List Nat) {lcpLen : Nat} (lcp : lcpLen ≤ 8) :
    ∀ o ∈ wps ie cnts, o.size lcpLen < 768 := by
  intro o member
  obtain ⟨cnt, -, rfl⟩ := List.mem_map.mp member
  have short := (ie (cnt + 1)).toNat_lt
  simp only [Offer.size]
  omega

/-- Nothing that is offered is longer than what has to be left behind an entry. -/
theorem offers_size {e : Entry} {memory : Memory} {os : List Offer}
    (offered : e.offers memory = some os) {lcpLen : Nat} (lcp : lcpLen ≤ 8) :
    ∀ o ∈ os, o.size lcpLen < 768 := by
  unfold Entry.offers at offered
  split at offered
  · obtain rfl := Option.some.inj offered
    exact fun o none' => absurd none' List.not_mem_nil
  · split at offered
    · obtain rfl := Option.some.inj offered
      intro o member
      simp only [List.mem_append, List.mem_cons, List.not_mem_nil, or_false] at member
      rcases member with ((((member | member) | member) | member) | member) | rfl
      · rcases member with rfl | rfl | rfl | rfl <;> simp only [Offer.size] <;> omega
      · split at member
        · rw [List.mem_singleton] at member
          subst member
          simp only [Offer.size]
          omega
        · cases member
      · rcases member with rfl | rfl <;> simp only [Offer.size] <;> omega
      · split at member
        · exact wpaWpa2_size (aicGetSecIe_le _ _) lcp o member
        · cases member
      · exact wps_size _ _ lcp o member
      · simp only [Offer.size]
        omega
    · cases offered

namespace Reading

variable {rd : Reading} {e : Entry} {es : List Entry} {s : Stream} {os : List Offer}

theorem lcpLen_le (rd : Reading) : rd.lcpLen ≤ 8 := by
  unfold lcpLen
  split <;> decide

theorem start_le_add (e : Entry) (s : Stream) (o : Offer) : s.start ≤ (rd.add e s o).start := by
  unfold add
  split
  · exact Nat.le_add_right _ _
  · exact Nat.le_refl _

theorem start_le_foldl (e : Entry) (os : List Offer) (s : Stream) :
    s.start ≤ (os.foldl (rd.add e) s).start := by
  induction os generalizing s with
  | nil => exact Nat.le_refl _
  | cons o os ih => exact (start_le_add e s o).trans (ih _)

/-- Either all offers are added, with 768 bytes left, or fewer are left. -/
theorem foldl_add (small : ∀ o ∈ os, o.size rd.lcpLen < 768) :
    if s.start + (os.map (Offer.size rd.lcpLen)).sum + 768 ≤ rd.length then
      os.foldl (rd.add e) s =
        ⟨s.start + (os.map (Offer.size rd.lcpLen)).sum, s.data ++ os.map (e, ·)⟩
    else rd.length - (os.foldl (rd.add e) s).start < 768 := by
  induction os generalizing s with
  | nil =>
      split
      · simp
      · rw [List.foldl_nil]
        rename_i few
        rw [List.map_nil, List.sum_nil] at few
        omega
  | cons o os ih =>
      rw [List.foldl_cons, List.map_cons, List.sum_cons, List.map_cons]
      have first := small o List.mem_cons_self
      have rest := @ih (rd.add e s o) fun o member => small o (List.mem_cons_of_mem _ member)
      by_cases room : s.start + o.size rd.lcpLen < rd.length
      · have added : rd.add e s o = ⟨s.start + o.size rd.lcpLen, s.data ++ [(e, o)]⟩ := if_pos room
        rw [added] at rest ⊢
        rw [← Nat.add_assoc]
        simp only [List.append_assoc, List.singleton_append] at rest
        exact rest
      · have left := @start_le_foldl rd e os (rd.add e s o)
        have before := @start_le_add rd e s o
        rw [if_neg (by omega)]
        omega

theorem whole_eq (offered : e.offers (rd.memory e) = some os) : rd.whole e = os.map (e, ·) := by
  rw [whole, offered, Option.getD_some]

theorem bytes_nil : rd.bytes [] = 0 := rfl

theorem bytes_cons : rd.bytes (e :: es) = rd.bytes [e] + rd.bytes es := by
  simp [bytes]

theorem bytes_eq (offered : e.offers (rd.memory e) = some os) :
    rd.bytes [e] = (os.map (Offer.size rd.lcpLen)).sum := by
  rw [bytes, List.flatMap_singleton, whole_eq offered, List.map_map]
  rfl

/-- An entry is translated completely, with 768 bytes left, or fewer are left. -/
theorem translateScan_spec (offered : e.offers (rd.memory e) = some os) :
    ∃ t, rd.translateScan e s = some t ∧
      if s.start + rd.bytes [e] + 768 ≤ rd.length then
        t = ⟨s.start + rd.bytes [e], s.data ++ rd.whole e⟩
      else rd.length - t.start < 768 := by
  refine ⟨os.foldl (rd.add e) s, ?_, ?_⟩
  · rw [translateScan, offered]
    rfl
  · rw [bytes_eq offered, whole_eq offered]
    exact foldl_add (offers_size offered rd.lcpLen_le)

/-- The first loop goes through where no NULL is followed, with all entries if they fit. -/
theorem fill_eq (readable : rd.Readable s.start es) :
    rd.fill es s = some (if es = [] ∨ s.start + rd.bytes es + 768 ≤ rd.length then
      some ⟨s.start + rd.bytes es, s.data ++ es.flatMap rd.whole⟩ else none) := by
  induction es generalizing s with
  | nil => simp [fill, bytes_nil]
  | cons e es ih =>
      obtain ⟨some', behind⟩ := readable
      obtain ⟨os, offered⟩ := Option.isSome_iff_exists.mp some'
      obtain ⟨t, went, result⟩ := translateScan_spec (s := s) offered
      rw [fill, went, bytes_cons]
      simp only [Option.bind_eq_bind, Option.bind_some, List.cons_ne_nil, false_or]
      split at result
      · rename_i room
        subst result
        have left : ¬rd.length - (s.start + rd.bytes [e]) < 768 := by omega
        rw [if_neg left, ih (behind room), List.flatMap_cons]
        simp only [Nat.add_assoc, List.append_assoc] at room ⊢
        by_cases last : es = []
        · subst last
          rw [if_pos (.inl rfl), bytes_nil, if_pos room]
        · simp only [last, false_or]
      · rename_i few
        rw [if_pos result, if_neg (by omega)]
        rfl

theorem readable_of_fill {out : Option Stream} (filled : rd.fill es s = some out) :
    rd.Readable s.start es := by
  induction es generalizing s with
  | nil => trivial
  | cons e es ih =>
      cases offered : e.offers (rd.memory e) with
      | none =>
          rw [fill, translateScan, offered] at filled
          cases filled
      | some os =>
          refine ⟨by rw [offered]; rfl, fun room => ?_⟩
          obtain ⟨t, went, result⟩ := translateScan_spec (s := s) offered
          rw [if_pos room] at result
          subst result
          have left : ¬rd.length - (s.start + rd.bytes [e]) < 768 := by omega
          rw [fill, went] at filled
          simp only [Option.bind_eq_bind, Option.bind_some, left, if_false] at filled
          exact ih filled

end Reading

/-! ## The steps -/

namespace Hw

variable {hw next : Hw} {rd : Reading} {reply : Reply} {l : Label}

/-- A read either finds the buffer too small, or gives everything and frees it. -/
theorem getScan_eq (readable : rd.Readable 0 hw.list) :
    hw.getScan rd = some (if hw.list = [] ∨ rd.bytes hw.list + 768 ≤ rd.length then
      (.data (rd.bytes hw.list) (hw.list.flatMap rd.whole),
        { hw with
          list := []
          buffers := hw.buffers.settles ((hw.list.flatMap Entry.buffers).map (·, ())) })
      else (.tooBig, hw)) := by
  rw [getScan, Reading.fill_eq (s := ⟨0, []⟩) readable]
  simp only [Option.bind_eq_bind, Option.bind_some, Nat.zero_add, List.nil_append]
  split_ifs <;> rfl

theorem readable_of_getScan {out : Reply × Hw} (read : hw.getScan rd = some out) :
    rd.Readable 0 hw.list := by
  obtain ⟨filled, went, -⟩ := Option.bind_eq_some_iff.mp read
  exact Reading.readable_of_fill (s := ⟨0, []⟩) went

theorem answered (hw : Hw) (l : Label) : hw.Answered l := by
  cases l with
  | getScan rd =>
      intro reply next read
      rw [getScan_eq (readable_of_getScan read), Option.some.injEq] at read
      split at read
      · cases read
        exact ⟨rfl, rfl⟩
      · cases read
        rfl
  | scanuResultInd | setScan | scanuStartCfm | setWirelessExt => trivial

/-! ### Results -/

theorem alreadyExists_some {bss : Bss} {es : List Entry} (known : ∀ e ∈ es, e.bss ≠ none) :
    alreadyExists (some bss) es = some (decide (some bss.bssid ∈ es.map Entry.bssid)) := by
  induction es with
  | nil => rfl
  | cons e es ih =>
      obtain ⟨b, there⟩ := Option.ne_none_iff_exists'.mp (known e List.mem_cons_self)
      rw [alreadyExists, ih fun e member => known e (List.mem_cons_of_mem _ member), there]
      simp only [Option.bind_eq_bind, Option.bind_some, List.map_cons, List.mem_cons,
        Entry.bssid, there, Option.map_some, Option.some.injEq]
      by_cases same : b.1.bssid = bss.bssid
      · simp [same]
      · simp [same, Ne.symm same]

theorem alreadyExists_none {e : Entry} {es : List Entry} : alreadyExists none (e :: es) = none := by
  rw [alreadyExists]
  cases e.bss <;> rfl

/-- What is kept of a new network -/
theorem keep_spec (tidy : hw.Tidy) {r : Result} {bss : Bss} {ref : Nat}
    (fresh : some bss.bssid ∉ hw.list.map Entry.bssid) :
    if r.node ∧ r.ind ∧ (r.payload ∨ r.length = 0) then
      ∃ next, hw.keep r (some (bss, ref)) = some next ∧ next.Tidy ∧ next.refs = hw.refs ∧
        next.list.filterMap Entry.ref = hw.list.filterMap Entry.ref ++ [ref]
    else hw.keep r (some (bss, ref)) = none := by
  split
  · rename_i memory
    rw [keep, if_pos memory]
    refine ⟨_, rfl, ?_, rfl, ?_⟩
    · constructor
      · rw [List.map_append, List.nodup_append]
        refine ⟨tidy.distinct, List.nodup_singleton _, fun a old b new => ?_⟩
        rw [List.map_singleton, List.mem_singleton] at new
        rintro rfl
        rw [new] at old
        exact fresh old
      · intro e member
        rcases List.mem_append.mp member with old | new
        · exact tidy.bss e old
        · rw [List.mem_singleton] at new
          subst new
          exact Option.some_ne_none _
      · rw [List.flatMap_append, List.flatMap_singleton]
        refine (tidy.buffers.issues _).perm (List.perm_append_comm.trans (.append_left _ ?_))
        unfold Entry.buffers
        split
        · exact .swap _ _ _
        · exact (List.reverse_perm [_, _, _]).symm
    · rw [List.filterMap_append]
      rfl
  · rename_i memory
    exact if_neg memory

theorem scanuResultInd_some {r : Result} {bss : Bss} (known : r.bss = some bss) :
    hw.scanuResultInd r =
      let informed : Hw := { hw with refs := hw.refs.issue }
      if r.chan then
        if hw.wextScan then
          match alreadyExists (some bss) hw.list with
          | none => none
          | some true => some (informed.putBss (some (bss, hw.refs.issued)))
          | some false => informed.keep r (some (bss, hw.refs.issued))
        else some (informed.putBss (some (bss, hw.refs.issued)))
      else some hw := by
  rw [scanuResultInd, known]
  rfl

/-- A reference that is taken and put at once -/
theorem released_put (released : hw.Released) (bss : Bss) :
    ((hw.inform (some bss)).2.putBss (some (bss, hw.refs.issued))).Released :=
  released.issue.settle ()

/-- A result whose network is known is put, or kept with its reference. -/
theorem scanuResultInd_known (tidy : hw.Tidy) {r : Result} {bss : Bss} (known : r.bss = some bss)
    (memory : hw.wextScan → r.chan → some bss.bssid ∈ hw.list.map Entry.bssid ∨
      r.node ∧ r.ind ∧ (r.payload ∨ r.length = 0)) :
    ∃ next, hw.scanuResultInd r = some next ∧ next.Tidy ∧ (hw.Released → next.Released) := by
  have put : ({ hw with refs := hw.refs.issue }.putBss (some (bss, hw.refs.issued))).Tidy :=
    ⟨tidy.distinct, tidy.bss, tidy.buffers⟩
  rw [scanuResultInd_some known]
  by_cases chan : r.chan = true
  · rw [if_pos chan]
    by_cases scan : hw.wextScan = true
    · rw [if_pos scan, alreadyExists_some tidy.bss]
      by_cases old : some bss.bssid ∈ hw.list.map Entry.bssid
      · rw [decide_eq_true old]
        exact ⟨_, rfl, put, fun released => released_put released bss⟩
      · rw [decide_eq_false old]
        have informed : ({ hw with refs := hw.refs.issue } : Hw).Tidy :=
          ⟨tidy.distinct, tidy.bss, tidy.buffers⟩
        have kept := @keep_spec _ informed r bss hw.refs.issued old
        rw [if_pos ((memory scan chan).resolve_left old)] at kept
        obtain ⟨next, went, tidy', refs, held⟩ := kept
        refine ⟨next, went, tidy', fun released => ?_⟩
        rw [Released, refs, held]
        exact (Ledger.Accounts.issue released).perm (List.perm_append_singleton _ _).symm
    · rw [if_neg scan]
      exact ⟨_, rfl, put, fun released => released_put released bss⟩
  · rw [if_neg chan]
    exact ⟨hw, rfl, tidy, id⟩

/-- A result whose network is not known is no entry, and is not compared with one. -/
theorem known_of_scanuResultInd {r : Result} (scan : hw.wextScan) (chan : r.chan)
    (taken : hw.scanuResultInd r = some next) (tidy : next.Tidy) : r.bss ≠ none := by
  intro unknown
  rw [scanuResultInd, if_pos chan, unknown] at taken
  simp only [inform, scan, if_true] at taken
  cases entries : hw.list with
  | cons e es =>
      rw [entries, alreadyExists_none] at taken
      cases taken
  | nil =>
      simp only [entries, alreadyExists, keep] at taken
      split at taken
      · obtain rfl := Option.some.inj taken
        exact tidy.bss _ (List.mem_append_right _ (List.mem_singleton_self _)) rfl
      · cases taken

theorem memory_of_scanuResultInd (tidy : hw.Tidy) {r : Result} {bss : Bss}
    (known : r.bss = some bss) (scan : hw.wextScan) (chan : r.chan)
    (taken : hw.scanuResultInd r = some next) :
    some bss.bssid ∈ hw.list.map Entry.bssid ∨ r.node ∧ r.ind ∧ (r.payload ∨ r.length = 0) := by
  by_contra poor
  obtain ⟨new, poor⟩ := not_or.mp poor
  rw [scanuResultInd_some known, if_pos chan, if_pos scan, alreadyExists_some tidy.bss,
    decide_eq_false new] at taken
  have informed : ({ hw with refs := hw.refs.issue } : Hw).Tidy :=
    ⟨tidy.distinct, tidy.bss, tidy.buffers⟩
  have kept := @keep_spec _ informed r bss hw.refs.issued new
  rw [if_neg poor] at kept
  cases kept.symm.trans taken

/-! ### All steps -/

theorem careful_scanuResultInd (tidy : hw.Tidy) {r : Result}
    (careful : hw.Careful (.scanuResultInd r)) :
    ∃ next, hw.scanuResultInd r = some next ∧ next.Tidy ∧ (hw.Released → next.Released) := by
  cases known : r.bss with
  | some bss =>
      refine scanuResultInd_known tidy known fun scan chan => ?_
      obtain ⟨bss', known', memory⟩ := careful scan chan
      obtain rfl := Option.some.inj (known.symm.trans known')
      exact memory
  | none =>
      refine ⟨hw, ?_, tidy, id⟩
      rw [scanuResultInd, known]
      by_cases chan : r.chan = true
      · have idle : ¬hw.wextScan = true := by
          intro scan
          obtain ⟨bss, known', -⟩ := careful scan chan
          cases known.symm.trans known'
        rw [if_pos chan]
        exact if_neg idle
      · exact if_neg chan

theorem setScan_isSome {c : ScanCall} :
    (hw.setScan c).isSome ↔ hw.Careful (.setScan c) := by
  unfold setScan
  change _ ↔ ((hw.wextScan = true ∨ c.scanning = true → c.cancel = 0) → c.request = true)
  by_cases busy : (hw.wextScan = true ∨ c.scanning = true) ∧ c.cancel ≠ 0
  · rw [if_pos busy]
    exact iff_of_true rfl fun proceeds => absurd (proceeds busy.1) busy.2
  · rw [if_neg busy, forall_prop_of_true fun scan => not_not.mp fun cancel => busy ⟨scan, cancel⟩]
    split
    · rename_i request
      refine iff_of_true ?_ request
      split <;> rfl
    · rename_i request
      exact iff_of_false Bool.false_ne_true request

theorem setScan_same {c : ScanCall} {ret : Int} (taken : hw.setScan c = some (ret, next)) :
    next.list = hw.list ∧ next.buffers = hw.buffers ∧ next.refs = hw.refs := by
  unfold setScan at taken
  split_ifs at taken
  all_goals
    cases taken
    exact ⟨rfl, rfl, rfl⟩

theorem Tidy.of_same (tidy : hw.Tidy) (list : next.list = hw.list)
    (buffers : next.buffers = hw.buffers) : next.Tidy :=
  ⟨list ▸ tidy.distinct, list ▸ tidy.bss, list ▸ buffers ▸ tidy.buffers⟩

/-- A list whose entries were all freed is tidy. -/
theorem Tidy.freed (tidy : hw.Tidy) : Tidy { hw with
    list := []
    buffers := hw.buffers.settles ((hw.list.flatMap Entry.buffers).map (·, ())) } := by
  refine ⟨List.nodup_nil, fun _ none' => absurd none' List.not_mem_nil, ?_⟩
  refine Ledger.Accounts.settles ?_
  rw [List.map_map, List.flatMap_nil, List.append_nil]
  exact (List.map_id _).symm ▸ tidy.buffers

/-- What is left behind by a list that is forgotten -/
theorem Tidy.nothing_forgotten (tidy : hw.Tidy) (forgotten : Tidy { hw with list := [] }) :
    hw.list = [] := by
  have held := tidy.buffers.length
  have left : 0 + hw.buffers.settled.length = hw.buffers.issued := forgotten.buffers.length
  cases entries : hw.list with
  | nil => rfl
  | cons e es =>
      rw [entries, List.flatMap_cons, List.length_append, Entry.buffers, List.length_append] at held
      simp only [List.length_cons, List.length_nil] at held
      omega

theorem step_tidy (tidy : hw.Tidy) (careful : hw.Careful l) :
    ∃ next, hw.step l = some next ∧ next.Tidy := by
  cases l with
  | scanuResultInd r =>
      obtain ⟨next, taken, tidy', -⟩ := careful_scanuResultInd tidy careful
      exact ⟨next, taken, tidy'⟩
  | setScan c =>
      obtain ⟨⟨ret, next⟩, taken⟩ := Option.isSome_iff_exists.mp (setScan_isSome.mpr careful)
      obtain ⟨list, buffers, -⟩ := setScan_same taken
      exact ⟨next, by rw [step, taken, Option.map_some], tidy.of_same list buffers⟩
  | scanuStartCfm => exact ⟨_, rfl, tidy.of_same rfl rfl⟩
  | getScan rd =>
      rw [step, getScan_eq careful, Option.map_some]
      refine ⟨_, rfl, ?_⟩
      split
      · exact tidy.freed
      · exact tidy
  | setWirelessExt =>
      have empty : hw.list = [] := careful
      exact ⟨_, rfl, tidy.of_same empty.symm rfl⟩

theorem careful_of_step (tidy : hw.Tidy) (taken : hw.step l = some next) (tidy' : next.Tidy) :
    hw.Careful l := by
  cases l with
  | scanuResultInd r =>
      intro scan chan
      obtain ⟨bss, known⟩ :=
        Option.ne_none_iff_exists'.mp (known_of_scanuResultInd scan chan taken tidy')
      exact ⟨bss, known, memory_of_scanuResultInd tidy known scan chan taken⟩
  | setScan c =>
      obtain ⟨out, went, -⟩ := Option.map_eq_some_iff.mp taken
      exact setScan_isSome.mp (Option.isSome_iff_exists.mpr ⟨out, went⟩)
  | scanuStartCfm => trivial
  | getScan rd =>
      obtain ⟨out, read, -⟩ := Option.map_eq_some_iff.mp taken
      exact readable_of_getScan read
  | setWirelessExt =>
      obtain rfl := Option.some.inj taken
      exact tidy.nothing_forgotten tidy'

theorem kept_iff (tidy : hw.Tidy) : hw.Kept l ↔ hw.Careful l := by
  constructor
  · rintro ⟨-, next, taken, tidy'⟩
    exact careful_of_step tidy taken tidy'
  · intro careful
    exact ⟨hw.answered l, step_tidy tidy careful⟩

/-! ### References -/

theorem ref_ne_none (tidy : hw.Tidy) : hw.list.filterMap Entry.ref = [] ↔ hw.list = [] := by
  constructor
  · intro none'
    cases entries : hw.list with
    | nil => rfl
    | cons e es =>
        rw [List.filterMap_eq_nil_iff] at none'
        have first := none' e (entries ▸ List.mem_cons_self)
        exact absurd (Option.map_eq_none_iff.mp first) (tidy.bss e (entries ▸ List.mem_cons_self))
  · intro empty
    rw [empty]
    rfl

/-- References of entries that are taken from the list without being put are lost. -/
theorem released_nil (tidy : hw.Tidy) (released : hw.Released) :
    hw.refs.Accounts [] ↔ hw.list = [] := by
  rw [← ref_ne_none tidy]
  constructor
  · intro none'
    have held := released.length
    have left : 0 + hw.refs.settled.length = hw.refs.issued := none'.length
    exact List.eq_nil_of_length_eq_zero (by omega)
  · intro empty
    exact empty ▸ released

theorem step_released (tidy : hw.Tidy) (released : hw.Released) (careful : hw.Careful l)
    (taken : hw.step l = some next) :
    next.Released ↔
      ∀ rd, l = .getScan rd → hw.list = [] ∨ rd.length < rd.bytes hw.list + 768 := by
  cases l with
  | scanuResultInd r =>
      obtain ⟨next', taken', -, keeps⟩ := careful_scanuResultInd tidy careful
      obtain rfl := Option.some.inj (taken.symm.trans taken')
      exact iff_of_true (keeps released) nofun
  | setScan c =>
      obtain ⟨⟨ret, next'⟩, went, rfl⟩ := Option.map_eq_some_iff.mp taken
      obtain ⟨list, -, refs⟩ := setScan_same went
      refine iff_of_true ?_ nofun
      rw [Released, list, refs]
      exact released
  | scanuStartCfm =>
      obtain rfl := Option.some.inj taken
      exact iff_of_true released nofun
  | getScan rd =>
      rw [step, getScan_eq careful, Option.map_some, Option.some.injEq] at taken
      have read : (∀ rd', Label.getScan rd = .getScan rd' →
          hw.list = [] ∨ rd'.length < rd'.bytes hw.list + 768) ↔
            hw.list = [] ∨ rd.length < rd.bytes hw.list + 768 :=
        ⟨fun all => all rd rfl, fun small rd' same => by cases same; exact small⟩
      rw [read]
      split at taken
      · rename_i fits
        subst taken
        refine (released_nil tidy released).trans ⟨.inl, fun unread => ?_⟩
        rcases unread with empty | small
        · exact empty
        · exact fits.resolve_right (Nat.not_le.mpr small)
      · rename_i small
        subst taken
        exact iff_of_true released (.inr (Nat.not_le.mp (not_or.mp small).2))
  | setWirelessExt =>
      obtain rfl := Option.some.inj taken
      have empty : hw.list = [] := careful
      refine iff_of_true ?_ nofun
      exact (released_nil tidy released).mpr empty

theorem keptReleased_iff (tidy : hw.Tidy) (released : hw.Released) :
    hw.KeptReleased l ↔ hw.CarefulUnread l := by
  constructor
  · rintro ⟨-, next, taken, tidy', released'⟩
    have careful := careful_of_step tidy taken tidy'
    exact ⟨careful, (step_released tidy released careful taken).mp released'⟩
  · rintro ⟨careful, unread⟩
    obtain ⟨next, taken, tidy'⟩ := step_tidy tidy careful
    exact ⟨hw.answered l, next, taken, tidy',
      (step_released tidy released careful taken).mpr unread⟩

theorem start_tidy : start.Tidy :=
  ⟨List.nodup_nil, fun _ none' => absurd none' List.not_mem_nil, .empty⟩

theorem start_released : start.Released := .empty

end Hw

/-- In a run, all steps keep the list if and only if they are careful; and so for the references,
    if and only if no entry is read either. -/
theorem results_kept_iff (ls : List Label) :
    (Along Hw.step Hw.Kept .start ls ↔ Along Hw.step Hw.Careful .start ls) ∧
      (Along Hw.step Hw.KeptReleased .start ls ↔ Along Hw.step Hw.CarefulUnread .start ls) := by
  constructor
  · refine along_iff Hw.Tidy (fun _ _ => Hw.kept_iff) ?_ ls Hw.start_tidy
    rintro hw l next - ⟨-, next', taken', tidy⟩ taken
    obtain rfl := Option.some.inj (taken.symm.trans taken')
    exact tidy
  · refine along_iff (fun hw => hw.Tidy ∧ hw.Released)
      (fun hw l good => Hw.keptReleased_iff good.1 good.2) ?_ ls ⟨Hw.start_tidy, Hw.start_released⟩
    rintro hw l next - ⟨-, next', taken', good⟩ taken
    obtain rfl := Option.some.inj (taken.symm.trans taken')
    exact good

/-! ## Results that are lost -/

/-- A scan that finds a network with a frame of 60 zeros -/
def oneFound : List Label :=
  [.setScan ⟨false, 0, true, false, true, 0⟩,
    .scanuResultInd ⟨true, some ⟨[0, 1, 2, 3, 4, 5], 1⟩, true, true, true, 60, fun _ => 0⟩]

/-- A read with room for everything -/
def bigRead : Reading := ⟨4096, true, fun _ => ⟨true, true, true⟩⟩

/-- The reference of an entry that is read is not put, and the entries there are when an interface
    is added are neither read nor freed. -/
theorem results_lost :
    (¬∀ ls, Along Hw.step Hw.KeptReleased .start ls) ∧ ¬∀ ls, Along Hw.step Hw.Kept .start ls := by
  constructor
  · intro all
    obtain ⟨-, behind⟩ := all (oneFound ++ [.getScan bigRead])
    obtain ⟨⟨-, hw, found, tidy, released⟩, behind⟩ := behind _ rfl
    obtain ⟨read, -⟩ := behind _ rfl
    obtain rfl := Option.some.inj found
    rcases ((Hw.keptReleased_iff tidy released).mp read).2 bigRead rfl with empty | small
    · cases empty
    · exact absurd small (by decide)
  · intro all
    obtain ⟨-, behind⟩ := all (oneFound ++ [.setWirelessExt])
    obtain ⟨⟨-, hw, found, tidy⟩, behind⟩ := behind _ rfl
    obtain ⟨added, -⟩ := behind _ rfl
    obtain rfl := Option.some.inj found
    cases (Hw.kept_iff tidy).mp added

end Aic8800.Wext.ResultList
