import Mathlib
import Aic8800.Lib.Run

/-! # The scan requests

A scan request comes from cfg80211, which wants it back through `cfg80211_scan_done`, or
is made by `aicwf_set_scan` for the wireless extensions. `scan_request` points to
either, and is read, reported and cleared by the handler of the done indication,
by `rwnx_close` and by the end of the P2P device. Calls are steps; the wireless
extensions sleep after they have cancelled a scan, and publish their request only
after they have sent it, so that their call is three.
-/

namespace Aic8800.Cfg.Scan

open Lib

/-- A scan request, with the interface in its `wdev`. In a request of the wireless
    extensions that field is what `vmalloc` has found there. -/
structure Request where
  id : Nat
  wdev : Nat
  wext : Bool
  deriving DecidableEq

/-- What comes of `rwnx_send_scanu_req`: its message is not allocated; or `scanning` is set,
    and it returns `ret`, and the firmware has accepted the scan or not. With the bus
    down it returns 0, and nothing is sent. -/
inductive Sent where
  | unallocated
  | sent (ret : Int) (accepted : Bool)
  deriving DecidableEq

/-- Where the call of `aicwf_set_scan` is, if there is one. -/
inductive WextPoint where
  | idle
  | cancelled
  | published (r : Request)
  deriving DecidableEq

structure Hw where
  scanRequest : Option Request
  scanning : Bool
  wextScan : Bool
  wext : WextPoint
  /-- The number of the next request. -/
  next : Nat
  /-- Requests of cfg80211 whose scan has returned 0, and an error. -/
  returned : List Nat
  failed : List Nat
  /-- Calls of `cfg80211_scan_done`. -/
  reported : List Nat
  /-- Requests that a pointer in `scan_request` was followed to. -/
  touched : List Nat
  /-- Scans that the firmware has accepted and that are not reported done. -/
  unreported : List Request
  deriving DecidableEq

/-- What happens. `busy` stands for the test mode, a connection that is being set up and
    external authentication. -/
inductive Event where
  | scan (wdev : Nat) (busy : Bool) (sent : Sent)
  | wextCancel (ret : Int)
  | wextSend (wdev : Nat) (ssids : Bool) (sent : Sent)
  | wextPublish
  | close (wdev : Nat)
  | stopP2p (wdev : Nat)
  | changeIface (wdev : Nat) (up : Bool)
  | scanDone
  deriving DecidableEq

def Sent.failed : Sent → Bool
  | .unallocated => true
  | .sent ret _ => ret != 0

namespace Hw

variable (s : Hw)

/-- The part of `rwnx_send_scanu_req` that concerns this state. -/
def sendScanuReq (r : Request) : Sent → Hw
  | .unallocated => s
  | .sent _ accepted =>
      { s with scanning := true, unreported := if accepted then r :: s.unreported else s.unreported }

/-- `rwnx_cfg80211_scan` -/
def rwnxCfg80211Scan (wdev : Nat) (busy : Bool) (sent : Sent) : Hw :=
  let r : Request := ⟨s.next, wdev, false⟩
  let s := { s with next := s.next + 1 }
  if busy || s.scanning then { s with failed := r.id :: s.failed }
  else
    let s := { s with scanRequest := some r }.sendScanuReq r sent
    if sent.failed then { s with failed := r.id :: s.failed }
    else { s with returned := r.id :: s.returned }

/-- `aicwf_set_scan` up to its sleep. -/
def wextCancel (ret : Int) : Hw :=
  if (s.wextScan || s.scanning) && ret != 0 then s else { s with wext := .cancelled }

/-- `aicwf_set_scan` up to the send; `ssids` tells whether memory for the SSIDs was found. -/
def wextSend (wdev : Nat) (ssids : Bool) (sent : Sent) : Hw :=
  let r : Request := ⟨s.next, wdev, true⟩
  let s := { s with next := s.next + 1, wextScan := true }
  if ssids then
    let s := s.sendScanuReq r sent
    { s with wext := if sent.failed then .idle else .published r }
  else { s with wext := .idle }

/-- `cfg80211_scan_done` -/
def scanDone (r : Request) : Hw :=
  { s with reported := r.id :: s.reported, unreported := s.unreported.erase r }

def touch (r : Request) : Hw := { s with touched := r.id :: s.touched }

/-- A scan request of the interface is aborted. -/
def abort (wdev : Nat) : Hw :=
  match s.scanRequest with
  | none => s
  | some r =>
      let s := s.touch r
      if r.wdev = wdev then { s.scanDone r with scanRequest := none } else s

/-- `rwnx_close`, as far as scans are concerned. -/
def rwnxClose (wdev : Nat) : Hw := { s with scanning := false }.abort wdev

/-- `rwnx_cfgp2p_stop_p2p_device` -/
def rwnxCfgp2pStopP2pDevice (wdev : Nat) : Hw := s.abort wdev

/-- `rwnx_cfg80211_change_iface` only looks whether it should cancel the scan. -/
def rwnxCfg80211ChangeIface (up : Bool) : Hw :=
  match s.scanRequest with
  | none => s
  | some r => if up then s.touch r else s

/-- `rwnx_rx_scanu_start_cfm`. A scan of the wireless extensions is completed, and its
    request freed. -/
def rwnxRxScanuStartCfm : Hw :=
  let s :=
    match s.scanRequest with
    | none => s
    | some r => if s.wextScan then s.touch r else (s.touch r).scanDone r
  { s with
    scanRequest := none, scanning := false, wextScan := false
    unreported := if s.wextScan then s.unreported.filter fun r => !r.wext else s.unreported }

def step (e : Event) : Option Hw :=
  match e with
  | .scan wdev busy sent => some (s.rwnxCfg80211Scan wdev busy sent)
  | .wextCancel ret => if s.wext = .idle then some (s.wextCancel ret) else none
  | .wextSend wdev ssids sent =>
      if s.wext = .cancelled then some (s.wextSend wdev ssids sent) else none
  | .wextPublish =>
      match s.wext with
      | .published r => some { s with scanRequest := some r, wext := .idle }
      | _ => none
  | .close wdev => some (s.rwnxClose wdev)
  | .stopP2p wdev => some (s.rwnxCfgp2pStopP2pDevice wdev)
  | .changeIface _ up => some (s.rwnxCfg80211ChangeIface up)
  | .scanDone => some s.rwnxRxScanuStartCfm

end Hw

def init : Hw where
  scanRequest := none
  scanning := false
  wextScan := false
  wext := .idle
  next := 0
  returned := []
  failed := []
  reported := []
  touched := []
  unreported := []

/-- Requests are reported once, if their scan returned 0, and are otherwise left alone, and
    `scanning` says whether the firmware scans. -/
structure Sound (s : Hw) : Prop where
  once : ∀ id ∈ s.returned, s.reported.count id = 1 ∨
    s.reported.count id = 0 ∧ ∃ r, s.scanRequest = some r ∧ r.id = id
  only : ∀ id ∈ s.reported, id ∈ s.returned
  untouched : ∀ id ∈ s.failed, id ∉ s.touched ∧ id ∉ s.reported
  scanning : s.scanning = true ↔ s.unreported ≠ []

/-- The pointer leads to a request of cfg80211 that is to be reported. -/
def Hw.Pending (s : Hw) (r : Request) : Prop :=
  r.wext = false ∧ r ∈ s.unreported ∧ r.id ∉ s.failed

/-- The steps that keep the requests sound.
    - What sets `scanning` is accepted by the firmware.
    - A request of the wireless extensions does not take the place of one of cfg80211.
    - When an interface is closed while a scan runs, it is its scan, and a request that is
      found then was not refused, and is reported only if it is pending.
    - The P2P device ends, or an interface changes its type, when `scan_request` points to no
      request that was refused, and to none of the P2P device.
    - When the done indication comes, the request is pending, or, for the wireless
      extensions, one of theirs. -/
def Kept (s : Hw) : Event → Prop
  | .scan _ busy sent =>
      (busy || s.scanning) = true ∨ ∀ ret accepted, sent = .sent ret accepted → accepted = true
  | .wextCancel _ => True
  | .wextSend _ ssids sent =>
      ssids = true → ∀ ret accepted, sent = .sent ret accepted → accepted = true
  | .wextPublish => ∀ r ∈ s.unreported, r.wext = true
  | .close wdev =>
      (s.scanning = true → ∃ r ∈ s.scanRequest, r.wdev = wdev ∧ s.unreported = [r]) ∧
        ∀ r ∈ s.scanRequest, r.id ∉ s.failed ∧ (r.wdev = wdev → s.Pending r)
  | .stopP2p wdev => ∀ r ∈ s.scanRequest, r.id ∉ s.failed ∧ r.wdev ≠ wdev
  | .changeIface _ up => up = true → ∀ r ∈ s.scanRequest, r.id ∉ s.failed
  | .scanDone => ∀ r ∈ s.scanRequest, if s.wextScan then r.wext = true else s.Pending r

structure Inv (s : Hw) : Prop where
  nodup : s.reported.Nodup
  only : ∀ id ∈ s.reported, id ∈ s.returned
  waits : ∀ id ∈ s.returned, id ∈ s.reported ∨ ∃ r ∈ s.unreported, r.id = id ∧ r.wext = false
  cfg : ∀ r ∈ s.unreported, r.wext = false →
    s.scanRequest = some r ∧ r.id ∉ s.reported ∧ (r.id ∈ s.returned ∨ r.id ∈ s.failed)
  wext : ∀ r ∈ s.unreported, r.wext = true → s.wextScan = true
  distinct : s.unreported.Nodup
  untouched : ∀ id ∈ s.failed, id ∉ s.touched
  apart : ∀ id ∈ s.failed, id ∉ s.returned
  scanning : s.scanning = true ↔ s.unreported ≠ []
  call : ∀ r, s.wext = .published r → r.wext = true ∧ r.id ∉ s.failed
  /-- Requests are numbered as they come. -/
  fresh : (∀ id ∈ s.returned, id < s.next) ∧ (∀ id ∈ s.failed, id < s.next) ∧
    (∀ id ∈ s.touched, id < s.next) ∧ (∀ r ∈ s.unreported, r.id < s.next) ∧
      (∀ r ∈ s.scanRequest, r.id < s.next) ∧ ∀ r, s.wext = .published r → r.id < s.next
  foreign : ∀ r ∈ s.scanRequest, r.wext = true → r.id ∉ s.failed

theorem Inv.sound {s : Hw} (h : Inv s) : Sound s where
  once := by
    intro id member
    by_cases done : id ∈ s.reported
    · exact .inl (List.count_eq_one_of_mem h.nodup done)
    · obtain ⟨r, waits, rfl, cfg⟩ := (h.waits id member).resolve_left done
      exact .inr ⟨List.count_eq_zero.mpr done, r, (h.cfg r waits cfg).1, rfl⟩
  only := h.only
  untouched := fun id member =>
    ⟨h.untouched id member, fun done => h.apart id member (h.only id done)⟩
  scanning := h.scanning

section Steps

variable {s : Hw}

/-- A number that was not given out yet. -/
theorem Inv.unused (h : Inv s) :
    s.next ∉ s.returned ∧ s.next ∉ s.failed ∧ s.next ∉ s.touched ∧ s.next ∉ s.reported := by
  obtain ⟨returned, failed, touched, -⟩ := h.fresh
  refine ⟨fun member => ?_, fun member => ?_, fun member => ?_, fun member => ?_⟩
  · exact Nat.lt_irrefl _ (returned _ member)
  · exact Nat.lt_irrefl _ (failed _ member)
  · exact Nat.lt_irrefl _ (touched _ member)
  · exact Nat.lt_irrefl _ (returned _ (h.only _ member))

/-- A number is given out, and nothing has it yet. -/
theorem Inv.number (h : Inv s) : Inv { s with next := s.next + 1 } := by
  obtain ⟨returned, failed, touched, unreported, request, published⟩ := h.fresh
  refine { h with fresh := ⟨?_, ?_, ?_, ?_, ?_, ?_⟩ }
  · exact fun id member => Nat.lt_succ_of_lt (returned id member)
  · exact fun id member => Nat.lt_succ_of_lt (failed id member)
  · exact fun id member => Nat.lt_succ_of_lt (touched id member)
  · exact fun r member => Nat.lt_succ_of_lt (unreported r member)
  · exact fun r there => Nat.lt_succ_of_lt (request r there)
  · exact fun r there => Nat.lt_succ_of_lt (published r there)

/-- A scan that is refused, before its request was kept anywhere. -/
theorem Inv.refuse (h : Inv s) : Inv { s with next := s.next + 1, failed := s.next :: s.failed } := by
  obtain ⟨notReturned, notFailed, notTouched, -⟩ := h.unused
  obtain ⟨returned, failed, touched, unreported, request, published⟩ := h.number.fresh
  have later : ∀ {id : Nat}, id < s.next → id ∉ s.failed → id ∉ s.next :: s.failed := by
    intro id before notFailed member
    rcases List.mem_cons.mp member with rfl | earlier
    · exact Nat.lt_irrefl _ before
    · exact notFailed earlier
  refine { h.number with
    cfg := ?_, untouched := ?_, apart := ?_, call := ?_, foreign := ?_
    fresh := ⟨returned, ?_, touched, unreported, request, published⟩ }
  · intro r member cfg
    obtain ⟨there, silent, told⟩ := h.cfg r member cfg
    exact ⟨there, silent, told.imp_right fun failed => List.mem_cons_of_mem _ failed⟩
  · intro id member
    rcases List.mem_cons.mp member with rfl | earlier
    · exact notTouched
    · exact h.untouched id earlier
  · intro id member
    rcases List.mem_cons.mp member with rfl | earlier
    · exact notReturned
    · exact h.apart id earlier
  · intro r there
    obtain ⟨theirs, fine⟩ := h.call r there
    exact ⟨theirs, later (h.fresh.2.2.2.2.2 r there) fine⟩
  · intro id member
    rcases List.mem_cons.mp member with rfl | earlier
    · exact Nat.lt_succ_self _
    · exact failed id earlier
  · intro r there theirs
    exact later (h.fresh.2.2.2.2.1 r there) (h.foreign r there theirs)

/-- The pointer leads to a request of cfg80211 while no other of them is to be reported. -/
theorem Inv.point (h : Inv s) {r : Request} (cfg : r.wext = false) (old : r.id < s.next)
    (idle : s.unreported = []) : Inv { s with scanRequest := some r } := by
  obtain ⟨returned, failed, touched, unreported, -, published⟩ := h.fresh
  refine { h with
    cfg := ?_, fresh := ⟨returned, failed, touched, unreported, ?_, published⟩, foreign := ?_ }
  · intro r' member
    rw [idle] at member
    cases member
  · intro r' there
    obtain rfl := Option.some.inj there
    exact old
  · intro r' there theirs
    obtain rfl := Option.some.inj there
    cases cfg.symm.trans theirs

/-- The firmware scans for a request that it has accepted. -/
theorem Inv.accept (h : Inv s) {r : Request} (old : r.id < s.next) (fresh : r ∉ s.unreported)
    (cfg : r.wext = false →
      s.scanRequest = some r ∧ r.id ∉ s.reported ∧ (r.id ∈ s.returned ∨ r.id ∈ s.failed))
    (theirs : r.wext = true → s.wextScan = true) :
    Inv { s with scanning := true, unreported := r :: s.unreported } := by
  obtain ⟨returned, failed, touched, unreported, request, published⟩ := h.fresh
  refine { h with
    waits := ?_, cfg := ?_, wext := ?_, distinct := List.nodup_cons.mpr ⟨fresh, h.distinct⟩
    scanning := by simp
    fresh := ⟨returned, failed, touched, ?_, request, published⟩ }
  · intro id member
    rcases h.waits id member with done | ⟨r', waits, its⟩
    · exact .inl done
    · exact .inr ⟨r', List.mem_cons_of_mem _ waits, its⟩
  · intro r' member
    rcases List.mem_cons.mp member with rfl | earlier
    · exact cfg
    · exact h.cfg r' earlier
  · intro r' member
    rcases List.mem_cons.mp member with rfl | earlier
    · exact theirs
    · exact h.wext r' earlier
  · intro r' member
    rcases List.mem_cons.mp member with rfl | earlier
    · exact old
    · exact unreported r' earlier

/-- A scan of cfg80211 that returns 0. -/
theorem Inv.begin (h : Inv s) {wdev : Nat} (idle : s.unreported = []) :
    Inv { s with
      next := s.next + 1, scanRequest := some ⟨s.next, wdev, false⟩, scanning := true
      unreported := ⟨s.next, wdev, false⟩ :: s.unreported, returned := s.next :: s.returned } := by
  obtain ⟨notReturned, notFailed, notTouched, notReported⟩ := h.unused
  obtain ⟨returned, failed, touched, -, -, published⟩ := h.number.fresh
  have none : ∀ {r : Request}, r ∉ s.unreported := by simp [idle]
  refine { h.number with
    only := ?_, waits := ?_, cfg := ?_, wext := ?_
    distinct := List.nodup_cons.mpr ⟨none, h.distinct⟩, apart := ?_, scanning := by simp
    fresh := ⟨?_, failed, touched, ?_, ?_, published⟩, foreign := ?_ }
  · exact fun id member => List.mem_cons_of_mem _ (h.only id member)
  · intro id member
    rcases List.mem_cons.mp member with rfl | earlier
    · exact .inr ⟨_, List.mem_cons_self, rfl, rfl⟩
    · rcases h.waits id earlier with done | ⟨r, waits, _⟩
      · exact .inl done
      · exact absurd waits none
  · intro r member _
    rcases List.mem_cons.mp member with rfl | earlier
    · exact ⟨rfl, notReported, .inl List.mem_cons_self⟩
    · exact absurd earlier none
  · intro r member theirs
    rcases List.mem_cons.mp member with rfl | earlier
    · cases theirs
    · exact absurd earlier none
  · intro id member back
    rcases List.mem_cons.mp back with rfl | earlier
    · exact notFailed member
    · exact h.apart id member earlier
  · intro id member
    rcases List.mem_cons.mp member with rfl | earlier
    · exact Nat.lt_succ_self _
    · exact returned id earlier
  · intro r member
    rcases List.mem_cons.mp member with rfl | earlier
    · exact Nat.lt_succ_self _
    · exact absurd earlier none
  · intro r there
    obtain rfl := Option.some.inj there
    exact Nat.lt_succ_self _
  · intro r there theirs
    obtain rfl := Option.some.inj there
    cases theirs

theorem Inv.scan (h : Inv s) {wdev : Nat} {busy : Bool} {sent : Sent}
    (kept : Kept s (.scan wdev busy sent)) : Inv (s.rwnxCfg80211Scan wdev busy sent) := by
  have notReported : s.next ∉ s.reported := h.unused.2.2.2
  have old : s.next < s.next + 1 := Nat.lt_succ_self _
  unfold Hw.rwnxCfg80211Scan
  by_cases turned : (busy || s.scanning) = true
  · simp only [turned, if_true]
    exact h.refuse
  · have idle : s.unreported = [] := by
      by_contra some
      simp [h.scanning.mpr some] at turned
    have fresh : (⟨s.next, wdev, false⟩ : Request) ∉ s.unreported := by simp [idle]
    have pointed := h.refuse.point (r := ⟨s.next, wdev, false⟩) rfl old idle
    simp only [turned]
    cases sent with
    | unallocated => exact pointed
    | sent ret accepted =>
        obtain rfl : accepted = true := (kept.resolve_left turned) ret accepted rfl
        by_cases failed : (Sent.sent ret true).failed = true
        · simp only [failed, Hw.sendScanuReq, if_true]
          apply pointed.accept old fresh
          · exact fun _ => ⟨rfl, notReported, .inr List.mem_cons_self⟩
          · exact fun theirs => (by cases theirs)
        · simp only [failed, Hw.sendScanuReq, if_true]
          exact h.begin idle

theorem Inv.setWext (h : Inv s) {wext : WextPoint}
    (apart : ∀ r, wext = .published r → r.wext = true ∧ r.id ∉ s.failed ∧ r.id < s.next) :
    Inv { s with wext := wext } := by
  obtain ⟨returned, failed, touched, unreported, request, -⟩ := h.fresh
  exact { h with
    call := fun r there => ⟨(apart r there).1, (apart r there).2.1⟩
    fresh := ⟨returned, failed, touched, unreported, request, fun r there => (apart r there).2.2⟩ }

theorem Inv.wextCancel (h : Inv s) {ret : Int} : Inv (s.wextCancel ret) := by
  unfold Hw.wextCancel
  split
  · exact h
  · exact h.setWext fun r there => (by cases there)

theorem Inv.setWextScan (h : Inv s) : Inv { s with wextScan := true } :=
  { h with wext := fun _ _ _ => rfl }

theorem Inv.wextSend (h : Inv s) {wdev : Nat} {ssids : Bool} {sent : Sent}
    (kept : Kept s (.wextSend wdev ssids sent)) : Inv (s.wextSend wdev ssids sent) := by
  have numbered := h.number.setWextScan
  have old : s.next < s.next + 1 := Nat.lt_succ_self _
  have fresh : (⟨s.next, wdev, true⟩ : Request) ∉ s.unreported := by
    intro member
    exact Nat.lt_irrefl _ (h.fresh.2.2.2.1 _ member)
  unfold Hw.wextSend
  cases ssids with
  | false => exact numbered.setWext fun r there => (by cases there)
  | true =>
      cases sent with
      | unallocated => exact numbered.setWext fun r there => (by cases there)
      | sent ret accepted =>
          obtain rfl : accepted = true := kept rfl ret accepted rfl
          have accepted := numbered.accept (r := ⟨s.next, wdev, true⟩) old fresh
            (fun cfg => (by cases cfg)) (fun _ => rfl)
          by_cases failed : (Sent.sent ret true).failed = true
          · simp only [failed, Hw.sendScanuReq, if_true]
            exact accepted.setWext fun r there => (by cases there)
          · simp only [failed, Hw.sendScanuReq, if_true]
            apply accepted.setWext
            intro r there
            obtain rfl := WextPoint.published.inj there
            exact ⟨rfl, h.unused.2.1, old⟩

theorem Inv.wextPublish (h : Inv s) {r : Request} (waits : s.wext = .published r)
    (kept : Kept s .wextPublish) : Inv { s with scanRequest := some r, wext := .idle } := by
  obtain ⟨returned, failed, touched, unreported, -, published⟩ := h.fresh
  obtain ⟨theirs, fine⟩ := h.call r waits
  refine { h with
    cfg := ?_, call := fun _ there => (by cases there)
    fresh := ⟨returned, failed, touched, unreported, ?_, fun _ there => (by cases there)⟩
    foreign := ?_ }
  · intro r' member cfg
    cases cfg.symm.trans (kept r' member)
  · intro r' there
    obtain rfl := Option.some.inj there
    exact published r waits
  · intro r' there _
    obtain rfl := Option.some.inj there
    exact fine

theorem Inv.touch (h : Inv s) {r : Request} (there : s.scanRequest = some r)
    (kept : r.id ∉ s.failed) : Inv (s.touch r) := by
  obtain ⟨returned, failed, touched, unreported, request, published⟩ := h.fresh
  refine { h with
    untouched := ?_, fresh := ⟨returned, failed, ?_, unreported, request, published⟩ }
  · intro id refused member
    rcases List.mem_cons.mp member with rfl | earlier
    · exact kept refused
    · exact h.untouched id refused earlier
  · intro id member
    rcases List.mem_cons.mp member with rfl | earlier
    · exact request r there
    · exact touched id earlier

/-- The only scan is the one that the pointer leads to. It is reported, and forgotten. -/
theorem Inv.report (h : Inv s) {r : Request} (there : s.scanRequest = some r)
    (pending : s.Pending r) (alone : s.unreported = [r]) {wextScan : Bool} :
    Inv { (s.touch r).scanDone r with
      scanRequest := none, scanning := false, wextScan := wextScan } := by
  obtain ⟨theirs, member, kept⟩ := pending
  obtain ⟨-, silent, told⟩ := h.cfg r member theirs
  obtain ⟨returned, failed, touched, -, -, published⟩ := (h.touch there kept).fresh
  have quiet : s.unreported.erase r = [] := by rw [alone, List.erase_cons_head]
  simp only [Hw.scanDone, Hw.touch, quiet]
  refine { h.touch there kept with
    nodup := List.nodup_cons.mpr ⟨silent, h.nodup⟩, only := ?_, waits := ?_
    cfg := fun _ none => (by cases none), wext := fun _ none => (by cases none)
    distinct := List.nodup_nil, scanning := by simp
    fresh := ⟨returned, failed, touched, fun _ none => (by cases none),
      fun _ none => (by cases none), published⟩
    foreign := fun _ none => (by cases none) }
  · intro id member
    rcases List.mem_cons.mp member with rfl | earlier
    · exact told.resolve_right kept
    · exact h.only id earlier
  · intro id member
    rcases h.waits id member with done | ⟨r', waits, rfl, _⟩
    · exact .inl (List.mem_cons_of_mem _ done)
    · rw [alone] at waits
      obtain rfl := List.mem_singleton.mp waits
      exact .inl List.mem_cons_self

/-- No scan is left, and the pointer is cleared. -/
theorem Inv.quiet (h : Inv s) (idle : ∀ r ∈ s.unreported, r.wext = true) :
    Inv { s with scanRequest := none, scanning := false, wextScan := false, unreported := [] } := by
  obtain ⟨returned, failed, touched, -, -, published⟩ := h.fresh
  refine { h with
    waits := ?_, cfg := fun _ none => (by cases none), wext := fun _ none => (by cases none)
    distinct := List.nodup_nil, scanning := by simp
    fresh := ⟨returned, failed, touched, fun _ none => (by cases none),
      fun _ none => (by cases none), published⟩
    foreign := fun _ none => (by cases none) }
  intro id member
  rcases h.waits id member with done | ⟨r, waits, _, cfg⟩
  · exact .inl done
  · cases cfg.symm.trans (idle r waits)

theorem Inv.close (h : Inv s) {wdev : Nat} (kept : Kept s (.close wdev)) :
    Inv (s.rwnxClose wdev) := by
  obtain ⟨its, found⟩ := kept
  have stopped : s.scanning = false → { s with scanning := false } = s := by
    intro off
    rw [← off]
  unfold Hw.rwnxClose
  obtain request | ⟨r, request⟩ := Option.eq_none_or_eq_some s.scanRequest
  · have off : s.scanning = false := by
      by_contra on
      obtain ⟨r, there, _⟩ := its (Bool.not_eq_false _ ▸ on)
      cases request.symm.trans there
    rw [stopped off]
    simp only [Hw.abort, request]
    exact h
  · obtain ⟨unrefused, pending⟩ := found r request
    by_cases same : r.wdev = wdev
    · have member := (pending same).2.1
      obtain ⟨r', there, _, alone⟩ := its (h.scanning.mpr (List.ne_nil_of_mem member))
      obtain rfl := Option.some.inj (request.symm.trans there)
      simp only [Hw.abort, request, same, if_true]
      exact h.report request (pending same) alone
    · have off : s.scanning = false := by
        by_contra on
        obtain ⟨r', there, wrong, _⟩ := its (Bool.not_eq_false _ ▸ on)
        obtain rfl := Option.some.inj (request.symm.trans there)
        exact same wrong
      rw [stopped off]
      simp only [Hw.abort, request, same, if_false]
      exact h.touch request unrefused

theorem Inv.stopP2p (h : Inv s) {wdev : Nat} (kept : Kept s (.stopP2p wdev)) :
    Inv (s.rwnxCfgp2pStopP2pDevice wdev) := by
  unfold Hw.rwnxCfgp2pStopP2pDevice Hw.abort
  cases request : s.scanRequest with
  | none => exact h
  | some r =>
      obtain ⟨unrefused, other⟩ := kept r request
      simp only [other, if_false]
      exact h.touch request unrefused

theorem Inv.changeIface (h : Inv s) {wdev : Nat} {up : Bool} (kept : Kept s (.changeIface wdev up)) :
    Inv (s.rwnxCfg80211ChangeIface up) := by
  unfold Hw.rwnxCfg80211ChangeIface
  cases request : s.scanRequest with
  | none => exact h
  | some r =>
      cases up with
      | false => exact h
      | true => exact h.touch request (kept rfl r request)

theorem Inv.scanDone (h : Inv s) (kept : Kept s .scanDone) : Inv s.rwnxRxScanuStartCfm := by
  unfold Hw.rwnxRxScanuStartCfm
  by_cases theirs : s.wextScan = true
  · -- what the pointer leads to is not one of cfg80211, so none of those waits
    have idle : ∀ r ∈ s.unreported, r.wext = true := by
      intro r member
      by_contra cfg
      have there := (h.cfg r member (Bool.not_eq_true _ ▸ cfg)).1
      have foreign := kept r there
      rw [if_pos theirs] at foreign
      exact cfg foreign
    have none : s.unreported.filter (fun r => !r.wext) = [] := by
      apply List.filter_eq_nil_iff.mpr
      intro r member
      simp [idle r member]
    cases request : s.scanRequest with
    | none =>
        simp only [theirs, if_true, none]
        exact h.quiet idle
    | some r =>
        have foreign := kept r request
        rw [if_pos theirs] at foreign
        simp only [theirs, if_true, Hw.touch, none]
        exact (h.touch request (h.foreign r request foreign)).quiet idle
  · have cfg : ∀ r ∈ s.unreported, r.wext = false := by
      intro r member
      by_contra foreign
      exact theirs (h.wext r member (Bool.not_eq_false _ ▸ foreign))
    cases request : s.scanRequest with
    | none =>
        have none : s.unreported = [] := by
          apply List.eq_nil_iff_forall_not_mem.mpr
          intro r member
          cases request.symm.trans (h.cfg r member (cfg r member)).1
        simp only [theirs, Bool.false_eq_true, if_false, none]
        exact h.quiet (by simp [none])
    | some r =>
        have pending := kept r request
        rw [if_neg theirs] at pending
        have alone : s.unreported = [r] := by
          have all : ∀ x ∈ s.unreported, x = r := by
            intro x member
            exact Option.some.inj ((h.cfg x member (cfg x member)).1.symm.trans request)
          have few := List.eq_replicate_of_mem all
          have one := h.distinct
          rw [few, List.nodup_replicate] at one
          have some := List.length_pos_of_mem pending.2.1
          rw [few, show s.unreported.length = 1 by omega, List.replicate_one]
        have same : ((s.touch r).scanDone r).wextScan = false := Bool.not_eq_true _ ▸ theirs
        simp only [theirs, same, Bool.false_eq_true, if_false]
        exact h.report request pending alone

end Steps

theorem inv_init : Inv init := by
  constructor <;> simp [init]

theorem Inv.step {s t : Hw} {e : Event} (h : Inv s) (kept : Kept s e) (taken : s.step e = some t) :
    Inv t := by
  cases e with
  | scan wdev busy sent =>
      cases taken
      exact h.scan kept
  | wextCancel ret =>
      simp only [Hw.step] at taken
      split at taken
      · cases taken
        exact h.wextCancel
      · cases taken
  | wextSend wdev ssids sent =>
      simp only [Hw.step] at taken
      split at taken
      · cases taken
        exact h.wextSend kept
      · cases taken
  | wextPublish =>
      simp only [Hw.step] at taken
      split at taken
      · rename_i r published
        cases taken
        exact h.wextPublish published kept
      · cases taken
  | close wdev =>
      cases taken
      exact h.close kept
  | stopP2p wdev =>
      cases taken
      exact h.stopP2p kept
  | changeIface wdev up =>
      cases taken
      exact h.changeIface kept
  | scanDone =>
      cases taken
      exact h.scanDone kept

/-- In every run whose steps keep them so, the scan requests are sound. -/
theorem scan_requests_sound {s : Hw} (run : Run.Reachable Hw.step Kept init s) : Sound s := by
  have inv : Inv s := by
    apply run.invariant Inv inv_init
    intro s e t h kept taken
    exact h.step kept taken
  exact inv.sound

instance (s : Hw) (r : Request) : Decidable (s.Pending r) :=
  inferInstanceAs (Decidable (_ ∧ _ ∧ _))

instance (s : Hw) (e : Event) : Decidable (Kept s e) :=
  match e with
  | .scan _ _ .unallocated => .isTrue (.inr fun _ _ same => by cases same)
  | .scan _ busy (.sent _ accepted) =>
      decidable_of_iff ((busy || s.scanning) = true ∨ accepted = true) (by simp [Kept])
  | .wextCancel _ => inferInstanceAs (Decidable True)
  | .wextSend _ _ .unallocated => .isTrue fun _ _ _ same => by cases same
  | .wextSend _ ssids (.sent _ accepted) =>
      decidable_of_iff (ssids = true → accepted = true) (by simp [Kept])
  | .wextPublish => inferInstanceAs (Decidable (∀ _ ∈ _, _))
  | .close _ =>
      inferInstanceAs (Decidable ((_ → ∃ _ ∈ s.scanRequest, _) ∧ ∀ _ ∈ s.scanRequest, _))
  | .stopP2p _ => inferInstanceAs (Decidable (∀ _ ∈ s.scanRequest, _))
  | .changeIface _ _ => inferInstanceAs (Decidable (_ → ∀ _ ∈ s.scanRequest, _))
  | .scanDone => inferInstanceAs (Decidable (∀ _ ∈ s.scanRequest, _))

/-- Scans of two interfaces, one of the wireless extensions, and one that is aborted. -/
def scanRun : List Event :=
  [.scan 0 false (.sent 0 true), .scan 1 false (.sent 0 true), .scanDone,
    .wextCancel 0, .wextSend 0 true (.sent 0 true), .wextPublish, .scanDone,
    .scan 1 false .unallocated, .scan 1 false (.sent 0 true), .changeIface 0 true, .close 1]

theorem scan_requests_sound_run : ∃ s, Run.exec Hw.step init scanRun = some s ∧ Sound s := by
  obtain ⟨s, run⟩ := Option.isSome_iff_exists.mp
    (show (Run.exec Hw.step init scanRun).isSome = true by decide)
  exact ⟨s, run, scan_requests_sound
    (Run.Reachable.exec_guarded (fun _ _ => of_decide_eq_true) _ .init run (by decide))⟩

/-- The request is not sent, and every later scan finds the device busy. -/
theorem unsent_scan_stays : ¬ ∀ s : Hw, Run.Reachable Hw.step Run.Free init s → Sound s := by
  intro sound
  have stuck := sound _ (.exec [.scan 0 false (.sent (-32) false)] .init rfl)
  exact stuck.scanning.mp rfl rfl

end Aic8800.Cfg.Scan
