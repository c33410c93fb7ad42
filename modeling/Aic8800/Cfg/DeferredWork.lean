import Aic8800.Cfg.Stations
import Aic8800.Lib.Requests
import Aic8800.Lib.Run
import Mathlib

/-! # Work that an access point puts off

A lost station and a client to be probed are each handed to a work item through a place in memory
that the next request overwrites. A request, a run of a work item and the call that waits for the
cookie are told statement by statement, in any order between them. Messages are handled one after
the other, and so are the calls for an interface and the runs of a work item.
-/

namespace Aic8800.Cfg.DeferredWork

open Lib Requests Run
open Stations (Mac)
open Vifs (Iftype)

/-! ## Probing a client -/

/-- Where a run of `apm_probe_sta_work_process` is -/
inductive ProbeRun where
  /-- The station is to be looked for. -/
  | search
  /-- `cfg80211_probe_status` is to be called. -/
  | send (found : Bool)
  /-- The status was sent for this address, and `probe_id` is to be counted. -/
  | count (sent : Mac)
  deriving DecidableEq

/-- Where a call of `rwnx_cfg80211_probe_client` is, behind the copy of the address -/
inductive ProbeCall where
  | queueWork
  | readCookie
  deriving DecidableEq

structure Status where
  mac : Mac
  cookie : UInt64
  acked : Bool
  deriving DecidableEq

/-- `sta_probe` of an interface, with the calls that were accepted and the statuses that were sent,
    the newest first -/
structure Probe where
  staMacAddr : Mac
  probeId : UInt64
  /-- `apmprobestaWork` is queued. -/
  pending : Bool
  run : Option ProbeRun
  call : Option (Mac × ProbeCall)
  accepted : List (Mac × UInt64)
  statuses : List Status

inductive ProbeLabel where
  | client (peer : Mac)
  | call
  | start
  | run
  deriving DecidableEq

structure Vif where
  iftype : Iftype
  /-- `apmprobesta_wq` exists, as it does from `rwnx_cfg80211_start_ap` on. -/
  started : Bool
  /-- `ap.sta_list` -/
  staList : List Mac
  probe : Probe

namespace Vif

/-- The interface is an access point. -/
def isAp (vif : Vif) : Bool := vif.iftype = .ap || vif.iftype = .p2pGo

/-- The next statement of `rwnx_cfg80211_probe_client`. The search for the station has no effect,
    since the pointer is not NULL behind the loop. -/
def probeCall (vif : Vif) : Option Probe :=
  match vif.probe.call with
  | none => none
  | some (peer, .queueWork) =>
      if vif.started then
        some { vif.probe with pending := true, call := some (peer, .readCookie) }
      else none
  | some (peer, .readCookie) =>
      some { vif.probe with
        call := none
        accepted := (peer, vif.probe.probeId) :: vif.probe.accepted }

/-- The next statement of `apm_probe_sta_work_process` -/
def probeRun (vif : Vif) : Option Probe :=
  match vif.probe.run with
  | none => none
  | some .search =>
      some { vif.probe with run := some (.send (vif.probe.staMacAddr ∈ vif.staList)) }
  | some (.send found) =>
      some { vif.probe with
        run := some (.count vif.probe.staMacAddr)
        statuses := ⟨vif.probe.staMacAddr, vif.probe.probeId, found⟩ :: vif.probe.statuses }
  | some (.count _) => some { vif.probe with run := none, probeId := vif.probe.probeId + 1 }

def probeStep (vif : Vif) : ProbeLabel → Option Probe
  | .client peer =>
      if vif.probe.call ≠ none then none
      else if vif.isAp || vif.iftype = .apVlan then
        some { vif.probe with staMacAddr := peer, call := some (peer, .queueWork) }
      else some vif.probe
  | .call => vif.probeCall
  | .start =>
      if vif.probe.pending ∧ vif.probe.run = none then
        some { vif.probe with pending := false, run := some .search }
      else none
  | .run => vif.probeRun

end Vif

/-! ## Losing a station -/

/-- Where a run of `apm_staloss_work_process` is -/
inductive StalossRun where
  | findVif
  /-- The station is to be looked for on the interface that was found, and removed. -/
  | remove (vifIdx : UInt8)
  deriving DecidableEq

/-- Where `rwnx_apm_staloss_ind` is, behind the copy of the address -/
inductive StalossInd where
  | storeVif (vifIdx : UInt8)
  | queueWork
  deriving DecidableEq

/-- The interfaces are known by their indexes. `log` has the stations that were reported lost and
    the runs that removed one, the newest first. -/
structure Hw where
  vif : UInt8 → Option Vif
  staMacAddr : Mac
  apmVifIdx : UInt8
  /-- `apmStalossWork` is queued. -/
  pending : Bool
  run : Option StalossRun
  ind : Option StalossInd
  log : List (Entry (Mac × UInt8))

inductive Label where
  | staloss (macAddr : Mac) (vifIdx : UInt8)
  | ind
  | start
  | run
  | probe (vifIdx : UInt8) (l : ProbeLabel)
  deriving DecidableEq

namespace Hw

variable (hw : Hw)

def setVif (idx : UInt8) (vif : Vif) : Hw :=
  { hw with vif := fun i => if i = idx then some vif else hw.vif i }

/-- The next statement of `apm_staloss_work_process` -/
def stalossRun : Option Hw :=
  match hw.run with
  | none => none
  | some .findVif =>
      match hw.vif hw.apmVifIdx with
      | none => some { hw with run := none }
      | some vif =>
          if vif.isAp then some { hw with run := some (.remove hw.apmVifIdx) }
          else some { hw with run := none }
  | some (.remove idx) =>
      match hw.vif idx with
      | none => none
      | some vif =>
          some { hw.setVif idx { vif with staList := vif.staList.erase hw.staMacAddr } with
            run := none
            log := .answered (hw.staMacAddr, idx) :: hw.log }

def step : Label → Option Hw
  | .staloss macAddr vifIdx =>
      if hw.ind ≠ none then none
      else some { hw with
        staMacAddr := macAddr
        ind := some (.storeVif vifIdx)
        log := .asked (macAddr, vifIdx) :: hw.log }
  | .ind =>
      match hw.ind with
      | none => none
      | some (.storeVif vifIdx) => some { hw with apmVifIdx := vifIdx, ind := some .queueWork }
      | some .queueWork => some { hw with pending := true, ind := none }
  | .start =>
      if hw.pending ∧ hw.run = none then some { hw with pending := false, run := some .findVif }
      else none
  | .run => hw.stalossRun
  | .probe vifIdx l =>
      match hw.vif vifIdx with
      | none => none
      | some vif =>
          match vif.probeStep l with
          | none => none
          | some probe => some (hw.setVif vifIdx { vif with probe := probe })

end Hw

/-! ## What is promised -/

namespace Probe

variable (p : Probe)

/-- Each call that was accepted has one status with its cookie, and that is for its address. -/
def Answered : Prop :=
  ∀ call ∈ p.accepted,
    (p.statuses.filter fun st => st.cookie == call.2).map Status.mac = [call.1]

/-- Nothing is queued or under way. -/
def Idle : Prop := p.pending = false ∧ p.run = none ∧ p.call = none

/-- A run that is to come, or is under way, has still to read the address. -/
def Unread : Prop := p.pending = true ∨ p.run = some .search ∨ ∃ found, p.run = some (.send found)

end Probe

namespace Hw

variable (hw : Hw)

def Idle : Prop :=
  hw.pending = false ∧ hw.run = none ∧ hw.ind = none ∧
    ∀ idx vif, hw.vif idx = some vif → vif.probe.Idle

/-- A state that nothing was asked of so far -/
structure Fresh : Prop where
  idle : hw.Idle
  log : hw.log = []
  nodup : ∀ idx vif, hw.vif idx = some vif → vif.staList.Nodup
  accepted : ∀ idx vif, hw.vif idx = some vif → vif.probe.accepted = []
  statuses : ∀ idx vif, hw.vif idx = some vif → vif.probe.statuses = []

/-- Every station that was reported lost was removed from its interface by a later run, and every
    call was answered on an interface whose cookies have not come round. -/
structure Done : Prop where
  removed : AllAnswered hw.log
  gone : ∀ mac idx vif, .asked (mac, idx) ∈ hw.log → hw.vif idx = some vif → mac ∉ vif.staList
  answered : ∀ idx vif, hw.vif idx = some vif → vif.probe.statuses.length ≤ 2 ^ 64 →
    vif.probe.Answered

end Hw

/-! ## When it is kept -/

/-- A client is probed where the work is set up, and while no other address is to be read. The
    cookie is not read between the status for another address and the count, and the worker does
    not count while a call has still to read the cookie, unless another run is queued. -/
def Vif.ProbeApart (vif : Vif) : ProbeLabel → Prop
  | .client peer => vif.started = true ∧ (vif.probe.Unread → peer = vif.probe.staMacAddr)
  | .call => ∀ peer sent, vif.probe.call = some (peer, .readCookie) →
      vif.probe.run = some (.count sent) → peer = sent
  | .start => True
  | .run => ∀ peer sent, vif.probe.call = some (peer, .readCookie) →
      vif.probe.run = some (.count sent) → vif.probe.pending = true

/-- A station is reported lost on an access point, and while no other station is to be read; and so
    for the clients. -/
def Hw.Apart (hw : Hw) : Label → Prop
  | .staloss macAddr vifIdx =>
      (hw.vif vifIdx).any Vif.isAp = true ∧
        (hw.pending = true ∨ hw.run ≠ none → macAddr = hw.staMacAddr ∧ vifIdx = hw.apmVifIdx)
  | .ind | .start | .run => True
  | .probe vifIdx l => ∀ vif, hw.vif vifIdx = some vif → vif.ProbeApart l

/-! ## The probes -/

/-- The cookies count down from the next one. -/
def Numbered : UInt64 → List Status → Prop
  | _, [] => True
  | next, st :: older => next = st.cookie + 1 ∧ Numbered st.cookie older

theorem Numbered.cookies {next : UInt64} {sts : List Status} (numbered : Numbered next sts) :
    sts.map Status.cookie =
      (List.range sts.length).map fun i => next - UInt64.ofNat (i + 1) := by
  induction sts generalizing next with
  | nil => rfl
  | cons st sts ih =>
      obtain ⟨rfl, older⟩ := numbered
      rw [List.map_cons, ih older, List.length_cons, List.range_succ_eq_map, List.map_cons,
        List.map_map]
      congr 1
      · simp
      · refine List.map_congr_left fun i _ => ?_
        simp only [Function.comp, Nat.succ_eq_add_one, UInt64.ofNat_add]
        grind

theorem Numbered.nodup {next : UInt64} {sts : List Status} (numbered : Numbered next sts)
    (few : sts.length ≤ 2 ^ 64) : (sts.map Status.cookie).Nodup := by
  rw [numbered.cookies]
  refine List.Nodup.map_on ?_ List.nodup_range
  intro i inside j other same
  rw [List.mem_range] at inside other
  have offset := congrArg UInt64.toNat ((UInt64.sub_right_inj _).mp same)
  rw [UInt64.toNat_ofNat', UInt64.toNat_ofNat'] at offset
  omega

/-- With distinct cookies, a status is the only one with its own. -/
theorem filter_cookie {sts : List Status} (nodup : (sts.map Status.cookie).Nodup) {st : Status}
    (there : st ∈ sts) : (sts.filter fun other => other.cookie == st.cookie) = [st] := by
  induction sts with
  | nil => cases there
  | cons first sts ih =>
      obtain ⟨fresh, nodup⟩ := List.nodup_cons.mp nodup
      rcases List.mem_cons.mp there with rfl | behind
      · rw [List.filter_cons, if_pos (beq_self_eq_true _), List.filter_eq_nil_iff.mpr]
        intro other member same
        exact fresh (List.mem_map.mpr ⟨other, member, beq_iff_eq.mp same⟩)
      · rw [List.filter_cons, if_neg, ih nodup behind]
        intro same
        exact fresh (List.mem_map.mpr ⟨st, behind, (beq_iff_eq.mp same).symm⟩)

namespace Probe

/-- The cookie of the next status -/
def nextCookie (p : Probe) : UInt64 :=
  match p.run with
  | some (.count _) => p.probeId + 1
  | _ => p.probeId

/-- A status was sent for the address with the cookie. -/
def Sent (p : Probe) (mac : Mac) (cookie : UInt64) : Prop :=
  ∃ st ∈ p.statuses, st.mac = mac ∧ st.cookie = cookie

/-- The next status has the address and the cookie that are there now. -/
def WillSend (p : Probe) : Prop :=
  p.run = some .search ∨ (∃ found, p.run = some (.send found)) ∨ p.run = none ∧ p.pending = true

structure Inv (p : Probe) : Prop where
  numbered : Numbered p.nextCookie p.statuses
  slot : ∀ peer place, p.call = some (peer, place) → p.staMacAddr = peer
  counting : ∀ sent, p.run = some (.count sent) → p.Sent sent p.probeId
  answered : ∀ mac cookie, (mac, cookie) ∈ p.accepted →
    p.Sent mac cookie ∨ cookie = p.probeId ∧ mac = p.staMacAddr ∧ p.WillSend
  reading : ∀ peer, p.call = some (peer, .readCookie) →
    p.Unread ∨ p.run = some (.count peer)

theorem WillSend.unread {p : Probe} (sends : p.WillSend) : p.Unread := by
  rcases sends with search | send | ⟨-, queued⟩
  · exact .inr (.inl search)
  · exact .inr (.inr send)
  · exact .inl queued

/-- A status is on its way, unless one was just sent. -/
theorem Unread.willSend {p : Probe} (unread : p.Unread) :
    p.WillSend ∨ ∃ sent, p.run = some (.count sent) := by
  rcases unread with queued | search | send
  · cases run : p.run with
    | none => exact .inl (.inr (.inr ⟨run, queued⟩))
    | some place =>
        cases place with
        | search => exact .inl (.inl run)
        | send found => exact .inl (.inr (.inl ⟨found, run⟩))
        | count sent => exact .inr ⟨sent, rfl⟩
  · exact .inl (.inl search)
  · exact .inl (.inr (.inl send))

theorem Inv.fresh {p : Probe} (idle : p.Idle) (accepted : p.accepted = [])
    (statuses : p.statuses = []) : p.Inv where
  numbered := by rw [statuses]; trivial
  slot := fun peer place same => by rw [idle.2.2] at same; cases same
  counting := fun sent same => by rw [idle.2.1] at same; cases same
  answered := fun mac cookie there => by rw [accepted] at there; cases there
  reading := fun peer same => by rw [idle.2.2] at same; cases same

/-- In rest, every call that was accepted was answered. -/
theorem Inv.done {p : Probe} (inv : p.Inv) (idle : p.Idle) (few : p.statuses.length ≤ 2 ^ 64) :
    p.Answered := by
  rintro ⟨mac, cookie⟩ there
  obtain ⟨pending, run, -⟩ := idle
  have nodup := inv.numbered.nodup few
  rcases inv.answered mac cookie there with ⟨st, member, rfl, rfl⟩ | ⟨-, -, sends⟩
  · simp only
    rw [filter_cookie nodup member]
    rfl
  · rcases sends.unread with queued | search | ⟨found, send⟩
    · rw [pending] at queued
      cases queued
    · rw [run] at search
      cases search
    · rw [run] at send
      cases send

end Probe

/-- The probes of an interface, on which the work is set up if a client is being probed -/
structure Vif.Inv (vif : Vif) : Prop where
  probe : vif.probe.Inv
  started : vif.probe.call ≠ none → vif.started = true

section ProbeSteps

variable {vif : Vif} {p : Probe}

theorem client_inv {peer : Mac} (inv : vif.probe.Inv) (apart : vif.ProbeApart (.client peer))
    (went : vif.probeStep (.client peer) = some p) : p.Inv := by
  simp only [Vif.probeStep] at went
  split at went
  · cases went
  · split at went
    · cases went
      exact {
        numbered := inv.numbered
        slot := fun other place same => by cases same; rfl
        counting := inv.counting
        answered := fun mac cookie there => by
          rcases inv.answered mac cookie there with sent | ⟨now, slot, sends⟩
          · exact .inl sent
          · exact .inr ⟨now, slot.trans (apart.2 sends.unread).symm, sends⟩
        reading := fun other same => by cases same }
    · cases went
      exact inv

theorem call_inv (inv : vif.probe.Inv) (apart : vif.ProbeApart .call)
    (went : vif.probeStep .call = some p) : p.Inv := by
  change vif.probeCall = some p at went
  unfold Vif.probeCall at went
  split at went
  · cases went
  · rename_i peer call
    split at went
    · cases went
      exact {
        numbered := inv.numbered
        slot := fun other place same => by cases same; exact inv.slot peer _ call
        counting := inv.counting
        answered := fun mac cookie there => by
          rcases inv.answered mac cookie there with sent | ⟨now, slot, sends⟩
          · exact .inl sent
          · refine .inr ⟨now, slot, ?_⟩
            rcases sends with search | send | ⟨run, -⟩
            · exact .inl search
            · exact .inr (.inl send)
            · exact .inr (.inr ⟨run, rfl⟩)
        reading := fun other same => .inl (.inl rfl) }
    · cases went
  · rename_i peer call
    cases went
    exact {
      numbered := inv.numbered
      slot := fun other place same => by cases same
      counting := inv.counting
      answered := fun mac cookie there => by
        rcases List.mem_cons.mp there with same | there
        · cases same
          -- the cookie that is read now
          rcases inv.reading _ call with unread | counts
          · rcases unread.willSend with sends | ⟨sent, counts⟩
            · exact .inr ⟨rfl, (inv.slot _ _ call).symm, sends⟩
            · rw [apart _ _ call counts]
              exact .inl (inv.counting sent counts)
          · exact .inl (inv.counting _ counts)
        · exact inv.answered mac cookie there
      reading := fun other same => by cases same }

theorem start_inv (inv : vif.probe.Inv) (went : vif.probeStep .start = some p) : p.Inv := by
  simp only [Vif.probeStep] at went
  split at went
  · rename_i ready
    cases went
    have numbered := inv.numbered
    unfold Probe.nextCookie at numbered
    rw [ready.2] at numbered
    exact {
      numbered := numbered
      slot := inv.slot
      counting := fun sent same => by cases same
      answered := fun mac cookie there => by
        rcases inv.answered mac cookie there with sent | ⟨now, slot, -⟩
        · exact .inl sent
        · exact .inr ⟨now, slot, .inl rfl⟩
      reading := fun other same => .inl (.inr (.inl rfl)) }
  · cases went

theorem run_inv (inv : vif.probe.Inv) (apart : vif.ProbeApart .run)
    (went : vif.probeStep .run = some p) : p.Inv := by
  change vif.probeRun = some p at went
  have numbered := inv.numbered
  unfold Probe.nextCookie at numbered
  unfold Vif.probeRun at went
  split at went
  · cases went
  · rename_i search
    cases went
    rw [search] at numbered
    exact {
      numbered := numbered
      slot := inv.slot
      counting := fun sent same => by cases same
      answered := fun mac cookie there => by
        rcases inv.answered mac cookie there with sent | ⟨now, slot, -⟩
        · exact .inl sent
        · exact .inr ⟨now, slot, .inr (.inl ⟨_, rfl⟩)⟩
      reading := fun other same => .inl (.inr (.inr ⟨_, rfl⟩)) }
  · rename_i found send
    cases went
    rw [send] at numbered
    exact {
      numbered := ⟨rfl, numbered⟩
      slot := inv.slot
      counting := fun sent same => by
        cases same
        exact ⟨_, List.mem_cons_self, rfl, rfl⟩
      answered := fun mac cookie there => by
        rcases inv.answered mac cookie there with ⟨st, member, same⟩ | ⟨rfl, rfl, -⟩
        · exact .inl ⟨st, List.mem_cons_of_mem _ member, same⟩
        · exact .inl ⟨_, List.mem_cons_self, rfl, rfl⟩
      reading := fun other same => .inr (by rw [inv.slot other _ same]) }
  · rename_i sent counts
    cases went
    rw [counts] at numbered
    exact {
      numbered := numbered
      slot := inv.slot
      counting := fun sent same => by cases same
      answered := fun mac cookie there => by
        rcases inv.answered mac cookie there with sent | ⟨-, -, sends⟩
        · exact .inl sent
        · rcases sends with search | ⟨found, send⟩ | ⟨none', -⟩
          · rw [counts] at search
            cases search
          · rw [counts] at send
            cases send
          · rw [counts] at none'
            cases none'
      reading := fun other same => .inl (.inl (apart other sent same counts)) }

theorem probeStep_inv {l : ProbeLabel} (inv : vif.Inv) (apart : vif.ProbeApart l)
    (went : vif.probeStep l = some p) : Vif.Inv { vif with probe := p } := by
  have idle : vif.started = false → vif.probe.call = none := by
    intro none'
    by_contra call
    rw [inv.started call] at none'
    cases none'
  cases l with
  | client peer =>
      exact ⟨client_inv inv.probe apart went, fun _ => apart.1⟩
  | call =>
      refine ⟨call_inv inv.probe apart went, fun _ => ?_⟩
      by_contra none'
      simp only [Vif.probeStep, Vif.probeCall, idle (Bool.not_eq_true _ ▸ none')] at went
      cases went
  | start =>
      refine ⟨start_inv inv.probe went, fun call => inv.started ?_⟩
      simp only [Vif.probeStep] at went
      split at went
      · cases went
        exact call
      · cases went
  | run =>
      refine ⟨run_inv inv.probe apart went, fun call => inv.started ?_⟩
      simp only [Vif.probeStep, Vif.probeRun] at went
      split at went
      · cases went
      all_goals
        cases went
        exact call

end ProbeSteps

/-! ## The lost stations -/

namespace Hw

/-- A run of the work for lost stations is queued or under way. -/
def Busy (hw : Hw) : Prop := hw.pending = true ∨ hw.run ≠ none

/-- The index is that of an access point. -/
def IsAp (hw : Hw) (idx : UInt8) : Prop := (hw.vif idx).any Vif.isAp = true

/-- A station that is still to be removed is the one in memory, up to the index that is stored
    next. -/
structure StalossInv (hw : Hw) : Prop where
  open' : ∀ mac idx, Open hw.log (mac, idx) → mac = hw.staMacAddr ∧
    (hw.ind = some (.storeVif idx) ∨
      idx = hw.apmVifIdx ∧ (hw.ind = some .queueWork ∨ hw.Busy))
  storing : ∀ idx, hw.ind = some (.storeVif idx) → hw.IsAp idx ∧ (hw.Busy → idx = hw.apmVifIdx)
  found : ∀ idx, hw.run = some (.remove idx) → idx = hw.apmVifIdx
  isAp : hw.ind = some .queueWork ∨ hw.Busy → hw.IsAp hw.apmVifIdx
  gone : ∀ mac idx vif, .answered (mac, idx) ∈ hw.log → hw.vif idx = some vif →
    mac ∉ vif.staList
  nodup : ∀ idx vif, hw.vif idx = some vif → vif.staList.Nodup

structure Inv (hw : Hw) : Prop where
  staloss : hw.StalossInv
  probe : ∀ idx vif, hw.vif idx = some vif → vif.Inv

variable {hw next : Hw}

theorem setVif_vif {idx i : UInt8} {vif v : Vif} (found : (hw.setVif idx vif).vif i = some v) :
    i = idx ∧ v = vif ∨ i ≠ idx ∧ hw.vif i = some v := by
  simp only [setVif] at found
  split at found
  · rename_i same
    exact .inl ⟨same, (Option.some.inj found).symm⟩
  · rename_i other
    exact .inr ⟨other, found⟩

/-- An interface that keeps its type stays an access point, or none. -/
theorem setVif_isAp {idx : UInt8} {vif v : Vif} (there : hw.vif idx = some vif)
    (same : v.iftype = vif.iftype) (i : UInt8) : (hw.setVif idx v).IsAp i ↔ hw.IsAp i := by
  unfold IsAp setVif Vif.isAp
  simp only
  split
  · rename_i here
    rw [here, there, Option.any_some, Option.any_some, same]
  · exact Iff.rfl

theorem Inv.fresh (fresh : hw.Fresh) : hw.Inv where
  staloss := {
    open' := fun mac idx asked => by
      rw [fresh.log] at asked
      exact absurd asked not_open_nil
    storing := fun idx same => by rw [fresh.idle.2.2.1] at same; cases same
    found := fun idx same => by rw [fresh.idle.2.1] at same; cases same
    isAp := by
      rintro (same | queued | run)
      · rw [fresh.idle.2.2.1] at same
        cases same
      · rw [fresh.idle.1] at queued
        cases queued
      · exact absurd fresh.idle.2.1 run
    gone := fun mac idx vif there => by rw [fresh.log] at there; cases there
    nodup := fresh.nodup }
  probe := fun idx vif there =>
    ⟨.fresh (fresh.idle.2.2.2 idx vif there) (fresh.accepted idx vif there)
      (fresh.statuses idx vif there), fun call => absurd (fresh.idle.2.2.2 idx vif there).2.2 call⟩

theorem staloss_inv {mac : Mac} {idx : UInt8} (inv : hw.StalossInv)
    (apart : hw.Apart (.staloss mac idx)) (went : hw.step (.staloss mac idx) = some next) :
    next.StalossInv := by
  simp only [step] at went
  split at went
  · cases went
  · rename_i quiet
    have none' : hw.ind = none := not_not.mp quiet
    cases went
    exact {
      open' := fun m i asked => by
        rcases open_asked.mp asked with same | asked
        · cases same
          exact ⟨rfl, .inl rfl⟩
        · obtain ⟨rfl, place⟩ := inv.open' m i asked
          rcases place with storing | ⟨rfl, queueing | busy⟩
          · rw [none'] at storing
            cases storing
          · rw [none'] at queueing
            cases queueing
          · obtain ⟨rfl, rfl⟩ := apart.2 busy
            exact ⟨rfl, .inl rfl⟩
      storing := fun i same => by
        cases same
        exact ⟨apart.1, fun busy => (apart.2 busy).2⟩
      found := inv.found
      isAp := by
        rintro (same | busy)
        · cases same
        · exact inv.isAp (.inr busy)
      gone := fun m i vif there => by
        rcases List.mem_cons.mp there with same | there
        · cases same
        · exact inv.gone m i vif there
      nodup := inv.nodup }

theorem ind_inv (inv : hw.StalossInv) (went : hw.step .ind = some next) : next.StalossInv := by
  simp only [step] at went
  split at went
  · cases went
  · rename_i idx storing
    obtain ⟨isAp, same⟩ := inv.storing idx storing
    cases went
    exact {
      open' := fun m i asked => by
        obtain ⟨rfl, place⟩ := inv.open' m i asked
        refine ⟨rfl, .inr ⟨?_, .inl rfl⟩⟩
        rcases place with here | ⟨rfl, queueing | busy⟩
        · rw [storing] at here
          cases here
          rfl
        · rw [storing] at queueing
          cases queueing
        · exact (same busy).symm
      storing := fun i other => by cases other
      found := fun i run => (inv.found i run).trans (same (.inr (by rw [run]; simp))).symm
      isAp := fun _ => isAp
      gone := inv.gone
      nodup := inv.nodup }
  · rename_i queueing
    cases went
    exact {
      open' := fun m i asked => by
        obtain ⟨rfl, place⟩ := inv.open' m i asked
        refine ⟨rfl, .inr ⟨?_, .inr (.inl rfl)⟩⟩
        rcases place with here | ⟨rfl, -⟩
        · rw [queueing] at here
          cases here
        · rfl
      storing := fun i other => by cases other
      found := inv.found
      isAp := fun _ => inv.isAp (.inl queueing)
      gone := inv.gone
      nodup := inv.nodup }

/-- While a run is queued or under way it may go on, up to the interface that it was told. -/
theorem StalossInv.running {place : StalossRun} (inv : hw.StalossInv) (busy : hw.Busy)
    (pending : Bool) (found : ∀ idx, place = .remove idx → idx = hw.apmVifIdx) :
    StalossInv { hw with pending := pending, run := some place } where
  open' m i asked := by
    obtain ⟨rfl, told⟩ := inv.open' m i asked
    refine ⟨rfl, told.imp_right fun ⟨same, _⟩ => ⟨same, .inr (.inr ?_)⟩⟩
    exact Option.some_ne_none _
  storing i storing := ⟨(inv.storing i storing).1, fun _ => (inv.storing i storing).2 busy⟩
  found i same := found i (Option.some.inj same)
  isAp _ := inv.isAp (.inr busy)
  gone := inv.gone
  nodup := inv.nodup

theorem start_inv (inv : hw.StalossInv) (went : hw.step .start = some next) :
    next.StalossInv := by
  simp only [step] at went
  split at went
  · rename_i ready
    cases went
    exact inv.running (.inl ready.1) false nofun
  · cases went

/-- The interface is found, since the index is that of an access point. -/
theorem findVif_inv (inv : hw.StalossInv) (place : hw.run = some .findVif)
    (went : hw.step .run = some next) : next.StalossInv ∧ next.vif = hw.vif := by
  have busy : hw.Busy := .inr (by rw [place]; simp)
  have isAp := inv.isAp (.inr busy)
  unfold IsAp at isAp
  change hw.stalossRun = some next at went
  unfold stalossRun at went
  rw [place] at went
  cases there : hw.vif hw.apmVifIdx with
  | none =>
      rw [there] at isAp
      cases isAp
  | some vif =>
      rw [there, Option.any_some] at isAp
      simp only [there, isAp, if_true] at went
      cases went
      refine ⟨inv.running busy hw.pending fun i same => ?_, rfl⟩
      cases same
      rfl

/-- What is removed is all that was asked for. -/
theorem remove_inv {idx : UInt8} (inv : hw.StalossInv) (place : hw.run = some (.remove idx))
    (went : hw.step .run = some next) :
    next.StalossInv ∧ ∀ i v, next.vif i = some v → ∃ vif, hw.vif i = some vif ∧
      v.probe = vif.probe ∧ v.started = vif.started := by
  have busy : hw.Busy := .inr (by rw [place]; simp)
  obtain rfl := inv.found idx place
  change hw.stalossRun = some next at went
  unfold stalossRun at went
  rw [place] at went
  cases there : hw.vif hw.apmVifIdx with
  | none =>
      simp only [there] at went
      cases went
  | some vif =>
      simp only [there] at went
      have same := setVif_isAp there
        (v := { vif with staList := vif.staList.erase hw.staMacAddr }) rfl
      have none' : ∀ m i, ¬Open (.answered (hw.staMacAddr, hw.apmVifIdx) :: hw.log) (m, i) := by
        intro m i asked
        obtain ⟨other, asked⟩ := open_answered.mp asked
        obtain ⟨rfl, storing | ⟨rfl, -⟩⟩ := inv.open' m i asked
        · exact other (by rw [(inv.storing i storing).2 busy])
        · exact other rfl
      cases went
      refine ⟨{
        open' := fun m i asked => absurd asked (none' m i)
        storing := fun i storing =>
          ⟨(same i).mpr (inv.storing i storing).1, fun _ => (inv.storing i storing).2 busy⟩
        found := fun i other => by cases other
        isAp := fun _ => (same _).mpr (inv.isAp (.inr busy))
        gone := fun m i v answered found => ?_
        nodup := fun i v found => ?_ }, fun i v found => ?_⟩
      · rcases setVif_vif found with ⟨rfl, rfl⟩ | ⟨other, found⟩
        · rcases List.mem_cons.mp answered with same | answered
          · cases same
            exact (inv.nodup _ _ there).not_mem_erase
          · exact fun member => inv.gone m _ vif answered there (List.mem_of_mem_erase member)
        · rcases List.mem_cons.mp answered with same | answered
          · cases same
            exact absurd rfl other
          · exact inv.gone m i v answered found
      · rcases setVif_vif found with ⟨rfl, rfl⟩ | ⟨other, found⟩
        · exact (inv.nodup _ _ there).erase _
        · exact inv.nodup i v found
      · rcases setVif_vif found with ⟨rfl, rfl⟩ | ⟨other, found⟩
        · exact ⟨vif, there, rfl, rfl⟩
        · exact ⟨v, found, rfl, rfl⟩

theorem probe_inv {idx : UInt8} {l : ProbeLabel} (inv : hw.Inv) (apart : hw.Apart (.probe idx l))
    (went : hw.step (.probe idx l) = some next) : next.Inv := by
  simp only [step] at went
  split at went
  · cases went
  · rename_i vif there
    split at went
    · cases went
    · rename_i p stepped
      have same := setVif_isAp there (v := { vif with probe := p }) rfl
      have staloss := inv.staloss
      cases went
      exact {
        staloss := {
          open' := staloss.open'
          storing := fun i storing => ⟨(same i).mpr (staloss.storing i storing).1,
            (staloss.storing i storing).2⟩
          found := staloss.found
          isAp := fun busy => (same _).mpr (staloss.isAp busy)
          gone := fun mac i v answered found => by
            rcases setVif_vif found with ⟨rfl, rfl⟩ | ⟨other, found⟩
            · exact staloss.gone mac i vif answered there
            · exact staloss.gone mac i v answered found
          nodup := fun i v found => by
            rcases setVif_vif found with ⟨rfl, rfl⟩ | ⟨other, found⟩
            · exact staloss.nodup i vif there
            · exact staloss.nodup i v found }
        probe := fun i v found => by
          rcases setVif_vif found with ⟨rfl, rfl⟩ | ⟨other, found⟩
          · exact probeStep_inv (inv.probe i vif there) (apart vif there) stepped
          · exact inv.probe i v found }

theorem step_inv {l : Label} (inv : hw.Inv) (apart : hw.Apart l) (went : hw.step l = some next) :
    next.Inv := by
  cases l with
  | staloss mac idx =>
      refine ⟨staloss_inv inv.staloss apart went, fun i vif there => inv.probe i vif ?_⟩
      simp only [step] at went
      split at went
      · cases went
      · cases went
        exact there
  | ind =>
      refine ⟨ind_inv inv.staloss went, fun i vif there => inv.probe i vif ?_⟩
      simp only [step] at went
      split at went
      · cases went
      · cases went
        exact there
      · cases went
        exact there
  | start =>
      refine ⟨start_inv inv.staloss went, fun i vif there => inv.probe i vif ?_⟩
      simp only [step] at went
      split at went
      · cases went
        exact there
      · cases went
  | run =>
      cases place : hw.run with
      | none =>
          simp only [step, stalossRun, place] at went
          cases went
      | some at' =>
          cases at' with
          | findVif =>
              obtain ⟨staloss, same⟩ := findVif_inv inv.staloss place went
              exact ⟨staloss, fun i vif there => inv.probe i vif (same ▸ there)⟩
          | remove idx =>
              obtain ⟨staloss, kept⟩ := remove_inv inv.staloss place went
              refine ⟨staloss, fun i v there => ?_⟩
              obtain ⟨vif, before, same, set⟩ := kept i v there
              have kept := inv.probe i vif before
              exact ⟨same ▸ kept.probe, fun call => set ▸ kept.started (same ▸ call)⟩
  | probe idx l => exact probe_inv inv apart went

/-- In rest, all that was put off was done. -/
theorem Inv.done (inv : hw.Inv) (idle : hw.Idle) : hw.Done := by
  obtain ⟨pending, run, ind, probes⟩ := idle
  have closed : ∀ a, ¬Open hw.log a := by
    rintro ⟨mac, idx⟩ asked
    obtain ⟨-, storing | ⟨-, queueing | queued | running⟩⟩ := inv.staloss.open' mac idx asked
    · rw [ind] at storing
      cases storing
    · rw [ind] at queueing
      cases queueing
    · rw [pending] at queued
      cases queued
    · exact running run
  have removed := allAnswered_iff.mpr closed
  refine ⟨removed, fun mac idx vif asked there => ?_, fun idx vif there few => ?_⟩
  · obtain ⟨newer, older, split⟩ := List.append_of_mem asked
    have answered := List.mem_append_left (.asked (mac, idx) :: older)
      (removed newer older (mac, idx) split)
    exact inv.staloss.gone mac idx vif (split ▸ answered) there
  · exact (inv.probe idx vif there).probe.done (probes idx vif there) few

end Hw

/-! ## All of it is done -/

/-- The label is not a new request. -/
def Label.Inner : Label → Prop
  | .staloss _ _ | .probe _ (.client _) => False
  | .ind | .start | .run | .probe _ .call | .probe _ .start | .probe _ .run => True

/-- The statements that a probe has still before it, at most -/
def Probe.left (p : Probe) : Nat :=
  (if p.pending then 4 else 0) +
    (match p.run with
      | none => 0
      | some .search => 3
      | some (.send _) => 2
      | some (.count _) => 1) +
    match p.call with
    | none => 0
    | some (_, .queueWork) => 6
    | some (_, .readCookie) => 1

namespace Hw

def stalossLeft (hw : Hw) : Nat :=
  (if hw.pending then 3 else 0) +
    (match hw.run with
      | none => 0
      | some .findVif => 2
      | some (.remove _) => 1) +
    match hw.ind with
    | none => 0
    | some (.storeVif _) => 5
    | some .queueWork => 4

def probesLeft (hw : Hw) : Nat :=
  ∑ n ∈ Finset.range 256, (hw.vif (UInt8.ofNat n)).elim 0 fun vif => vif.probe.left

def left (hw : Hw) : Nat := hw.stalossLeft + hw.probesLeft

variable {hw : Hw}

theorem probesLeft_setVif {idx : UInt8} {vif : Vif} {p : Probe} (there : hw.vif idx = some vif)
    (less : p.left < vif.probe.left) :
    (hw.setVif idx { vif with probe := p }).probesLeft < hw.probesLeft := by
  unfold probesLeft
  refine Finset.sum_lt_sum (fun n _ => ?_) ⟨idx.toNat, ?_, ?_⟩
  · simp only [setVif]
    split
    · rename_i same
      rw [same, there]
      exact Nat.le_of_lt less
    · exact Nat.le_refl _
  · exact Finset.mem_range.mpr idx.toNat_lt
  · simp only [setVif, UInt8.ofNat_toNat, if_true, there]
    exact less

end Hw

/-- A statement of a probe can be run, and leaves fewer. -/
def Vif.GoesOn (vif : Vif) : Prop :=
  ∃ l p, (∀ peer, l ≠ .client peer) ∧ vif.ProbeApart l ∧ vif.probeStep l = some p ∧
    p.left < vif.probe.left

section GoesOn

variable {vif : Vif}

theorem call_goes_on (inv : vif.Inv) {peer : Mac} {place : ProbeCall}
    (call : vif.probe.call = some (peer, place)) (apart : vif.ProbeApart .call) : vif.GoesOn := by
  cases place with
  | queueWork =>
      have started := inv.started (by rw [call]; simp)
      refine ⟨.call, { vif.probe with pending := true, call := some (peer, .readCookie) },
        fun _ => ProbeLabel.noConfusion, apart, ?_, ?_⟩
      · simp only [Vif.probeStep, Vif.probeCall, call, started, if_true]
      · simp only [Probe.left, call]
        split_ifs <;> omega
  | readCookie =>
      refine ⟨.call, { vif.probe with
        call := none
        accepted := (peer, vif.probe.probeId) :: vif.probe.accepted },
        fun _ => ProbeLabel.noConfusion, apart, ?_, ?_⟩
      · simp only [Vif.probeStep, Vif.probeCall, call]
      · simp only [Probe.left, call]
        omega

theorem run_goes_on {place : ProbeRun} (run : vif.probe.run = some place)
    (apart : vif.ProbeApart .run) : vif.GoesOn := by
  cases place with
  | search =>
      refine ⟨.run, { vif.probe with run := some (.send (vif.probe.staMacAddr ∈ vif.staList)) },
        fun _ => ProbeLabel.noConfusion, apart, ?_, ?_⟩
      · simp only [Vif.probeStep, Vif.probeRun, run]
      · simp only [Probe.left, run]
        omega
  | send found =>
      refine ⟨.run, { vif.probe with
        run := some (.count vif.probe.staMacAddr)
        statuses := ⟨vif.probe.staMacAddr, vif.probe.probeId, found⟩ :: vif.probe.statuses },
        fun _ => ProbeLabel.noConfusion, apart, ?_, ?_⟩
      · simp only [Vif.probeStep, Vif.probeRun, run]
      · simp only [Probe.left, run]
        omega
  | count sent =>
      refine ⟨.run, { vif.probe with run := none, probeId := vif.probe.probeId + 1 },
        fun _ => ProbeLabel.noConfusion, apart, ?_, ?_⟩
      · simp only [Vif.probeStep, Vif.probeRun, run]
      · simp only [Probe.left, run]
        omega

/-- A probe that is not in rest can go on. The worker waits for the call that it has answered, and
    the call for the worker that has answered another. -/
theorem probe_goes_on (inv : vif.Inv) (busy : ¬vif.probe.Idle) : vif.GoesOn := by
  cases run : vif.probe.run with
  | some place =>
      by_cases apart : vif.ProbeApart .run
      · exact run_goes_on run apart
      · simp only [Vif.ProbeApart, not_forall] at apart
        obtain ⟨peer, sent, call, counts, quiet⟩ := apart
        refine call_goes_on inv call fun other sent' reads counts' => ?_
        obtain ⟨rfl, -⟩ := Prod.mk.inj (Option.some.inj (call.symm.trans reads))
        rcases inv.probe.reading peer call with (queued | search | ⟨found, send⟩) | answered
        · exact absurd queued quiet
        · rw [counts] at search
          cases search
        · rw [counts] at send
          cases send
        · rw [answered] at counts'
          cases counts'
          rfl
  | none =>
      by_cases queued : vif.probe.pending = true
      · refine ⟨.start, { vif.probe with pending := false, run := some .search },
          fun _ => ProbeLabel.noConfusion, trivial, ?_, ?_⟩
        · simp only [Vif.probeStep, queued, run, and_self, if_true]
        · simp only [Probe.left, queued, run, if_true]
          simp
      · cases call : vif.probe.call with
        | none => exact absurd ⟨Bool.eq_false_iff.mpr queued, run, call⟩ busy
        | some there =>
            obtain ⟨peer, place⟩ := there
            refine call_goes_on inv call fun other sent reads counts => ?_
            rw [run] at counts
            cases counts

end GoesOn

namespace Hw

variable {hw : Hw}

/-- A statement of the whole can be run, and leaves fewer. -/
def GoesOn (hw : Hw) : Prop :=
  ∃ l next, l.Inner ∧ hw.Apart l ∧ hw.step l = some next ∧ next.left < hw.left

theorem vif_goes_on {idx : UInt8} {vif : Vif} (there : hw.vif idx = some vif) (on : vif.GoesOn) :
    hw.GoesOn := by
  obtain ⟨l, p, inner, apart, went, less⟩ := on
  refine ⟨.probe idx l, hw.setVif idx { vif with probe := p }, ?_, ?_, ?_, ?_⟩
  · cases l with
    | client peer => exact absurd rfl (inner peer)
    | call | start | run => trivial
  · intro other same
    rw [there] at same
    cases same
    exact apart
  · simp only [step, there, went]
  · exact Nat.add_lt_add_left (probesLeft_setVif there less) hw.stalossLeft

theorem staloss_goes_on (inv : hw.StalossInv) {place : StalossRun} (run : hw.run = some place) :
    hw.GoesOn := by
  have busy : hw.Busy := .inr (by rw [run]; simp)
  have isAp := inv.isAp (.inr busy)
  unfold IsAp at isAp
  cases there : hw.vif hw.apmVifIdx with
  | none =>
      rw [there] at isAp
      cases isAp
  | some vif =>
      rw [there, Option.any_some] at isAp
      cases place with
      | findVif =>
          refine ⟨.run, { hw with run := some (.remove hw.apmVifIdx) }, trivial, trivial, ?_, ?_⟩
          · simp only [step, stalossRun, run, there, isAp, if_true]
          · simp only [left, stalossLeft, probesLeft, run]
            omega
      | remove idx =>
          obtain rfl := inv.found idx run
          have went : ∃ next, hw.step .run = some next ∧ next.stalossLeft < hw.stalossLeft ∧
              next.probesLeft = (hw.setVif hw.apmVifIdx
                { vif with staList := vif.staList.erase hw.staMacAddr }).probesLeft := by
            simp only [step, stalossRun, run, there]
            refine ⟨_, rfl, ?_, rfl⟩
            simp only [stalossLeft, run, setVif]
            omega
          obtain ⟨next, went, less, removed⟩ := went
          have same : (hw.setVif hw.apmVifIdx
              { vif with staList := vif.staList.erase hw.staMacAddr }).probesLeft =
                hw.probesLeft := by
            unfold probesLeft
            refine Finset.sum_congr rfl fun n _ => ?_
            simp only [setVif]
            split
            · rename_i here
              rw [here, there]
              rfl
            · rfl
          exact ⟨.run, next, trivial, trivial, went,
            Nat.add_lt_add_of_lt_of_le less (Nat.le_of_eq (removed.trans same))⟩

/-- So can the whole. -/
theorem goes_on (inv : hw.Inv) (busy : ¬hw.Idle) : hw.GoesOn := by
  cases ind : hw.ind with
  | some place =>
      cases place with
      | storeVif idx =>
          refine ⟨.ind, { hw with apmVifIdx := idx, ind := some .queueWork }, trivial, trivial,
            by simp only [step, ind], ?_⟩
          simp only [left, stalossLeft, probesLeft, ind]
          omega
      | queueWork =>
          refine ⟨.ind, { hw with pending := true, ind := none }, trivial, trivial,
            by simp only [step, ind], ?_⟩
          simp only [left, stalossLeft, probesLeft, ind]
          split_ifs <;> omega
  | none =>
      cases run : hw.run with
      | some place => exact staloss_goes_on inv.staloss run
      | none =>
          by_cases queued : hw.pending = true
          · refine ⟨.start, { hw with pending := false, run := some .findVif }, trivial, trivial,
              by simp only [step, queued, run, and_self, if_true], ?_⟩
            simp only [left, stalossLeft, probesLeft, queued, run, if_true]
            simp
          · by_contra stuck
            refine busy ⟨Bool.eq_false_iff.mpr queued, run, ind, fun idx vif there => ?_⟩
            by_contra moves
            exact stuck (vif_goes_on there (probe_goes_on (inv.probe idx vif there) moves))

/-- From any state, what is queued and under way can come to rest. -/
theorem settles (inv : hw.Inv) :
    ∃ rest, Reachable step (fun hw l => l.Inner ∧ hw.Apart l) hw rest ∧ rest.Idle := by
  induction size : hw.left using Nat.strong_induction_on generalizing hw with
  | _ n ih =>
      by_cases idle : hw.Idle
      · exact ⟨hw, .init, idle⟩
      · obtain ⟨l, next, inner, apart, went, less⟩ := goes_on inv idle
        obtain ⟨rest, run, quiet⟩ := ih next.left (size ▸ less) (step_inv inv apart went) rfl
        exact ⟨rest, run.head l ⟨inner, apart⟩ went, quiet⟩

end Hw

/-- In every run whose requests keep apart, all that was asked for is done when nothing is queued
    or under way, and from every state of it the work that is left leads there. -/
theorem deferred_work_done (hw₀ hw : Hw) (fresh : hw₀.Fresh)
    (run : Reachable Hw.step Hw.Apart hw₀ hw) :
    (hw.Idle → hw.Done) ∧
      ∃ rest, Reachable Hw.step (fun hw l => l.Inner ∧ hw.Apart l) hw rest ∧ rest.Idle ∧
        rest.Done := by
  have inv : hw.Inv := run.invariant Hw.Inv (.fresh fresh) fun s l t inv apart went =>
    Hw.step_inv inv apart went
  obtain ⟨rest, settled, idle⟩ := Hw.settles inv
  have kept : rest.Inv := settled.invariant Hw.Inv inv fun s l t inv apart went =>
    Hw.step_inv inv apart.2 went
  exact ⟨inv.done, rest, settled, idle, kept.done idle⟩

/-! ## Requests that overtake each other -/

/-- An access point with two stations -/
def home : Hw where
  vif := fun idx =>
    if idx = 0 then some ⟨.ap, true, [1, 2], ⟨0, 0, false, none, none, [], []⟩⟩ else none
  staMacAddr := 0
  apmVifIdx := 0
  pending := false
  run := none
  ind := none
  log := []

theorem home_vif {idx : UInt8} {vif : Vif} (there : home.vif idx = some vif) :
    vif = ⟨.ap, true, [1, 2], ⟨0, 0, false, none, none, [], []⟩⟩ := by
  simp only [home] at there
  split at there
  · exact (Option.some.inj there).symm
  · cases there

theorem home_fresh : home.Fresh where
  idle := ⟨rfl, rfl, rfl, fun idx vif there => by rw [home_vif there]; exact ⟨rfl, rfl, rfl⟩⟩
  log := rfl
  nodup := fun idx vif there => by rw [home_vif there]; decide
  accepted := fun idx vif there => by rw [home_vif there]
  statuses := fun idx vif there => by rw [home_vif there]

theorem probe_next {hw next : Hw} {vif : Vif} {l : ProbeLabel}
    (reach : Reachable Hw.step Hw.Apart home hw) (there : hw.vif 0 = some vif)
    (apart : vif.ProbeApart l) (went : hw.step (.probe 0 l) = some next) :
    Reachable Hw.step Hw.Apart home next := by
  refine .next _ reach (fun v here => ?_) went
  obtain rfl := Option.some.inj (there.symm.trans here)
  exact apart

/-- A client is probed and answered, and then another station is lost and removed. -/
theorem deferred_work_done_home :
    ∃ hw vif, Reachable Hw.step Hw.Apart home hw ∧ .asked (1, 0) ∈ hw.log ∧
      AllAnswered hw.log ∧ hw.vif 0 = some vif ∧ (2, 0) ∈ vif.probe.accepted ∧
      vif.probe.Answered := by
  have asked := probe_next (l := .client 2) .init rfl ⟨rfl, fun unread => by
    rcases unread with queued | search | ⟨found, send⟩
    · cases queued
    · cases search
    · cases send⟩ rfl
  have queued := probe_next (l := .call) asked rfl (fun _ _ read _ => by cases read) rfl
  have accepted := probe_next (l := .call) queued rfl (fun _ _ _ run => by cases run) rfl
  have started := probe_next (l := .start) accepted rfl trivial rfl
  have searched := probe_next (l := .run) started rfl (fun _ _ call _ => by cases call) rfl
  have sent := probe_next (l := .run) searched rfl (fun _ _ call _ => by cases call) rfl
  have counted := probe_next (l := .run) sent rfl (fun _ _ call _ => by cases call) rfl
  have lost : Reachable Hw.step Hw.Apart home _ :=
    .next (.staloss 1 0) counted ⟨rfl, fun busy => by
      rcases busy with queued | busy
      · cases queued
      · exact absurd rfl busy⟩ rfl
  have run : Reachable Hw.step Hw.Apart home _ :=
    .next .run (.next .run (.next .start (.next .ind (.next .ind lost trivial rfl) trivial rfl)
      trivial rfl) trivial rfl) trivial rfl
  have done := (deferred_work_done home _ home_fresh run).1 (by
    refine ⟨rfl, rfl, rfl, fun idx vif there => ?_⟩
    by_cases here : idx = 0
    · subst here
      obtain rfl := Option.some.inj there
      exact ⟨rfl, rfl, rfl⟩
    · simp [Hw.setVif, here, home] at there)
  exact ⟨_, _, run, .tail _ (.head _), done.removed, rfl, .head _,
    done.answered 0 _ rfl (by decide)⟩

/-- Two stations that are lost before the work is run -/
def twoLosses : List Label :=
  [.staloss 1 0, .ind, .ind, .staloss 2 0, .ind, .ind, .start, .run, .run]

/-- Two clients that are probed before it is -/
def twoProbes : List Label :=
  [.client 1, .call, .call, .client 2, .call, .call, .start, .run, .run, .run].map (.probe 0)

/-- The second of two stations that are lost before the work is run is removed alone, and the
    second of two clients that are probed before it is answered alone. -/
theorem overtaken_requests :
    (¬∀ hw, Reachable Hw.step Free home hw → hw.Idle → AllAnswered hw.log) ∧
      ¬∀ hw, Reachable Hw.step Free home hw → hw.Idle →
        ∀ vif, hw.vif 0 = some vif → vif.probe.Answered := by
  constructor
  · intro kept
    obtain ⟨hw, ran⟩ : ∃ hw, exec Hw.step home twoLosses = some hw := ⟨_, rfl⟩
    have idle : hw.Idle := by
      obtain rfl := Option.some.inj ran
      refine ⟨rfl, rfl, rfl, fun idx vif there => ?_⟩
      rcases Hw.setVif_vif there with ⟨-, rfl⟩ | ⟨-, there⟩
      · exact ⟨rfl, rfl, rfl⟩
      · rw [home_vif there]
        exact ⟨rfl, rfl, rfl⟩
    have answered := kept hw (.exec twoLosses .init ran) idle
      [.answered (2, 0), .asked (2, 0)] [] (1, 0)
    obtain rfl := Option.some.inj ran
    exact absurd (answered rfl) (by decide)
  · intro kept
    obtain ⟨hw, ran⟩ : ∃ hw, exec Hw.step home twoProbes = some hw := ⟨_, rfl⟩
    have idle : hw.Idle := by
      obtain rfl := Option.some.inj ran
      refine ⟨rfl, rfl, rfl, fun idx vif there => ?_⟩
      by_cases here : idx = 0
      · subst here
        obtain rfl := Option.some.inj there
        exact ⟨rfl, rfl, rfl⟩
      · simp [Hw.setVif, here, home] at there
    have answered := kept hw (.exec twoProbes .init ran) idle
    obtain rfl := Option.some.inj ran
    have first := answered _ rfl (1, 0) (by decide)
    exact absurd first (by decide)

end Aic8800.Cfg.DeferredWork
