import Aic8800.Cfg.Channels
import Mathlib

/-! # Channel availability checks

The check of an interface is armed before the firmware is asked for it: the pointer to
the interface is set and the work is scheduled. The work, and whoever cancels the
check, tell the firmware to stop and wait for it in between. All steps that another
thread can see are steps here, and any number of threads can cancel.
-/

namespace Aic8800.Radar.Cac

open Lib

/-- `NX_CHAN_CTXT_CNT` -/
def nxChanCtxtCnt : UInt8 := 3

/-- `RWNX_CH_NOT_SET` -/
def rwnxChNotSet : UInt8 := 0xFF

/-- `CO_OK` -/
def coOk : Nat := 0

/-- `EIO` -/
def eio : Int := 5

/-- An interface that is checked, with the number of the call that started it. -/
structure Check where
  vif : Nat
  start : Nat
  deriving DecidableEq

/-- `enum nl80211_radar_event` -/
inductive RadarEvent where
  | cacFinished
  | cacAborted
  deriving DecidableEq

/-- How far the work is: it waits for the firmware to stop, or only has to clear the pointer. -/
inductive Work where
  | notified
  | unlinked
  deriving DecidableEq

/-- What is left to do for those who cancel. -/
inductive After where
  | close (vif : Nat) (cancelFails : Bool)
  | stopAp (vif : Nat)
  | done
  deriving DecidableEq

/-- How far a cancellation is. -/
inductive Phase where
  | stopping
  | clearing
  deriving DecidableEq

structure Cancel where
  phase : Phase
  after : After
  deriving DecidableEq

structure Hw where
  vifs : List Nat
  opened : Nat → Bool
  chIndex : Nat → UInt8
  cacVif : Option Check
  /-- The work is scheduled, by this start. -/
  pending : Option Nat
  work : Option Work
  /-- The start that waits for its confirmation. -/
  call : Option Check
  cancels : List Cancel
  /-- The number of the next start. -/
  next : Nat
  /-- What the starts returned. -/
  returned : List (Nat × Int)
  /-- What cfg80211 was told of each start. -/
  events : List (Nat × RadarEvent)
  /-- The starts whose context was given back. -/
  unlinks : List Nat
  /-- Something was used that is not there. -/
  fault : Bool

inductive Event where
  | interfaceAdd (vif : Nat)
  | open (vif : Nat)
  | remove (vif : Nat)
  | link (vif : Nat) (chIdx : UInt8)
  | startRadarDetection (vif : Nat)
  | startCacCfm (status : Nat) (chIdx : UInt8)
  | cacWork
  | cacWorkStopped
  | cacWorkDone
  | close (vif : Nat) (cancelFails : Bool)
  | stopAp (vif : Nat)
  | leaveMesh (vif : Nat)
  | radarDetected
  | cancelled (cancel : Cancel)

namespace Hw

variable (s : Hw)

def rwnxChanctxLink (vif : Nat) (chIdx : UInt8) : Hw :=
  if nxChanCtxtCnt ≤ chIdx then s
  else { s with chIndex := Function.update s.chIndex vif chIdx }

def rwnxChanctxUnlink (vif : Nat) : Hw :=
  { s with chIndex := Function.update s.chIndex vif rwnxChNotSet }

/-- `cac_vif` is used: it has to be set, and to an interface that is there. -/
def deref (use : Hw → Check → Hw) : Hw :=
  match s.cacVif with
  | none => { s with fault := true }
  | some c => use { s with fault := s.fault || !decide (c.vif ∈ s.vifs) } c

/-- The context of the interface is looked up in the table. -/
def context (c : Check) : Hw :=
  { s with fault := s.fault || decide (s.chIndex c.vif = rwnxChNotSet) }

def cfg80211CacEvent (c : Check) (event : RadarEvent) : Hw :=
  { s with events := (c.start, event) :: s.events }

/-- The interface of the check works in no context any more. -/
def giveBack (c : Check) : Hw :=
  { s.rwnxChanctxUnlink c.vif with
    unlinks := if s.chIndex c.vif = rwnxChNotSet then s.unlinks else c.start :: s.unlinks }

/-- `rwnx_radar_start_cac` and the request to the firmware. Work that is scheduled already
    is not scheduled again. -/
def rwnxCfg80211StartRadarDetection (vif : Nat) : Hw :=
  let c : Check := ⟨vif, s.next⟩
  { s with
    cacVif := some c, pending := some (s.pending.getD s.next), call := some c, next := s.next + 1 }

/-- The rest of `rwnx_cfg80211_start_radar_detection`. -/
def rwnxCfg80211StartRadarDetectionFinish (c : Check) (status : Nat) (chIdx : UInt8) : Hw :=
  if status = coOk then
    { s.rwnxChanctxLink c.vif chIdx with call := none, returned := (c.start, 0) :: s.returned }
  else { s with call := none, returned := (c.start, -eio) :: s.returned }

/-- `rwnx_radar_cac_work` up to the request to stop. -/
def rwnxRadarCacWork : Hw :=
  let s := { s with pending := none }
  if s.cacVif.isNone then s
  else
    s.deref fun s c =>
      { (s.context c).cfg80211CacEvent c .cacFinished with work := some .notified }

def rwnxRadarCacWorkStopped : Hw := { s.deref fun s c => s.giveBack c with work := some .unlinked }

def rwnxRadarCacWorkDone : Hw := { s with cacVif := none, work := none }

/-- What follows when the check is cancelled. -/
def finish (after : After) : Hw :=
  match after with
  | .close vif cancelFails =>
      let s := { s with opened := Function.update s.opened vif false }
      if cancelFails then s else s.rwnxChanctxUnlink vif
  | .stopAp vif => s.rwnxChanctxUnlink vif
  | .done => s

/-- `rwnx_radar_cancel_cac` up to the request to stop, if there is one. -/
def rwnxRadarCancelCac (after : After) : Hw :=
  if s.cacVif.isNone then s.finish after
  else if s.pending.isSome then
    s.deref fun s c =>
      { s.context c with pending := none, cancels := ⟨.stopping, after⟩ :: s.cancels }
  else { s with cancels := ⟨.clearing, after⟩ :: s.cancels }

/-- A cancellation goes on. -/
def rwnxRadarCancelCacNext (cancel : Cancel) : Hw :=
  let s := { s with cancels := s.cancels.erase cancel }
  match cancel.phase with
  | .stopping =>
      { s.deref fun s c => (s.cfg80211CacEvent c .cacAborted).giveBack c with
        cancels := ⟨.clearing, cancel.after⟩ :: s.cancels }
  | .clearing => { s with cacVif := none }.finish cancel.after

def step (e : Event) : Option Hw :=
  match e with
  | .interfaceAdd vif =>
      if vif ∉ s.vifs then
        some { s with
          vifs := vif :: s.vifs
          opened := Function.update s.opened vif false
          chIndex := Function.update s.chIndex vif rwnxChNotSet }
      else none
  | .open vif =>
      if vif ∈ s.vifs then some { s with opened := Function.update s.opened vif true } else none
  | .remove vif =>
      if vif ∈ s.vifs ∧ s.opened vif = false then some { s with vifs := s.vifs.erase vif }
      else none
  | .link vif chIdx => if vif ∈ s.vifs then some (s.rwnxChanctxLink vif chIdx) else none
  | .startRadarDetection vif =>
      if s.call = none ∧ vif ∈ s.vifs ∧ s.opened vif = true then
        some (s.rwnxCfg80211StartRadarDetection vif)
      else none
  | .startCacCfm status chIdx =>
      s.call.map fun c => s.rwnxCfg80211StartRadarDetectionFinish c status chIdx
  | .cacWork => if s.pending.isSome ∧ s.work = none then some s.rwnxRadarCacWork else none
  | .cacWorkStopped => if s.work = some .notified then some s.rwnxRadarCacWorkStopped else none
  | .cacWorkDone => if s.work = some .unlinked then some s.rwnxRadarCacWorkDone else none
  | .close vif cancelFails =>
      if vif ∈ s.vifs ∧ s.opened vif = true then
        some (s.rwnxRadarCancelCac (.close vif cancelFails))
      else none
  | .stopAp vif => if vif ∈ s.vifs then some (s.rwnxRadarCancelCac (.stopAp vif)) else none
  | .leaveMesh vif =>
      if vif ∈ s.vifs then some ((s.rwnxChanctxUnlink vif).rwnxRadarCancelCac .done) else none
  | .radarDetected => some (s.rwnxRadarCancelCac .done)
  | .cancelled cancel =>
      if cancel ∈ s.cancels then some (s.rwnxRadarCancelCacNext cancel) else none

/-- What cfg80211 was told of a start. -/
def eventsOf (start : Nat) : List RadarEvent :=
  (s.events.filter fun e => e.1 == start).map Prod.snd

end Hw

def init : Hw where
  vifs := []
  opened := fun _ => false
  chIndex := fun _ => rwnxChNotSet
  cacVif := none
  pending := none
  work := none
  call := none
  cancels := []
  next := 0
  returned := []
  events := []
  unlinks := []
  fault := false

/-- A start that returned 0 has had exactly one event, and its context was given back once,
    when the pointer does not lead to its check any more, and neither of them twice before. -/
def Served (s : Hw) : Prop :=
  ∀ r ∈ s.returned, r.2 = 0 →
    if ∃ c ∈ s.cacVif, c.start = r.1 then
      (s.eventsOf r.1).length ≤ 1 ∧ s.unlinks.count r.1 ≤ 1
    else (s.eventsOf r.1).length = 1 ∧ s.unlinks.count r.1 = 1

/-- Nothing is left of a start that returned an error. -/
def Refused (s : Hw) : Prop :=
  ∀ r ∈ s.returned, r.2 ≠ 0 →
    s.eventsOf r.1 = [] ∧ s.unlinks.count r.1 = 0 ∧ s.pending ≠ some r.1 ∧
      ∀ c ∈ s.cacVif, c.start ≠ r.1

/-- The pointer leads to an interface that is there and works in a context, and the work
    is scheduled or runs. -/
def Armed (s : Hw) : Prop :=
  ∀ c ∈ s.cacVif, (s.pending.isSome ∨ s.work.isSome) ∧ c.vif ∈ s.vifs ∧
    s.chIndex c.vif ≠ rwnxChNotSet

/-- Nobody is in the middle of a start or a cancellation, or about to clear the pointer. -/
def Hw.Settled (s : Hw) : Prop := s.call = none ∧ s.cancels = [] ∧ s.work ≠ some .unlinked

/-- If there is a check, then it can be cancelled: its start has returned, and nobody waits
    for the firmware to stop it. -/
def Hw.Cancellable (s : Hw) : Prop :=
  s.cacVif = none ∨
    s.call = none ∧ s.work ≠ some .notified ∧ ∀ c ∈ s.cancels, c.phase ≠ .stopping

/-- The steps that keep the checks sound.
    - A check is started when there is none, and none is about to be cleared.
    - The firmware accepts it, in a context of the table, and does so before it expires.
    - It is cancelled only when it is not being started or stopped.
    - The interface that leaves a mesh is not the one that is checked. -/
def Kept (s : Hw) : Event → Prop
  | .startRadarDetection _ => s.cacVif = none ∧ s.cancels = [] ∧ s.work = none
  | .startCacCfm status chIdx => status = coOk ∧ chIdx < nxChanCtxtCnt
  | .cacWork => s.call = none
  | .close _ _ | .stopAp _ | .radarDetected => s.Cancellable
  | .leaveMesh vif => s.Cancellable ∧ ∀ c ∈ s.cacVif, c.vif ≠ vif
  | _ => True

/-! ## The invariant -/

/-- How far a check is, before its context is given back. -/
inductive Stage where
  | waiting
  | armed
  | finishing
  | aborting (after : After)

/-- What is known at each stage. -/
def Hw.At (s : Hw) (c : Check) : Stage → Prop
  | .waiting =>
      s.call = some c ∧ s.pending = some c.start ∧ s.work = none ∧ s.cancels = [] ∧
        s.eventsOf c.start = [] ∧ ∀ r ∈ s.returned, r.1 ≠ c.start
  | .armed =>
      s.call = none ∧ s.pending = some c.start ∧ s.work = none ∧ s.cancels = [] ∧
        s.eventsOf c.start = [] ∧ s.chIndex c.vif ≠ rwnxChNotSet
  | .finishing =>
      s.call = none ∧ s.pending = none ∧ s.work = some .notified ∧ s.cancels = [] ∧
        s.eventsOf c.start = [.cacFinished] ∧ s.chIndex c.vif ≠ rwnxChNotSet
  | .aborting after =>
      s.call = none ∧ s.pending = none ∧ s.work = none ∧ s.cancels = [⟨.stopping, after⟩] ∧
        s.eventsOf c.start = [] ∧ s.chIndex c.vif ≠ rwnxChNotSet

/-- There is a check. -/
structure Live (s : Hw) (c : Check) (stage : Stage) : Prop where
  pointer : s.cacVif = some c
  present : c.vif ∈ s.vifs
  opened : s.opened c.vif = true
  fresh : c.start < s.next
  kept : s.unlinks.count c.start = 0
  stage : s.At c stage

/-- There is no check, though the pointer may still have to be cleared. -/
structure Idle (s : Hw) : Prop where
  call : s.call = none
  pending : s.pending = none
  cancels : ∀ c ∈ s.cancels, c.phase = .clearing
  work : s.work ≠ some .notified
  pointer : s.cacVif = none ∨ s.cancels ≠ [] ∨ s.work = some .unlinked

/-- A start that has had its event, and has given back its context. -/
def Hw.Done (s : Hw) (start : Nat) : Prop :=
  (s.eventsOf start).length = 1 ∧ s.unlinks.count start = 1

structure Inv (s : Hw) : Prop where
  running : s.fault = false
  check : Idle s ∨ ∃ c stage, Live s c stage
  served : ∀ r ∈ s.returned, r.2 = 0 ∧ r.1 < s.next ∧
    (s.Done r.1 ∨ ∃ c stage, Live s c stage ∧ c.start = r.1)
  /-- Starts are numbered as they come. -/
  told : ∀ e ∈ s.events, e.1 < s.next
  given : ∀ start ∈ s.unlinks, start < s.next

section Steps

variable {s t : Hw} {c : Check} {stage : Stage}

/-- A check that is live is not idle. -/
theorem Live.not_idle (live : Live s c stage) : ¬ Idle s := by
  intro idle
  have at_ := live.stage
  cases stage with
  | waiting => cases idle.call.symm.trans at_.1
  | armed => cases idle.pending.symm.trans at_.2.1
  | finishing => exact idle.work at_.2.2.1
  | aborting after =>
      have clearing := idle.cancels ⟨.stopping, after⟩ (by simp [at_.2.2.2.1])
      cases clearing

theorem Live.unique (live : Live s c stage) {c' : Check} {stage' : Stage}
    (live' : Live s c' stage') : c' = c :=
  Option.some.inj (live'.pointer.symm.trans live.pointer)

/-- Without a check every start that has returned is done. -/
theorem Inv.done (h : Inv s) (idle : Idle s) : ∀ r ∈ s.returned, r.2 = 0 ∧ r.1 < s.next ∧ s.Done r.1 := by
  intro r member
  obtain ⟨good, fresh, done | ⟨c, stage, live, _⟩⟩ := h.served r member
  · exact ⟨good, fresh, done⟩
  · cases live.not_idle idle

/-- There was no check, and there is none. -/
theorem Inv.settle (h : Inv s) (idle : Idle s) (idle' : Idle t) (running : t.fault = false)
    (next : t.next = s.next) (returned : t.returned = s.returned) (events : t.events = s.events)
    (unlinks : t.unlinks = s.unlinks) : Inv t := by
  constructor
  · exact running
  · exact .inl idle'
  · intro r member
    rw [returned] at member
    obtain ⟨good, fresh, done⟩ := h.done idle r member
    refine ⟨good, next ▸ fresh, .inl ?_⟩
    unfold Hw.Done Hw.eventsOf at done ⊢
    rwa [events, unlinks]
  · rw [events, next]
    exact h.told
  · rw [unlinks, next]
    exact h.given

/-- The check goes on, or it is done. -/
theorem Inv.advance (h : Inv s) (live : Live s c stage) (running : t.fault = false)
    (next : t.next = s.next) (returned : ∀ r ∈ t.returned, r ∈ s.returned ∨ r = (c.start, 0))
    (events : ∀ e ∈ t.events, e ∈ s.events ∨ e.1 = c.start)
    (unlinks : ∀ start ∈ t.unlinks, start ∈ s.unlinks ∨ start = c.start)
    (others : ∀ start, start ≠ c.start → s.Done start → t.Done start)
    (after : (∃ stage, Live t c stage) ∨ Idle t ∧ t.Done c.start) : Inv t := by
  have its : t.Done c.start ∨ ∃ c' stage, Live t c' stage ∧ c'.start = c.start := by
    obtain ⟨stage, live⟩ | ⟨_, done⟩ := after
    · exact .inr ⟨c, stage, live, rfl⟩
    · exact .inl done
  constructor
  · exact running
  · obtain ⟨stage, live⟩ | ⟨idle, _⟩ := after
    · exact .inr ⟨c, stage, live⟩
    · exact .inl idle
  · intro r member
    rw [next]
    obtain earlier | rfl := returned r member
    · obtain ⟨good, fresh, done | ⟨c', stage', live', same⟩⟩ := h.served r earlier
      · have apart : r.1 ≠ c.start := by
          intro same
          cases live.kept.symm.trans (same ▸ done.2)
        exact ⟨good, fresh, .inl (others _ apart done)⟩
      · obtain rfl := live.unique live'
        exact ⟨good, fresh, same ▸ its⟩
    · exact ⟨rfl, live.fresh, its⟩
  · intro e member
    rw [next]
    obtain earlier | same := events e member
    · exact h.told e earlier
    · exact same ▸ live.fresh
  · intro start member
    rw [next]
    obtain earlier | rfl := unlinks start member
    · exact h.given start earlier
    · exact live.fresh

/-- What happens to the other interfaces, and does not take away that of the check, its being
    open or its context. -/
theorem Inv.interfaces (h : Inv s) {vifs : List Nat} {opened : Nat → Bool} {chIndex : Nat → UInt8}
    (keep : ∀ c ∈ s.cacVif, c.vif ∈ s.vifs → s.opened c.vif = true →
      c.vif ∈ vifs ∧ opened c.vif = true ∧
        (s.chIndex c.vif ≠ rwnxChNotSet → chIndex c.vif ≠ rwnxChNotSet)) :
    Inv { s with vifs := vifs, opened := opened, chIndex := chIndex } := by
  obtain idle | ⟨c, stage, live⟩ := h.check
  · exact h.settle idle { idle with } h.running rfl rfl rfl rfl
  · obtain ⟨present, opened, context⟩ := keep c live.pointer live.present live.opened
    apply h.advance live
    · exact h.running
    · rfl
    · exact fun _ member => .inl member
    · exact fun _ member => .inl member
    · exact fun _ member => .inl member
    · exact fun _ _ done => done
    · have known := live.stage
      cases stage with
      | waiting => exact .inl ⟨.waiting, live.pointer, present, opened, live.fresh, live.kept, known⟩
      | armed =>
          obtain ⟨called, scheduled, running, cancelled, told, linked⟩ := known
          exact .inl ⟨.armed, live.pointer, present, opened, live.fresh, live.kept,
            called, scheduled, running, cancelled, told, context linked⟩
      | finishing =>
          obtain ⟨called, scheduled, running, cancelled, told, linked⟩ := known
          exact .inl ⟨.finishing, live.pointer, present, opened, live.fresh, live.kept,
            called, scheduled, running, cancelled, told, context linked⟩
      | aborting after =>
          obtain ⟨called, scheduled, running, cancelled, told, linked⟩ := known
          exact .inl ⟨.aborting after, live.pointer, present, opened, live.fresh, live.kept,
            called, scheduled, running, cancelled, told, context linked⟩

theorem Inv.interfaceAdd (h : Inv s) {vif : Nat} (fresh : vif ∉ s.vifs) :
    Inv { s with
      vifs := vif :: s.vifs
      opened := Function.update s.opened vif false
      chIndex := Function.update s.chIndex vif rwnxChNotSet } := by
  apply h.interfaces
  intro c _ present opened
  have apart : c.vif ≠ vif := by
    rintro rfl
    exact fresh present
  rw [Function.update_of_ne apart, Function.update_of_ne apart]
  exact ⟨List.mem_cons_of_mem _ present, opened, id⟩

theorem Inv.open (h : Inv s) {vif : Nat} :
    Inv { s with opened := Function.update s.opened vif true } := by
  apply h.interfaces
  intro c _ present opened
  refine ⟨present, ?_, id⟩
  by_cases same : c.vif = vif
  · subst same
    exact Function.update_self ..
  · exact (Function.update_of_ne same ..).trans opened

theorem Inv.remove (h : Inv s) {vif : Nat} (shut : s.opened vif = false) :
    Inv { s with vifs := s.vifs.erase vif } := by
  apply h.interfaces
  intro c _ present opened
  have apart : c.vif ≠ vif := by
    rintro rfl
    cases shut.symm.trans opened
  exact ⟨(List.mem_erase_of_ne apart).mpr present, opened, id⟩

theorem range_set {chIdx : UInt8} (range : chIdx < nxChanCtxtCnt) : chIdx ≠ rwnxChNotSet := by
  rintro rfl
  revert range
  decide

theorem Inv.link (h : Inv s) {vif : Nat} {chIdx : UInt8} : Inv (s.rwnxChanctxLink vif chIdx) := by
  unfold Hw.rwnxChanctxLink
  split
  · exact h
  · rename_i accepted
    have range : chIdx < nxChanCtxtCnt := by simpa using accepted
    apply h.interfaces
    intro c _ present opened
    refine ⟨present, opened, ?_⟩
    intro linked
    by_cases same : c.vif = vif
    · rw [same, Function.update_self]
      exact range_set range
    · rwa [Function.update_of_ne same]

/-- An interface that is not checked leaves its context. -/
theorem Inv.unlink (h : Inv s) {vif : Nat} (apart : ∀ c ∈ s.cacVif, c.vif ≠ vif) :
    Inv (s.rwnxChanctxUnlink vif) := by
  apply h.interfaces
  intro c its present opened
  rw [Function.update_of_ne (apart c its)]
  exact ⟨present, opened, id⟩

/-- What follows a cancellation is about an interface that is not checked. -/
theorem Inv.finish (h : Inv s) (none : s.cacVif = none) {after : After} : Inv (s.finish after) := by
  have noCheck : ∀ c ∈ s.cacVif, False := by
    intro c its
    cases none.symm.trans its
  cases after with
  | close vif cancelFails =>
      have shut : Inv { s with opened := Function.update s.opened vif false } := by
        apply h.interfaces
        intro c its
        cases noCheck c its
      cases cancelFails with
      | true => exact shut
      | false => exact shut.unlink fun c its => (noCheck c its).elim
  | stopAp vif => exact h.unlink fun c its => (noCheck c its).elim
  | done => exact h

theorem Inv.start (h : Inv s) {vif : Nat} (here : vif ∈ s.vifs) (up : s.opened vif = true)
    (kept : Kept s (.startRadarDetection vif)) :
    Inv (s.rwnxCfg80211StartRadarDetection vif) := by
  obtain ⟨clear, cancels, work⟩ := kept
  obtain idle | ⟨c, stage, live⟩ := h.check
  · have quiet : s.eventsOf s.next = [] := by
      unfold Hw.eventsOf
      rw [List.map_eq_nil_iff, List.filter_eq_nil_iff]
      intro e member
      have := h.told e member
      simp only [beq_iff_eq]
      omega
    have unlinks : s.unlinks.count s.next = 0 := by
      rw [List.count_eq_zero]
      intro member
      exact absurd (h.given _ member) (lt_irrefl _)
    have scheduled : some (s.pending.getD s.next) = some s.next := by
      rw [idle.pending]
      rfl
    constructor
    · exact h.running
    · refine .inr ⟨⟨vif, s.next⟩, .waiting, rfl, here, up, Nat.lt_succ_self _, unlinks, rfl, scheduled,
        work, cancels, quiet, ?_⟩
      intro r member
      exact Nat.ne_of_lt (h.done idle r member).2.1
    · intro r member
      obtain ⟨good, fresh, done⟩ := h.done idle r member
      exact ⟨good, Nat.lt_succ_of_lt fresh, .inl done⟩
    · intro e member
      exact Nat.lt_succ_of_lt (h.told e member)
    · intro start member
      exact Nat.lt_succ_of_lt (h.given start member)
  · cases clear.symm.trans live.pointer

/-- The firmware has accepted the check. -/
theorem Inv.accepted (h : Inv s) {status : Nat} {chIdx : UInt8} (waits : s.call = some c)
    (kept : Kept s (.startCacCfm status chIdx)) :
    Inv (s.rwnxCfg80211StartRadarDetectionFinish c status chIdx) := by
  obtain ⟨good, range⟩ := kept
  obtain idle | ⟨c', stage, live⟩ := h.check
  · cases idle.call.symm.trans waits
  · cases stage with
    | waiting =>
        obtain ⟨called, scheduled, work, cancels, quiet, _⟩ := live.stage
        obtain rfl := Option.some.inj (called.symm.trans waits)
        unfold Hw.rwnxCfg80211StartRadarDetectionFinish Hw.rwnxChanctxLink
        rw [if_pos good, if_neg (by simpa using range)]
        apply h.advance live
        · exact h.running
        · rfl
        · intro r member
          rcases List.mem_cons.mp member with rfl | earlier
          · exact .inr rfl
          · exact .inl earlier
        · exact fun _ member => .inl member
        · exact fun _ member => .inl member
        · exact fun _ _ done => done
        · have linked : Function.update s.chIndex c'.vif chIdx c'.vif ≠ rwnxChNotSet := by
            rw [Function.update_self]
            exact range_set range
          exact .inl ⟨.armed, live.pointer, live.present, live.opened, live.fresh, live.kept, rfl,
            scheduled, work, cancels, quiet, linked⟩
    | armed | finishing | aborting => cases live.stage.1.symm.trans waits

theorem eventsOf_cons_same {start : Nat} {event : RadarEvent} :
    Hw.eventsOf { s with events := (start, event) :: s.events } start = event :: s.eventsOf start := by
  simp [Hw.eventsOf]

/-- The check has had its event, and its context is given back once. -/
theorem Live.count (live : Live s c stage) : (c.start :: s.unlinks).count c.start = 1 := by
  rw [List.count_cons_self, live.kept]

/-- The work has begun: the check is over before long. -/
theorem Inv.cacWork (h : Inv s) (scheduled : s.pending.isSome) (kept : Kept s .cacWork) :
    Inv s.rwnxRadarCacWork := by
  obtain idle | ⟨c, stage, live⟩ := h.check
  · rw [idle.pending] at scheduled
    cases scheduled
  · cases stage with
    | armed =>
        obtain ⟨called, _, work, cancels, quiet, linked⟩ := live.stage
        have present : decide (c.vif ∈ s.vifs) = true := decide_eq_true live.present
        have told : Hw.eventsOf { s with events := (c.start, .cacFinished) :: s.events } c.start =
            [.cacFinished] := by
          rw [eventsOf_cons_same, quiet]
        unfold Hw.rwnxRadarCacWork Hw.deref Hw.context Hw.cfg80211CacEvent
        simp only [live.pointer, Option.isNone_some, Bool.false_eq_true, if_false, present, linked,
          decide_false, Bool.not_true, Bool.or_false]
        apply h.advance live
        · exact h.running
        · rfl
        · exact fun _ member => .inl member
        · intro e member
          rcases List.mem_cons.mp member with rfl | earlier
          · exact .inr rfl
          · exact .inl earlier
        · exact fun _ member => .inl member
        · intro start apart done
          unfold Hw.Done Hw.eventsOf at done ⊢
          simpa [List.filter_cons, Ne.symm apart] using done
        · exact .inl ⟨.finishing, rfl, live.present, live.opened, live.fresh, live.kept, called, rfl,
            rfl, cancels, told, linked⟩
    | waiting => cases kept.symm.trans live.stage.1
    | finishing => cases live.stage.2.1 ▸ scheduled
    | aborting after => cases live.stage.2.1 ▸ scheduled

/-- The work gives back the context. -/
theorem Inv.cacWorkStopped (h : Inv s) (running : s.work = some .notified) :
    Inv s.rwnxRadarCacWorkStopped := by
  obtain idle | ⟨c, stage, live⟩ := h.check
  · cases idle.work running
  · cases stage with
    | finishing =>
        obtain ⟨called, pending, _, cancels, told, linked⟩ := live.stage
        have present : decide (c.vif ∈ s.vifs) = true := decide_eq_true live.present
        unfold Hw.rwnxRadarCacWorkStopped Hw.deref Hw.giveBack Hw.rwnxChanctxUnlink
        simp only [live.pointer, present, linked, if_false, Bool.not_true, Bool.or_false]
        apply h.advance live
        · exact h.running
        · rfl
        · exact fun _ member => .inl member
        · exact fun _ member => .inl member
        · intro start member
          exact (List.mem_cons.mp member).symm
        · intro start apart done
          refine ⟨done.1, ?_⟩
          exact (List.count_cons_of_ne apart.symm ..).trans done.2
        · refine .inr ⟨⟨called, pending, ?_, ?_, .inr (.inr rfl)⟩, ?_, live.count⟩
          · intro cancel member
            rw [cancels] at member
            cases member
          · intro wrong
            cases wrong
          · exact congrArg List.length told
    | waiting => cases live.stage.2.2.1.symm.trans running
    | armed => cases live.stage.2.2.1.symm.trans running
    | aborting after => cases live.stage.2.2.1.symm.trans running

theorem Inv.cacWorkDone (h : Inv s) (running : s.work = some .unlinked) :
    Inv s.rwnxRadarCacWorkDone := by
  obtain idle | ⟨c, stage, live⟩ := h.check
  · have still : Idle s.rwnxRadarCacWorkDone :=
      ⟨idle.call, idle.pending, idle.cancels, fun wrong => (by cases wrong), .inl rfl⟩
    exact h.settle idle still h.running rfl rfl rfl rfl
  · cases stage with
    | waiting | armed | finishing | aborting => cases live.stage.2.2.1.symm.trans running

theorem Inv.cancelCac (h : Inv s) (kept : s.Cancellable) {after : After} :
    Inv (s.rwnxRadarCancelCac after) := by
  unfold Hw.rwnxRadarCancelCac
  obtain idle | ⟨c, stage, live⟩ := h.check
  · obtain none | ⟨c, set⟩ := Option.eq_none_or_eq_some s.cacVif
    · rw [if_pos (by simp [none])]
      exact h.finish none
    · rw [if_neg (by simp [set]), if_neg (by simp [idle.pending])]
      have still : Idle { s with cancels := ⟨.clearing, after⟩ :: s.cancels } := by
        refine ⟨idle.call, idle.pending, ?_, idle.work, .inr (.inl (List.cons_ne_nil _ _))⟩
        intro cancel member
        rcases List.mem_cons.mp member with rfl | earlier
        · rfl
        · exact idle.cancels cancel earlier
      exact h.settle idle still h.running rfl rfl rfl rfl
  · obtain none | ⟨called, notStopping, cancels⟩ := kept
    · cases none.symm.trans live.pointer
    · cases stage with
      | armed =>
          obtain ⟨_, scheduled, work, none, quiet, linked⟩ := live.stage
          have present : decide (c.vif ∈ s.vifs) = true := decide_eq_true live.present
          unfold Hw.deref Hw.context
          simp only [live.pointer, scheduled, Option.isNone_some, Option.isSome_some,
            Bool.false_eq_true, if_false, if_true, present, linked, decide_false, Bool.not_true,
            Bool.or_false, none]
          apply h.advance live
          · exact h.running
          · rfl
          · exact fun _ member => .inl member
          · exact fun _ member => .inl member
          · exact fun _ member => .inl member
          · exact fun _ _ done => done
          · exact .inl ⟨.aborting after, rfl, live.present, live.opened, live.fresh, live.kept, called,
              rfl, work, rfl, quiet, linked⟩
      | waiting => cases called.symm.trans live.stage.1
      | finishing => cases notStopping live.stage.2.2.1
      | aborting other =>
          have member : ⟨.stopping, other⟩ ∈ s.cancels := by simp [live.stage.2.2.2.1]
          cases cancels _ member rfl

/-- The check was stopped for a cancellation, and gives back its context. -/
theorem Inv.cancelStopped (h : Inv s) {after : After} (member : ⟨.stopping, after⟩ ∈ s.cancels) :
    Inv (s.rwnxRadarCancelCacNext ⟨.stopping, after⟩) := by
  obtain idle | ⟨c, stage, live⟩ := h.check
  · cases idle.cancels _ member
  · cases stage with
    | aborting other =>
        obtain ⟨called, pending, work, cancels, quiet, linked⟩ := live.stage
        rw [cancels, List.mem_singleton] at member
        cases member
        have present : decide (c.vif ∈ s.vifs) = true := decide_eq_true live.present
        have told : Hw.eventsOf { s with events := (c.start, .cacAborted) :: s.events } c.start =
            [.cacAborted] := by
          rw [eventsOf_cons_same, quiet]
        unfold Hw.rwnxRadarCancelCacNext Hw.deref Hw.cfg80211CacEvent Hw.giveBack Hw.rwnxChanctxUnlink
        simp only [live.pointer, present, linked, if_false, Bool.not_true, Bool.or_false, cancels,
          List.erase_cons_head]
        apply h.advance live
        · exact h.running
        · rfl
        · exact fun _ member => .inl member
        · intro e member
          rcases List.mem_cons.mp member with rfl | earlier
          · exact .inr rfl
          · exact .inl earlier
        · intro start member
          exact (List.mem_cons.mp member).symm
        · intro start apart done
          unfold Hw.Done Hw.eventsOf at done ⊢
          simpa [List.filter_cons, Ne.symm apart] using done
        · refine .inr ⟨⟨called, pending, ?_, ?_, .inr (.inl (List.cons_ne_nil _ _))⟩, ?_, live.count⟩
          · intro cancel member
            rw [List.mem_singleton] at member
            subst member
            rfl
          · intro running
            cases work.symm.trans running
          · exact congrArg List.length told
    | waiting => simp [live.stage.2.2.2.1] at member
    | armed => simp [live.stage.2.2.2.1] at member
    | finishing => simp [live.stage.2.2.2.1] at member

/-- The pointer is cleared, and whoever cancelled goes on. -/
theorem Inv.cancelCleared (h : Inv s) {after : After} (member : ⟨.clearing, after⟩ ∈ s.cancels) :
    Inv (s.rwnxRadarCancelCacNext ⟨.clearing, after⟩) := by
  obtain idle | ⟨c, stage, live⟩ := h.check
  · have still : Idle { s with cancels := s.cancels.erase ⟨.clearing, after⟩, cacVif := none } := by
      refine ⟨idle.call, idle.pending, ?_, idle.work, .inl rfl⟩
      intro cancel left
      exact idle.cancels cancel (List.mem_of_mem_erase left)
    have cleared : Inv { s with cancels := s.cancels.erase ⟨.clearing, after⟩, cacVif := none } :=
      h.settle idle still h.running rfl rfl rfl rfl
    exact cleared.finish rfl
  · cases stage with
    | waiting => simp [live.stage.2.2.2.1] at member
    | armed => simp [live.stage.2.2.2.1] at member
    | finishing => simp [live.stage.2.2.2.1] at member
    | aborting other => simp [live.stage.2.2.2.1] at member

end Steps

theorem inv_init : Inv init := by
  constructor
  · rfl
  · exact .inl ⟨rfl, rfl, fun _ member => (by cases member), fun wrong => (by cases wrong), .inl rfl⟩
  · exact fun _ member => (by cases member)
  · exact fun _ member => (by cases member)
  · exact fun _ member => (by cases member)

theorem Inv.step {s t : Hw} {e : Event} (h : Inv s) (kept : Kept s e) (taken : s.step e = some t) :
    Inv t := by
  cases e with
  | interfaceAdd vif =>
      simp only [Hw.step, Option.ite_none_right_eq_some, Option.some.injEq] at taken
      obtain ⟨fresh, rfl⟩ := taken
      exact h.interfaceAdd fresh
  | «open» vif =>
      simp only [Hw.step, Option.ite_none_right_eq_some, Option.some.injEq] at taken
      obtain ⟨_, rfl⟩ := taken
      exact h.open
  | remove vif =>
      simp only [Hw.step, Option.ite_none_right_eq_some, Option.some.injEq] at taken
      obtain ⟨⟨_, shut⟩, rfl⟩ := taken
      exact h.remove shut
  | link vif chIdx =>
      simp only [Hw.step, Option.ite_none_right_eq_some, Option.some.injEq] at taken
      obtain ⟨_, rfl⟩ := taken
      exact h.link
  | startRadarDetection vif =>
      simp only [Hw.step, Option.ite_none_right_eq_some, Option.some.injEq] at taken
      obtain ⟨⟨_, here, up⟩, rfl⟩ := taken
      exact h.start here up kept
  | startCacCfm status chIdx =>
      obtain ⟨c, waits, rfl⟩ := Option.map_eq_some_iff.mp taken
      exact h.accepted waits kept
  | cacWork =>
      simp only [Hw.step, Option.ite_none_right_eq_some, Option.some.injEq] at taken
      obtain ⟨⟨scheduled, _⟩, rfl⟩ := taken
      exact h.cacWork scheduled kept
  | cacWorkStopped =>
      simp only [Hw.step, Option.ite_none_right_eq_some, Option.some.injEq] at taken
      obtain ⟨running, rfl⟩ := taken
      exact h.cacWorkStopped running
  | cacWorkDone =>
      simp only [Hw.step, Option.ite_none_right_eq_some, Option.some.injEq] at taken
      obtain ⟨running, rfl⟩ := taken
      exact h.cacWorkDone running
  | close vif cancelFails =>
      simp only [Hw.step, Option.ite_none_right_eq_some, Option.some.injEq] at taken
      obtain ⟨_, rfl⟩ := taken
      exact h.cancelCac kept
  | stopAp vif =>
      simp only [Hw.step, Option.ite_none_right_eq_some, Option.some.injEq] at taken
      obtain ⟨_, rfl⟩ := taken
      exact h.cancelCac kept
  | leaveMesh vif =>
      simp only [Hw.step, Option.ite_none_right_eq_some, Option.some.injEq] at taken
      obtain ⟨_, rfl⟩ := taken
      exact (h.unlink kept.2).cancelCac kept.1
  | radarDetected =>
      obtain rfl := Option.some.inj taken
      exact h.cancelCac kept
  | cancelled cancel =>
      simp only [Hw.step, Option.ite_none_right_eq_some, Option.some.injEq] at taken
      obtain ⟨member, rfl⟩ := taken
      obtain ⟨phase, after⟩ := cancel
      cases phase with
      | stopping => exact h.cancelStopped member
      | clearing => exact h.cancelCleared member

theorem Inv.cleared {s : Hw} (h : Inv s) (settled : s.Settled) : Armed s := by
  intro c its
  obtain ⟨called, cancels, work⟩ := settled
  obtain idle | ⟨c', stage, live⟩ := h.check
  · obtain none | waits | clearing := idle.pointer
    · cases none.symm.trans its
    · cases waits cancels
    · cases work clearing
  · obtain rfl := Option.some.inj (live.pointer.symm.trans its)
    cases stage with
    | waiting => cases called.symm.trans live.stage.1
    | armed =>
        obtain ⟨_, scheduled, _, _, _, linked⟩ := live.stage
        exact ⟨.inl (by simp [scheduled]), live.present, linked⟩
    | finishing =>
        obtain ⟨_, _, running, _, _, linked⟩ := live.stage
        exact ⟨.inr (by simp [running]), live.present, linked⟩
    | aborting after => cases cancels.symm.trans live.stage.2.2.2.1

/-- There is at most one event of a check that is live. -/
theorem Live.events {s : Hw} {c : Check} {stage : Stage} (live : Live s c stage) :
    (s.eventsOf c.start).length ≤ 1 := by
  have known := live.stage
  cases stage with
  | waiting => simp [known.2.2.2.2.1]
  | armed => simp [known.2.2.2.2.1]
  | finishing => simp [known.2.2.2.2.1]
  | aborting after => simp [known.2.2.2.2.1]

theorem Inv.refused {s : Hw} (h : Inv s) : Refused s := by
  intro r member failed
  cases failed (h.served r member).1

instance (s : Hw) : Decidable s.Cancellable := inferInstanceAs (Decidable (_ ∨ _ ∧ _ ∧ _))

instance (s : Hw) (e : Event) : Decidable (Kept s e) :=
  match e with
  | .startRadarDetection _ => inferInstanceAs (Decidable (_ ∧ _ ∧ _))
  | .startCacCfm _ _ => inferInstanceAs (Decidable (_ ∧ _))
  | .cacWork => inferInstanceAs (Decidable (_ = _))
  | .close _ _ | .stopAp _ | .radarDetected => inferInstanceAs (Decidable s.Cancellable)
  | .leaveMesh _ => inferInstanceAs (Decidable (s.Cancellable ∧ ∀ c ∈ s.cacVif, _))
  | .interfaceAdd _ | .open _ | .remove _ | .link _ _ | .cacWorkStopped | .cacWorkDone
  | .cancelled _ => inferInstanceAs (Decidable True)

/-- The check, and the contexts of the interfaces, are the same in both models. -/
structure Agree (s : Hw) (h : Cfg.Channels.Hw) : Prop where
  pointer : s.cacVif.map Check.vif = h.cacVif
  work : s.pending.isSome = h.cacWork
  chIndex : s.chIndex = h.chIndex
  fault : s.fault = h.fault

/-- The interface that is checked is there, and its index is one that is handed out. -/
def Hw.Proper (s : Hw) : Prop :=
  ∀ c ∈ s.cacVif, c.vif ∈ s.vifs ∧
    (s.chIndex c.vif < nxChanCtxtCnt ∨ s.chIndex c.vif = rwnxChNotSet)

section Pieces

variable {s t : Hw} {h : Cfg.Channels.Hw} {c : Check}

open Cfg.Channels.Hw in
/-- The context is given back, as when the interface is unlinked in one step. -/
theorem Agree.unlinked (agree : Agree s h)
    (range : s.chIndex c.vif < nxChanCtxtCnt ∨ s.chIndex c.vif = rwnxChNotSet)
    (gone : t.cacVif = none) (pending : t.pending = none)
    (chIndex : t.chIndex = Function.update s.chIndex c.vif rwnxChNotSet)
    (fault : t.fault = (s.fault || decide (s.chIndex c.vif = rwnxChNotSet))) :
    Agree t { (h.index (h.chIndex c.vif)).rwnxChanctxUnlink c.vif with
      cacWork := false, cacVif := none } where
  pointer := by
    rw [gone]
    rfl
  work := by
    rw [pending]
    rfl
  chIndex := by
    rw [chIndex, agree.chIndex]
    unfold rwnxChanctxUnlink
    split
    · rename_i notSet
      have same : h.chIndex c.vif = rwnxChNotSet := notSet
      rw [← same, Function.update_eq_self]
      rfl
    · rfl
  fault := by
    rw [fault, agree.chIndex, agree.fault]
    rw [agree.chIndex] at range
    unfold rwnxChanctxUnlink
    have outside : decide (h.chIndex c.vif = rwnxChNotSet) =
        decide (Cfg.Channels.nxChanCtxtCnt ≤ h.chIndex c.vif) := by
      rcases range with inside | notSet
      · rw [decide_eq_false (range_set inside), (decide_eq_false (UInt8.not_le.mpr inside) :
          decide (Cfg.Channels.nxChanCtxtCnt ≤ h.chIndex c.vif) = false)]
      · rw [notSet]
        rfl
    rw [outside]
    split
    · rfl
    · show _ = (h.fault || decide (Cfg.Channels.nxChanCtxtCnt ≤ h.chIndex c.vif) ||
        decide (Cfg.Channels.nxChanCtxtCnt ≤ h.chIndex c.vif))
      rw [Bool.or_assoc, Bool.or_self]

theorem Agree.startCac (agree : Agree s h) (vif : Nat) (chandef : Cfg.Channels.ChanDef) :
    Agree (s.rwnxCfg80211StartRadarDetection vif)
      (h.rwnxCfg80211StartRadarDetection vif chandef) :=
  ⟨rfl, rfl, agree.chIndex, agree.fault⟩

/-- The work runs to its end. -/
theorem Agree.cacWork (agree : Agree s h) (proper : s.Proper) (scheduled : s.pending.isSome)
    (idle : s.work = none) :
    ∃ es t, Run.exec Hw.step s (.cacWork :: es) = some t ∧ Agree t h.rwnxRadarCacWork := by
  have starts : s.step .cacWork = some s.rwnxRadarCacWork := if_pos ⟨scheduled, idle⟩
  have its := agree.pointer
  unfold Cfg.Channels.Hw.rwnxRadarCacWork
  cases pointer : s.cacVif with
  | none =>
      have gone : h.cacVif = none := by rw [← its, pointer]; rfl
      have left : s.rwnxRadarCacWork = { s with pending := none } := by
        simp [Hw.rwnxRadarCacWork, pointer]
      refine ⟨[], s.rwnxRadarCacWork, by rw [Run.exec, starts]; rfl, ?_⟩
      rw [left, gone]
      refine ⟨?_, rfl, agree.chIndex, agree.fault⟩
      rw [pointer]
      rfl
  | some c =>
      obtain ⟨here, range⟩ := proper c pointer
      have same : h.cacVif = some c.vif := by rw [← its, pointer]; rfl
      rw [same]
      have notified : s.rwnxRadarCacWork.work = some .notified := by
        simp [Hw.rwnxRadarCacWork, Hw.deref, pointer]
      refine ⟨[.cacWorkStopped, .cacWorkDone],
        s.rwnxRadarCacWork.rwnxRadarCacWorkStopped.rwnxRadarCacWorkDone, ?_,
        agree.unlinked range rfl ?_ ?_ ?_⟩
      · rw [Run.exec, starts]
        simp [Run.exec, Hw.step, notified, Hw.rwnxRadarCacWorkStopped]
      all_goals
        simp [Hw.rwnxRadarCacWorkDone, Hw.rwnxRadarCacWorkStopped, Hw.rwnxRadarCacWork, Hw.deref,
          Hw.context, Hw.cfg80211CacEvent, Hw.giveBack, Hw.rwnxChanctxUnlink, pointer, here]

/-- A cancellation comes to its end, and what follows it is done then. -/
theorem Agree.cancelCac (agree : Agree s h) (proper : s.Proper) (after : After) :
    ∃ es t, Run.exec Hw.step (s.rwnxRadarCancelCac after) es = some (t.finish after) ∧
      Agree t h.rwnxRadarCancelCac := by
  have its := agree.pointer
  unfold Cfg.Channels.Hw.rwnxRadarCancelCac
  cases pointer : s.cacVif with
  | none =>
      have gone : h.cacVif = none := by rw [← its, pointer]; rfl
      rw [gone]
      refine ⟨[], s, ?_, agree⟩
      simp [Run.exec, Hw.rwnxRadarCancelCac, pointer]
  | some c =>
      obtain ⟨here, range⟩ := proper c pointer
      have same : h.cacVif = some c.vif := by rw [← its, pointer]; rfl
      rw [same, ← agree.work]
      dsimp only
      by_cases scheduled : s.pending.isSome = true
      · rw [if_pos scheduled]
        have stopping : s.rwnxRadarCancelCac after = { s with
            pending := none
            cancels := ⟨.stopping, after⟩ :: s.cancels
            fault := s.fault || decide (s.chIndex c.vif = rwnxChNotSet) } := by
          simp [Hw.rwnxRadarCancelCac, Hw.deref, Hw.context, pointer, scheduled, here]
        rw [stopping]
        refine ⟨[.cancelled ⟨.stopping, after⟩, .cancelled ⟨.clearing, after⟩],
          { s.giveBack c with
            cacVif := none, pending := none
            events := (c.start, .cacAborted) :: s.events
            fault := s.fault || decide (s.chIndex c.vif = rwnxChNotSet) }, ?_,
          agree.unlinked range rfl rfl rfl rfl⟩
        simp [Run.exec, Hw.step, Hw.rwnxRadarCancelCacNext, Hw.deref, Hw.cfg80211CacEvent,
          Hw.giveBack, Hw.rwnxChanctxUnlink, pointer, here]
      · have unscheduled : s.pending = none := by simpa using scheduled
        rw [if_neg scheduled]
        refine ⟨[.cancelled ⟨.clearing, after⟩], { s with cacVif := none }, ?_, rfl, rfl,
          agree.chIndex, agree.fault⟩
        simp [Run.exec, Hw.step, Hw.rwnxRadarCancelCac, Hw.rwnxRadarCancelCacNext, pointer,
          unscheduled]

end Pieces

end Aic8800.Radar.Cac
