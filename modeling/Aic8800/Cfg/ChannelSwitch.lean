import Aic8800.Lib.Run
import Mathlib

/-! # Channel switches

A switch keeps the beacon for the time after it in a structure of its own, which the
interface points to and which carries the work that ends the switch. Calls of cfg80211
come one at a time; that of a switch waits for the firmware twice, and so does the
work. Indications come in between.
-/

namespace Aic8800.Cfg.ChannelSwitch

open Lib

/-- `CO_OK` -/
def coOk : Nat := 0

/-- `BCN_MAX_CSA_CPT` -/
def bcnMaxCsaCpt : Nat := 2

/-- `WLAN_EID_TIM` -/
def wlanEidTim : UInt8 := 5

/-- `struct cfg80211_beacon_data` -/
structure BeaconData where
  head : Option (List UInt8)
  tail : Option (List UInt8)
  deriving DecidableEq

/-- `struct rwnx_bcn` -/
structure Bcn where
  head : Option (List UInt8)
  tail : Option (List UInt8)
  ies : Option (List UInt8)
  dtim : UInt8
  timLen : Nat
  len : Nat
  deriving DecidableEq

/-- What there is memory for. -/
structure Mem where
  head : Bool
  tail : Bool
  buf : Bool

/-- A beacon of which nothing is stored, as `rwnx_del_bcn` leaves it. -/
def Bcn.empty : Bcn := ⟨none, none, none, 0, 0, 0⟩

def Bcn.total (bcn : Bcn) : Nat :=
  (bcn.head.getD []).length + (bcn.tail.getD []).length + (bcn.ies.getD []).length + 6

/-- The beacon with an empty traffic indication. -/
def Bcn.build (bcn : Bcn) : List UInt8 :=
  bcn.head.getD [] ++ [wlanEidTim, 4, 0, bcn.dtim, 0, 0] ++ bcn.tail.getD [] ++ bcn.ies.getD []

/-- `rwnx_build_bcn`, with what is stored afterwards and the buffer. -/
def rwnxBuildBcn (bcn : Bcn) (new : BeaconData) (mem : Mem) : Bcn × Option (List UInt8) :=
  if new.head.isSome && !mem.head then (bcn, none)
  else
    let bcn := { bcn with head := new.head.or bcn.head }
    if new.tail.isSome && !mem.tail then (bcn, none)
    else
      let bcn := { bcn with tail := new.tail.or bcn.tail }
      if bcn.head.isNone then (bcn, none)
      else
        let bcn := { bcn with timLen := 6, len := bcn.total }
        if mem.buf then (bcn, some bcn.build) else (bcn, none)

/-- The buffer is as long as the length that is stored with the beacon. -/
theorem rwnxBuildBcn_len {bcn bcn' : Bcn} {new : BeaconData} {mem : Mem} {buf : List UInt8}
    (built : rwnxBuildBcn bcn new mem = (bcn', some buf)) : buf.length = bcn'.len := by
  unfold rwnxBuildBcn at built
  split at built
  · cases built
  · dsimp only at built
    split at built
    · cases built
    · split at built
      · cases built
      · split at built
        · cases built
          simp only [Bcn.build, Bcn.total, List.length_append, List.length_cons, List.length_nil]
          omega
        · cases built

/-- `struct rwnx_csa`, but for its work. -/
structure Csa where
  vif : Nat
  bcn : Bcn
  count : Nat
  status : Nat
  chIdx : Nat

/-- The work of a structure. While it runs it knows its interface, and can be scheduled
    once more. -/
inductive Work where
  | zeroed
  | idle
  | pending
  | sendBcn (vif : Nat) (again : Bool)
  | sendBcnChange (vif : Nat) (again : Bool)
  deriving DecidableEq

/-- A channel switch that waits for the firmware, with the beacon that was stored before. -/
inductive Call where
  | sendBcn (vif : Nat) (before : Bcn) (after : BeaconData)
  | sendBcnChange (vif : Nat) (before : Bcn) (id : Nat)
  deriving DecidableEq

structure Hw where
  vifs : List Nat
  /-- The interface is an access point or a P2P group owner. -/
  isAp : Nat → Bool
  bcn : Nat → Bcn
  /-- `ap.csa`, which leads to an allocation. -/
  csa : Nat → Option Nat
  heap : Nat → Option Csa
  work : Nat → Work
  /-- The number of the next allocation. -/
  next : Nat
  call : Option Call
  /-- The structures that were freed, and the switches that have ended. -/
  freed : List Nat
  ended : List Nat
  /-- The beacons before and after each call that returned an error. -/
  errors : List (Bcn × Bcn)
  /-- Something was used or freed that was not there, or a work was not initialised. -/
  fault : Bool

/-- What happens, with the results of sending and what there is memory for. -/
inductive Event where
  | interfaceAdd (vif : Nat) (isAp : Bool)
  | remove (vif : Nat)
  | startAp (vif : Nat) (dtim : UInt8) (beacon : BeaconData) (mem : Mem) (error : Int) (status : Nat)
  | changeBeacon (vif : Nat) (beacon : BeaconData) (mem : Mem)
  | stopAp (vif : Nat)
  | channelSwitch (vif counters : Nat) (beacon after : BeaconData) (mem : Mem)
  | sendBcnCfm (error : Int) (kzalloc : Bool) (mem : Mem)
  | sendBcnChangeCfm (error : Int)
  | csaCounterInd (vif count : Nat)
  | csaFinishInd (vif status chanIdx : Nat)
  | csaFinish (id : Nat) (kmalloc : Bool)
  | csaFinishSent (id : Nat) (error : Int)
  | csaFinishChanged (id : Nat) (error : Int)

namespace Hw

variable (s : Hw)

/-- A structure is used. -/
def use (id : Nat) : Hw := { s with fault := s.fault || (s.heap id).isNone }

/-- An interface is used. -/
def useVif (vif : Nat) : Hw := { s with fault := s.fault || !decide (vif ∈ s.vifs) }

def rwnxDelCsa (vif : Nat) : Hw :=
  match s.csa vif with
  | none => s
  | some id =>
      { s.use id with
        heap := Function.update s.heap id none, freed := id :: s.freed
        csa := Function.update s.csa vif none }

def scheduleWork (id : Nat) : Hw :=
  match s.work id with
  | .zeroed => { s with fault := true }
  | .idle | .pending => { s with work := Function.update s.work id .pending }
  | .sendBcn vif _ => { s with work := Function.update s.work id (.sendBcn vif true) }
  | .sendBcnChange vif _ => { s with work := Function.update s.work id (.sendBcnChange vif true) }

/-- The work of a structure returns, and its switch has ended. -/
def workDone (id : Nat) (again : Bool) : Hw :=
  { s with
    work := Function.update s.work id (if again then .pending else .idle), ended := id :: s.ended }

/-- A channel switch returns an error. -/
def fail (vif : Nat) (before : Bcn) : Hw :=
  { s with call := none, errors := (before, s.bcn vif) :: s.errors }

/-- `rwnx_cfg80211_channel_switch` up to the first message. -/
def rwnxCfg80211ChannelSwitch (vif counters : Nat) (beacon after : BeaconData) (mem : Mem) : Hw :=
  if (s.csa vif).isSome || bcnMaxCsaCpt < counters then s.fail vif (s.bcn vif)
  else
    let built := rwnxBuildBcn (s.bcn vif) beacon mem
    let t := { s with bcn := Function.update s.bcn vif built.1 }
    if built.2.isNone then t.fail vif (s.bcn vif)
    else { t with call := some (.sendBcn vif (s.bcn vif) after) }

/-- From the first message to the second. When the beacon for the time after the switch can not
    be built, `rwnx_del_csa` is called, but the interface does not point to anything yet. -/
def rwnxCfg80211ChannelSwitchSent (vif : Nat) (before : Bcn) (after : BeaconData) (error : Int)
    (kzalloc : Bool) (mem : Mem) : Hw :=
  if error ≠ 0 || !kzalloc then s.fail vif before
  else
    let built := rwnxBuildBcn Bcn.empty after mem
    let t := { s with
      heap := Function.update s.heap s.next (some ⟨vif, built.1, 0, 0, 0⟩), next := s.next + 1 }
    if built.2.isNone then (t.rwnxDelCsa vif).fail vif before
    else
      { t with
        csa := Function.update s.csa vif (some s.next)
        call := some (.sendBcnChange vif before s.next) }

/-- The rest of it. -/
def rwnxCfg80211ChannelSwitchFinish (vif : Nat) (before : Bcn) (id : Nat) (error : Int) : Hw :=
  if error ≠ 0 then
    let t := s.rwnxDelCsa vif
    { t with ended := id :: t.ended }.fail vif before
  else
    { s.use id with
      call := none, work := Function.update s.work id .idle
      fault := (s.use id).fault || decide (s.work id ≠ .zeroed) }

def rwnxRxCsaCounterInd (vif count : Nat) : Hw :=
  match s.csa vif with
  | none => s
  | some id =>
      { s.use id with
        heap := Function.update s.heap id ((s.heap id).map fun (c : Csa) => { c with count := count }) }

def rwnxRxCsaFinishInd (vif status chanIdx : Nat) : Hw :=
  match s.isAp vif, s.csa vif with
  | true, some id =>
      { s.use id with
        heap := Function.update s.heap id
          ((s.heap id).map fun (c : Csa) => { c with status := status, chIdx := chanIdx }) }.scheduleWork id
  | _, _ => s

/-- `rwnx_csa_finish` up to the first message. When the switch has failed, cfg80211 is told to
    stop the interface. -/
def rwnxCsaFinish (id : Nat) (kmalloc : Bool) : Hw :=
  match s.heap id with
  | none => { s with fault := true, work := Function.update s.work id .idle }
  | some c =>
      let s := s.useVif c.vif
      if !kmalloc then s.workDone id false
      else if c.status = 0 then
        { s with work := Function.update s.work id (.sendBcn c.vif false) }
      else (s.rwnxDelCsa c.vif).workDone id false

def rwnxCsaFinishSent (id vif : Nat) (again : Bool) (error : Int) : Hw :=
  if error ≠ 0 then s.workDone id again
  else
    { (s.use id).useVif vif with work := Function.update s.work id (.sendBcnChange vif again) }

/-- The rest of it. The context of the interface is changed when the message was sent. -/
def rwnxCsaFinishChanged (id vif : Nat) (again : Bool) (error : Int) : Hw :=
  let s := s.useVif vif
  let s := if error ≠ 0 then s else s.use id
  (s.rwnxDelCsa vif).workDone id again

def rwnxCfg80211StartAp (vif : Nat) (dtim : UInt8) (beacon : BeaconData) (mem : Mem) (error : Int)
    (status : Nat) : Hw :=
  let built := rwnxBuildBcn { s.bcn vif with dtim := dtim } beacon mem
  let s := { s with bcn := Function.update s.bcn vif built.1 }
  if built.2.isSome ∧ error = 0 ∧ status = coOk then
    { s with csa := Function.update s.csa vif none }
  else s

def rwnxCfg80211StopAp (vif : Nat) : Hw :=
  { s with bcn := Function.update s.bcn vif Bcn.empty }.rwnxDelCsa vif

def step (e : Event) : Option Hw :=
  match e with
  | .interfaceAdd vif isAp =>
      if vif ∉ s.vifs then
        some { s with
          vifs := vif :: s.vifs
          isAp := Function.update s.isAp vif isAp
          bcn := Function.update s.bcn vif Bcn.empty
          csa := Function.update s.csa vif none }
      else none
  | .remove vif =>
      if s.call = none ∧ vif ∈ s.vifs then some { s with vifs := s.vifs.filter (· ≠ vif) } else none
  | .startAp vif dtim beacon mem error status =>
      if s.call = none ∧ vif ∈ s.vifs then
        some (s.rwnxCfg80211StartAp vif dtim beacon mem error status)
      else none
  | .changeBeacon vif beacon mem =>
      if s.call = none ∧ vif ∈ s.vifs then
        some { s with bcn := Function.update s.bcn vif (rwnxBuildBcn (s.bcn vif) beacon mem).1 }
      else none
  | .stopAp vif =>
      if s.call = none ∧ vif ∈ s.vifs then some (s.rwnxCfg80211StopAp vif) else none
  | .channelSwitch vif counters beacon after mem =>
      if s.call = none ∧ vif ∈ s.vifs then
        some (s.rwnxCfg80211ChannelSwitch vif counters beacon after mem)
      else none
  | .sendBcnCfm error kzalloc mem =>
      match s.call with
      | some (.sendBcn vif before after) =>
          some (s.rwnxCfg80211ChannelSwitchSent vif before after error kzalloc mem)
      | _ => none
  | .sendBcnChangeCfm error =>
      match s.call with
      | some (.sendBcnChange vif before id) =>
          some (s.rwnxCfg80211ChannelSwitchFinish vif before id error)
      | _ => none
  | .csaCounterInd vif count =>
      if vif ∈ s.vifs then some (s.rwnxRxCsaCounterInd vif count) else some s
  | .csaFinishInd vif status chanIdx =>
      if vif ∈ s.vifs then some (s.rwnxRxCsaFinishInd vif status chanIdx) else some s
  | .csaFinish id kmalloc =>
      if s.work id = .pending then some (s.rwnxCsaFinish id kmalloc) else none
  | .csaFinishSent id error =>
      match s.work id with
      | .sendBcn vif again => some (s.rwnxCsaFinishSent id vif again error)
      | _ => none
  | .csaFinishChanged id error =>
      match s.work id with
      | .sendBcnChange vif again => some (s.rwnxCsaFinishChanged id vif again error)
      | _ => none

end Hw

def init : Hw where
  vifs := []
  isAp := fun _ => false
  bcn := fun _ => Bcn.empty
  csa := fun _ => none
  heap := fun _ => none
  work := fun _ => .zeroed
  next := 0
  call := none
  freed := []
  ended := []
  errors := []
  fault := false

/-- A structure is there as long as its interface points to it, and is freed once after that;
    nothing is used that is gone; the interface does not point to a switch that has
    ended; and a call that returned an error has left the beacon as it was. -/
structure Sound (s : Hw) : Prop where
  freed : ∀ id < s.next,
    match s.heap id with
    | some c => s.csa c.vif = some id ∧ s.freed.count id = 0
    | none => s.freed.count id = 1
  running : s.fault = false
  unblocked : ∀ vif ∈ s.vifs, ∀ id ∈ s.csa vif, id ∉ s.ended
  beacon : ∀ e ∈ s.errors, e.1 = e.2

/-- What is asked of a call when its first message is answered. -/
def Hw.SentKept (s : Hw) (error : Int) (kzalloc : Bool) (mem : Mem) : Call → Prop
  | .sendBcn vif before after =>
      (error ≠ 0 ∨ kzalloc = false → before = s.bcn vif) ∧
        (error = 0 → kzalloc = true → (rwnxBuildBcn Bcn.empty after mem).2 ≠ none)
  | .sendBcnChange _ _ _ => True

/-- What is asked of a call when its second message is answered. -/
def Hw.ChangedKept (s : Hw) (error : Int) : Call → Prop
  | .sendBcn _ _ _ => True
  | .sendBcnChange vif before _ => error ≠ 0 → before = s.bcn vif

/-- The steps that keep the switches sound.
    - A switch fails only before the stored beacon is replaced, or when the new beacon is that
      which was stored; and the beacon for the time after it can be built.
    - An indication of the end comes when the call has returned, and not while the work runs.
    - The work has the memory it needs, and can send the beacon.
    - An access point is stopped when no work is scheduled for its switch or runs, it is
      started without a switch, and an interface is removed without one. -/
def Kept (s : Hw) : Event → Prop
  | .interfaceAdd _ _ | .changeBeacon _ _ _ | .csaCounterInd _ _ | .csaFinishChanged _ _ => True
  | .remove vif => s.csa vif = none
  | .startAp vif _ _ _ error status => error = 0 → status = coOk → s.csa vif = none
  | .stopAp vif => ∀ id ∈ s.csa vif, s.work id = .idle
  | .channelSwitch vif counters beacon _ mem =>
      s.csa vif = none → counters ≤ bcnMaxCsaCpt →
        (rwnxBuildBcn (s.bcn vif) beacon mem).2 = none →
          (rwnxBuildBcn (s.bcn vif) beacon mem).1 = s.bcn vif
  | .sendBcnCfm error kzalloc mem => ∀ call ∈ s.call, s.SentKept error kzalloc mem call
  | .sendBcnChangeCfm error => ∀ call ∈ s.call, s.ChangedKept error call
  | .csaFinishInd vif _ _ =>
      s.isAp vif = true → ∀ id ∈ s.csa vif, s.work id = .idle ∨ s.work id = .pending
  | .csaFinish _ kmalloc => kmalloc = true
  | .csaFinishSent _ error => error = 0

/-! ## The invariant -/

/-- The work of a structure that is there, when it is scheduled or runs. -/
def Hw.WorkOk (s : Hw) (id : Nat) : Prop :=
  match s.work id with
  | .zeroed | .idle => True
  | .pending => ∃ c, s.heap id = some c
  | .sendBcn vif again | .sendBcnChange vif again =>
      again = false ∧ ∃ c, s.heap id = some c ∧ c.vif = vif

/-- What is known of a call that waits. -/
def Hw.CallOk (s : Hw) : Prop :=
  match s.call with
  | none => True
  | some (.sendBcn vif _ _) => vif ∈ s.vifs ∧ s.csa vif = none
  | some (.sendBcnChange vif _ id) => s.csa vif = some id ∧ s.work id = .zeroed

structure Inv (s : Hw) : Prop where
  running : s.fault = false
  live : ∀ id c, s.heap id = some c →
    c.vif ∈ s.vifs ∧ s.csa c.vif = some id ∧ id ∉ s.freed ∧ id ∉ s.ended ∧ id < s.next
  gone : ∀ id < s.next, s.heap id = none → s.freed.count id = 1
  pointer : ∀ vif id, s.csa vif = some id → ∃ c, s.heap id = some c ∧ c.vif = vif
  work : ∀ id, s.WorkOk id
  call : s.CallOk
  fresh : ∀ id, s.next ≤ id → s.work id = .zeroed ∧ id ∉ s.freed ∧ id ∉ s.ended
  errors : ∀ e ∈ s.errors, e.1 = e.2

theorem Inv.sound {s : Hw} (h : Inv s) : Sound s := by
  constructor
  · intro id issued
    cases here : s.heap id with
    | none => exact h.gone id issued here
    | some c =>
        obtain ⟨_, pointed, kept, _⟩ := h.live id c here
        exact ⟨pointed, List.count_eq_zero.mpr kept⟩
  · exact h.running
  · intro vif _ id its
    obtain ⟨c, here, _⟩ := h.pointer vif id its
    exact (h.live id c here).2.2.2.1
  · exact h.errors

section Steps

variable {s : Hw} {vif id : Nat}

theorem use_live {c : Csa} (here : s.heap id = some c) : s.use id = s := by
  unfold Hw.use
  rw [here, Option.isNone_some, Bool.or_false]

theorem useVif_present (here : vif ∈ s.vifs) : s.useVif vif = s := by
  unfold Hw.useVif
  rw [decide_eq_true here, Bool.not_true, Bool.or_false]

/-- Two interfaces do not share a structure. -/
theorem Inv.owner (h : Inv s) {other : Nat} (its : s.csa vif = some id)
    (others : s.csa other = some id) : other = vif := by
  obtain ⟨c, here, owner⟩ := h.pointer vif id its
  obtain ⟨c', here', owner'⟩ := h.pointer other id others
  obtain rfl := Option.some.inj (here.symm.trans here')
  exact owner'.symm.trans owner

/-- The structure of an interface is freed when nothing will use it any more. -/
theorem Inv.free (h : Inv s) (its : s.csa vif = some id)
    (apart : ∀ other before, s.call ≠ some (.sendBcnChange other before id)) {work : Work}
    (quiet : work = .idle ∨ work = .zeroed) {ended : List Nat}
    (more : ∀ e ∈ ended, e = id ∨ e ∈ s.ended) :
    Inv { s with
      heap := Function.update s.heap id none, freed := id :: s.freed
      csa := Function.update s.csa vif none, work := Function.update s.work id work
      ended := ended } := by
  obtain ⟨own, here, owner⟩ := h.pointer vif id its
  obtain ⟨_, _, kept, _, issued⟩ := h.live id own here
  constructor
  · exact h.running
  · intro other c found
    by_cases same : other = id
    · subst same
      simp only [Function.update_self] at found
      cases found
    · simp only [Function.update_of_ne same] at found
      obtain ⟨present, pointed, keeps, goes, old⟩ := h.live other c found
      have different : c.vif ≠ vif := by
        intro wrong
        rw [wrong, its] at pointed
        exact same (Option.some.inj pointed).symm
      refine ⟨present, (Function.update_of_ne different ..).trans pointed, ?_, ?_, old⟩
      · exact List.not_mem_cons_of_ne_of_not_mem same keeps
      · intro wrong
        exact (more other wrong).elim same goes
  · intro other old gone
    by_cases same : other = id
    · subst same
      simp only [List.count_cons_self, List.count_eq_zero.mpr kept]
    · simp only [Function.update_of_ne same] at gone
      exact (List.count_cons_of_ne (Ne.symm same) ..).trans (h.gone other old gone)
  · intro other id' pointed
    by_cases same : other = vif
    · subst same
      simp only [Function.update_self] at pointed
      cases pointed
    · simp only [Function.update_of_ne same] at pointed
      have different : id' ≠ id := by
        rintro rfl
        exact same (h.owner its pointed)
      simp only [Function.update_of_ne different]
      exact h.pointer other id' pointed
  · intro other
    by_cases same : other = id
    · subst same
      unfold Hw.WorkOk
      simp only [Function.update_self]
      obtain rfl | rfl := quiet
      · trivial
      · trivial
    · have known := h.work other
      unfold Hw.WorkOk at known ⊢
      simp only [Function.update_of_ne same]
      exact known
  · have known := h.call
    unfold Hw.CallOk at known ⊢
    cases waits : s.call with
    | none => trivial
    | some call =>
        rw [waits] at known
        cases call with
        | sendBcn other before after =>
            refine ⟨known.1, ?_⟩
            by_cases same : other = vif
            · subst same
              exact Function.update_self ..
            · exact (Function.update_of_ne same ..).trans known.2
        | sendBcnChange other before id' =>
            have different : id' ≠ id := by
              rintro rfl
              exact apart other before waits
            have others : other ≠ vif := by
              rintro rfl
              exact different (Option.some.inj (known.1.symm.trans its))
            exact ⟨(Function.update_of_ne others ..).trans known.1,
              (Function.update_of_ne different ..).trans known.2⟩
  · intro other later
    obtain ⟨zeroed, keeps, goes⟩ := h.fresh other later
    have same : other ≠ id := by
      rintro rfl
      exact absurd issued (Nat.not_lt_of_le later)
    refine ⟨(Function.update_of_ne same ..).trans zeroed, ?_, ?_⟩
    · exact List.not_mem_cons_of_ne_of_not_mem same keeps
    · intro wrong
      exact (more other wrong).elim same goes
  · exact h.errors

/-- A call returns. -/
theorem Inv.returned (h : Inv s) {errors : List (Bcn × Bcn)} (unchanged : ∀ e ∈ errors, e.1 = e.2) :
    Inv { s with call := none, errors := errors } :=
  { h with call := trivial, errors := unchanged }

theorem Inv.fail (h : Inv s) {before : Bcn} (unchanged : before = s.bcn vif) :
    Inv (s.fail vif before) := by
  apply h.returned
  intro e member
  rcases List.mem_cons.mp member with rfl | earlier
  · exact unchanged
  · exact h.errors e earlier

/-- The stored beacons have no part in it. -/
theorem Inv.beacon (h : Inv s) {bcn : Nat → Bcn} : Inv { s with bcn := bcn } := { h with }

theorem delCsa_eq {c : Csa} (its : s.csa vif = some id) (here : s.heap id = some c) :
    s.rwnxDelCsa vif = { s with
      heap := Function.update s.heap id none, freed := id :: s.freed
      csa := Function.update s.csa vif none } := by
  unfold Hw.rwnxDelCsa
  rw [its]
  simp only [use_live here]

theorem Inv.channelSwitch (h : Inv s) (present : vif ∈ s.vifs) {counters : Nat}
    {beacon after : BeaconData} {mem : Mem}
    (kept : Kept s (.channelSwitch vif counters beacon after mem)) :
    Inv (s.rwnxCfg80211ChannelSwitch vif counters beacon after mem) := by
  unfold Hw.rwnxCfg80211ChannelSwitch
  split
  · exact h.fail rfl
  · rename_i go
    simp only [Bool.or_eq_true, decide_eq_true_eq, not_or, Option.not_isSome_iff_eq_none,
      Nat.not_lt] at go
    dsimp only
    split
    · rename_i failed
      rw [Option.isNone_iff_eq_none] at failed
      apply h.beacon.fail
      simp only [Function.update_self]
      exact (kept go.1 go.2 failed).symm
    · exact { h with call := ⟨present, go.1⟩ }

/-- A new structure, to which the interface points from now on. -/
theorem Inv.publish (h : Inv s) (present : vif ∈ s.vifs) (none : s.csa vif = none) {bcn before : Bcn} :
    Inv { s with
      heap := Function.update s.heap s.next (some ⟨vif, bcn, 0, 0, 0⟩), next := s.next + 1
      csa := Function.update s.csa vif (some s.next)
      call := some (.sendBcnChange vif before s.next) } := by
  obtain ⟨zeroed, keeps, goes⟩ := h.fresh s.next le_rfl
  constructor
  · exact h.running
  · intro id c found
    by_cases same : id = s.next
    · subst same
      simp only [Function.update_self, Option.some.injEq] at found
      subst found
      exact ⟨present, Function.update_self .., keeps, goes, Nat.lt_succ_self _⟩
    · simp only [Function.update_of_ne same] at found
      obtain ⟨here, pointed, kept, going, old⟩ := h.live id c found
      have different : c.vif ≠ vif := by
        intro wrong
        cases none.symm.trans (wrong ▸ pointed)
      exact ⟨here, (Function.update_of_ne different ..).trans pointed, kept, going,
        Nat.lt_succ_of_lt old⟩
  · intro id old gone
    by_cases same : id = s.next
    · subst same
      simp only [Function.update_self] at gone
      cases gone
    · simp only [Function.update_of_ne same] at gone
      exact h.gone id (Nat.lt_of_le_of_ne (Nat.le_of_lt_succ old) same) gone
  · intro other id pointed
    by_cases same : other = vif
    · subst same
      simp only [Function.update_self, Option.some.injEq] at pointed
      subst pointed
      exact ⟨_, Function.update_self .., rfl⟩
    · simp only [Function.update_of_ne same] at pointed
      obtain ⟨c, here, owner⟩ := h.pointer other id pointed
      have old := (h.live id c here).2.2.2.2
      exact ⟨c, (Function.update_of_ne old.ne ..).trans here, owner⟩
  · intro id
    by_cases same : id = s.next
    · subst same
      unfold Hw.WorkOk
      simp only [zeroed]
    · have known := h.work id
      unfold Hw.WorkOk at known ⊢
      simp only [Function.update_of_ne same]
      exact known
  · exact ⟨Function.update_self .., zeroed⟩
  · intro id later
    exact h.fresh id (Nat.le_of_succ_le later)
  · exact h.errors

theorem Inv.channelSwitchSent (h : Inv s) {before : Bcn} {after : BeaconData} {error : Int}
    {kzalloc : Bool} {mem : Mem} (waits : s.call = some (.sendBcn vif before after))
    (kept : Kept s (.sendBcnCfm error kzalloc mem)) :
    Inv (s.rwnxCfg80211ChannelSwitchSent vif before after error kzalloc mem) := by
  obtain ⟨unchanged, built⟩ := kept _ waits
  have known := h.call
  simp only [Hw.CallOk, waits] at known
  unfold Hw.rwnxCfg80211ChannelSwitchSent
  split
  · rename_i failed
    simp only [Bool.or_eq_true, decide_eq_true_eq, Bool.not_eq_true'] at failed
    exact h.fail (unchanged failed)
  · rename_i go
    simp only [Bool.or_eq_true, decide_eq_true_eq, Bool.not_eq_true', not_or, Decidable.not_not,
      Bool.not_eq_false] at go
    have built := built go.1 go.2
    dsimp only
    rw [if_neg (by simpa using built)]
    exact h.publish known.1 known.2

/-- The firmware has refused the new beacon, or the work can be scheduled from now on. -/
theorem Inv.channelSwitchFinish (h : Inv s) {before : Bcn} {error : Int}
    (waits : s.call = some (.sendBcnChange vif before id))
    (kept : Kept s (.sendBcnChangeCfm error)) :
    Inv (s.rwnxCfg80211ChannelSwitchFinish vif before id error) := by
  have known := h.call
  simp only [Hw.CallOk, waits] at known
  obtain ⟨its, zeroed⟩ := known
  obtain ⟨c, here, owner⟩ := h.pointer vif id its
  unfold Hw.rwnxCfg80211ChannelSwitchFinish
  split
  · rename_i failed
    have errors : ∀ e ∈ (before, s.bcn vif) :: s.errors, e.1 = e.2 := by
      intro e member
      rcases List.mem_cons.mp member with rfl | earlier
      · exact kept _ waits failed
      · exact h.errors e earlier
    have more : ∀ e ∈ id :: s.ended, e = id ∨ e ∈ s.ended := fun _ => List.mem_cons.mp
    have freed := (h.returned errors).free its (fun _ _ wrong => by cases wrong) (.inr zeroed) more
    simp only [Function.update_eq_self] at freed
    simp only [delCsa_eq its here, Hw.fail]
    exact freed
  · rw [use_live here, zeroed]
    constructor
    · simp [h.running]
    · exact h.live
    · exact h.gone
    · exact h.pointer
    · intro other
      by_cases same : other = id
      · subst same
        unfold Hw.WorkOk
        simp only [Function.update_self]
      · have ok := h.work other
        unfold Hw.WorkOk at ok ⊢
        simp only [Function.update_of_ne same]
        exact ok
    · trivial
    · intro other later
      obtain ⟨fresh, keeps, goes⟩ := h.fresh other later
      have same : other ≠ id := by
        rintro rfl
        exact absurd (h.live other c here).2.2.2.2 (Nat.not_lt_of_le later)
      exact ⟨(Function.update_of_ne same ..).trans fresh, keeps, goes⟩
    · exact h.errors

/-- What is stored about a switch changes. -/
theorem Inv.update (h : Inv s) {c c' : Csa} (here : s.heap id = some c) (owner : c'.vif = c.vif) :
    Inv { s with heap := Function.update s.heap id (some c') } := by
  have found : ∀ other d, Function.update s.heap id (some c') other = some d →
      ∃ d', s.heap other = some d' ∧ d.vif = d'.vif := by
    intro other d known
    by_cases same : other = id
    · subst same
      rw [Function.update_self] at known
      obtain rfl := Option.some.inj known
      exact ⟨c, here, owner⟩
    · rw [Function.update_of_ne same] at known
      exact ⟨d, known, rfl⟩
  have kept : ∀ other d, s.heap other = some d →
      ∃ d', Function.update s.heap id (some c') other = some d' ∧ d'.vif = d.vif := by
    intro other d known
    by_cases same : other = id
    · subst same
      obtain rfl := Option.some.inj (here.symm.trans known)
      exact ⟨c', Function.update_self .., owner⟩
    · exact ⟨d, (Function.update_of_ne same ..).trans known, rfl⟩
  constructor
  · exact h.running
  · intro other d known
    obtain ⟨d', known, same⟩ := found other d known
    rw [same]
    exact h.live other d' known
  · intro other old gone
    apply h.gone other old
    by_contra here
    obtain ⟨d, known⟩ := Option.ne_none_iff_exists'.mp here
    obtain ⟨d', known, _⟩ := kept other d known
    cases gone.symm.trans known
  · intro other id' pointed
    obtain ⟨d, known, same⟩ := h.pointer other id' pointed
    obtain ⟨d', known, same'⟩ := kept id' d known
    exact ⟨d', known, same'.trans same⟩
  · intro other
    have known := h.work other
    unfold Hw.WorkOk at known ⊢
    dsimp only
    split
    · trivial
    · trivial
    · rename_i pending
      simp only [pending] at known
      obtain ⟨d, known⟩ := known
      obtain ⟨d', known, _⟩ := kept other d known
      exact ⟨d', known⟩
    · rename_i vif again running
      simp only [running] at known
      obtain ⟨once, d, known, same⟩ := known
      obtain ⟨d', known, same'⟩ := kept other d known
      exact ⟨once, d', known, same'.trans same⟩
    · rename_i vif again running
      simp only [running] at known
      obtain ⟨once, d, known, same⟩ := known
      obtain ⟨d', known, same'⟩ := kept other d known
      exact ⟨once, d', known, same'.trans same⟩
  · exact h.call
  · exact h.fresh
  · exact h.errors

/-- The work of a structure is scheduled or goes on. -/
theorem Inv.setWork (h : Inv s) {c : Csa} (here : s.heap id = some c) (started : s.work id ≠ .zeroed)
    {work : Work} (busy : work = .pending ∨ work = .sendBcn c.vif false ∨
      work = .sendBcnChange c.vif false) :
    Inv { s with work := Function.update s.work id work } := by
  constructor
  · exact h.running
  · exact h.live
  · exact h.gone
  · exact h.pointer
  · intro other
    by_cases same : other = id
    · subst same
      unfold Hw.WorkOk
      simp only [Function.update_self]
      obtain rfl | rfl | rfl := busy
      · exact ⟨c, here⟩
      · exact ⟨rfl, c, here, rfl⟩
      · exact ⟨rfl, c, here, rfl⟩
    · have known := h.work other
      unfold Hw.WorkOk at known ⊢
      simp only [Function.update_of_ne same]
      exact known
  · have known := h.call
    unfold Hw.CallOk at known ⊢
    dsimp only
    split
    · trivial
    · rename_i waits
      simpa only [waits] using known
    · rename_i waits
      simp only [waits] at known
      refine ⟨known.1, (Function.update_of_ne ?_ ..).trans known.2⟩
      rintro rfl
      exact started known.2
  · intro other later
    obtain ⟨zeroed, keeps, goes⟩ := h.fresh other later
    have same : other ≠ id := by
      rintro rfl
      exact started zeroed
    exact ⟨(Function.update_of_ne same ..).trans zeroed, keeps, goes⟩
  · exact h.errors

theorem Inv.csaCounterInd (h : Inv s) {count : Nat} : Inv (s.rwnxRxCsaCounterInd vif count) := by
  unfold Hw.rwnxRxCsaCounterInd
  split
  · exact h
  · rename_i id its
    obtain ⟨c, here, _⟩ := h.pointer vif id its
    rw [use_live here, here]
    exact h.update here rfl

theorem Inv.csaFinishInd (h : Inv s) {status chanIdx : Nat}
    (kept : Kept s (.csaFinishInd vif status chanIdx)) :
    Inv (s.rwnxRxCsaFinishInd vif status chanIdx) := by
  unfold Hw.rwnxRxCsaFinishInd
  split
  · rename_i id ap its
    obtain ⟨c, here, _⟩ := h.pointer vif id its
    rw [use_live here, here]
    have updated : Inv { s with
        heap := Function.update s.heap id (some { c with status := status, chIdx := chanIdx }) } :=
      h.update here rfl
    have found : Function.update s.heap id (some { c with status := status, chIdx := chanIdx }) id =
        some { c with status := status, chIdx := chanIdx } := Function.update_self ..
    obtain idle | pending := kept ap id its
    · have started : s.work id ≠ .zeroed := by simp [idle]
      unfold Hw.scheduleWork
      simp only [idle]
      exact updated.setWork found started (.inl rfl)
    · have started : s.work id ≠ .zeroed := by simp [pending]
      unfold Hw.scheduleWork
      simp only [pending]
      exact updated.setWork found started (.inl rfl)
  · exact h

/-- The switch has ended, and its structure is freed. -/
theorem Inv.finished (h : Inv s) {c : Csa} (here : s.heap id = some c)
    (started : s.work id ≠ .zeroed) : Inv ((s.rwnxDelCsa c.vif).workDone id false) := by
  have its := (h.live id c here).2.1
  have more : ∀ e ∈ id :: s.ended, e = id ∨ e ∈ s.ended := fun _ => List.mem_cons.mp
  have apart : ∀ other before, s.call ≠ some (.sendBcnChange other before id) := by
    intro other before waits
    have known := h.call
    simp only [Hw.CallOk, waits] at known
    exact started known.2
  rw [delCsa_eq its here]
  exact h.free its apart (.inl rfl) more

theorem Inv.csaFinish (h : Inv s) (pending : s.work id = .pending) :
    Inv (s.rwnxCsaFinish id true) := by
  have known := h.work id
  simp only [Hw.WorkOk, pending] at known
  obtain ⟨c, here⟩ := known
  have started : s.work id ≠ .zeroed := by simp [pending]
  unfold Hw.rwnxCsaFinish
  simp only [here, useVif_present (h.live id c here).1, Bool.not_true, Bool.false_eq_true, if_false]
  split
  · exact h.setWork here started (.inr (.inl rfl))
  · exact h.finished here started

theorem Inv.csaFinishSent (h : Inv s) {again : Bool} (running : s.work id = .sendBcn vif again) :
    Inv (s.rwnxCsaFinishSent id vif again 0) := by
  have known := h.work id
  simp only [Hw.WorkOk, running] at known
  obtain ⟨rfl, c, here, rfl⟩ := known
  have started : s.work id ≠ .zeroed := by simp [running]
  unfold Hw.rwnxCsaFinishSent
  rw [if_neg (by simp), use_live here, useVif_present (h.live id c here).1]
  exact h.setWork here started (.inr (.inr rfl))

theorem Inv.csaFinishChanged (h : Inv s) {again : Bool}
    (running : s.work id = .sendBcnChange vif again) {error : Int} :
    Inv (s.rwnxCsaFinishChanged id vif again error) := by
  have known := h.work id
  simp only [Hw.WorkOk, running] at known
  obtain ⟨rfl, c, here, rfl⟩ := known
  have started : s.work id ≠ .zeroed := by simp [running]
  unfold Hw.rwnxCsaFinishChanged
  simp only [useVif_present (h.live id c here).1, use_live here, ite_self]
  exact h.finished here started

theorem Inv.startAp (h : Inv s) {dtim : UInt8} {beacon : BeaconData} {mem : Mem} {error : Int}
    {status : Nat} (kept : Kept s (.startAp vif dtim beacon mem error status)) :
    Inv (s.rwnxCfg80211StartAp vif dtim beacon mem error status) := by
  unfold Hw.rwnxCfg80211StartAp
  dsimp only
  split
  · rename_i started
    have free := kept started.2.1 started.2.2
    have same : Function.update s.csa vif none = s.csa := by
      rw [Function.update_eq_self_iff]
      exact free.symm
    rw [same]
    exact h.beacon
  · exact h.beacon

theorem Inv.delCsa (h : Inv s) (idle : ∀ id ∈ s.csa vif, s.work id = .idle) :
    Inv (s.rwnxDelCsa vif) := by
  obtain free | ⟨id, its⟩ := Option.eq_none_or_eq_some (s.csa vif)
  · unfold Hw.rwnxDelCsa
    simp only [free]
    exact h
  · obtain ⟨c, here, _⟩ := h.pointer vif id its
    have idle := idle id its
    have apart : ∀ other before, s.call ≠ some (.sendBcnChange other before id) := by
      intro other before waits
      have known := h.call
      simp only [Hw.CallOk, waits, idle] at known
      cases known.2
    have freed := h.free its apart (.inl idle) fun _ member => .inr member
    simp only [Function.update_eq_self] at freed
    rw [delCsa_eq its here]
    exact freed

theorem Inv.stopAp (h : Inv s) (kept : Kept s (.stopAp vif)) : Inv (s.rwnxCfg80211StopAp vif) :=
  Inv.delCsa h.beacon kept

theorem Inv.interfaceAdd (h : Inv s) (fresh : vif ∉ s.vifs) {isAp : Nat → Bool} {bcn : Nat → Bcn} :
    Inv { s with
      vifs := vif :: s.vifs, isAp := isAp, bcn := bcn, csa := Function.update s.csa vif none } := by
  have free : s.csa vif = none := by
    by_contra wrong
    obtain ⟨id, its⟩ := Option.ne_none_iff_exists'.mp wrong
    obtain ⟨c, here, rfl⟩ := h.pointer vif id its
    exact fresh (h.live id c here).1
  have same : Function.update s.csa vif none = s.csa := by
    rw [Function.update_eq_self_iff]
    exact free.symm
  rw [same]
  constructor
  · exact h.running
  · intro id c here
    obtain ⟨present, known⟩ := h.live id c here
    exact ⟨List.mem_cons_of_mem _ present, known⟩
  · exact h.gone
  · exact h.pointer
  · exact h.work
  · have known := h.call
    unfold Hw.CallOk at known ⊢
    dsimp only
    split
    · trivial
    · rename_i waits
      simp only [waits] at known
      exact ⟨List.mem_cons_of_mem _ known.1, known.2⟩
    · rename_i waits
      simpa only [waits] using known
  · exact h.fresh
  · exact h.errors

theorem Inv.remove (h : Inv s) (returned : s.call = none) (kept : Kept s (.remove vif)) :
    Inv { s with vifs := s.vifs.filter (· ≠ vif) } := by
  constructor
  · exact h.running
  · intro id c here
    obtain ⟨present, pointed, known⟩ := h.live id c here
    have apart : c.vif ≠ vif := by
      intro wrong
      cases kept.symm.trans (wrong ▸ pointed)
    have still : c.vif ∈ s.vifs.filter (· ≠ vif) := by simp [present, apart]
    exact ⟨still, pointed, known⟩
  · exact h.gone
  · exact h.pointer
  · exact h.work
  · unfold Hw.CallOk
    simp only [returned]
  · exact h.fresh
  · exact h.errors

end Steps

theorem inv_init : Inv init where
  running := rfl
  live := fun _ _ wrong => (by cases wrong)
  gone := fun _ wrong => absurd wrong (Nat.not_lt_zero _)
  pointer := fun _ _ wrong => (by cases wrong)
  work := fun _ => trivial
  call := trivial
  fresh := fun _ _ => ⟨rfl, List.not_mem_nil, List.not_mem_nil⟩
  errors := fun _ member => (by cases member)

theorem Inv.step {s t : Hw} {e : Event} (h : Inv s) (kept : Kept s e) (taken : s.step e = some t) :
    Inv t := by
  cases e with
  | interfaceAdd vif isAp =>
      simp only [Hw.step, Option.ite_none_right_eq_some, Option.some.injEq] at taken
      obtain ⟨fresh, rfl⟩ := taken
      exact h.interfaceAdd fresh
  | remove vif =>
      simp only [Hw.step, Option.ite_none_right_eq_some, Option.some.injEq] at taken
      obtain ⟨⟨returned, _⟩, rfl⟩ := taken
      exact h.remove returned kept
  | startAp vif dtim beacon mem error status =>
      simp only [Hw.step, Option.ite_none_right_eq_some, Option.some.injEq] at taken
      obtain ⟨_, rfl⟩ := taken
      exact h.startAp kept
  | changeBeacon vif beacon mem =>
      simp only [Hw.step, Option.ite_none_right_eq_some, Option.some.injEq] at taken
      obtain ⟨_, rfl⟩ := taken
      exact h.beacon
  | stopAp vif =>
      simp only [Hw.step, Option.ite_none_right_eq_some, Option.some.injEq] at taken
      obtain ⟨_, rfl⟩ := taken
      exact h.stopAp kept
  | channelSwitch vif counters beacon after mem =>
      simp only [Hw.step, Option.ite_none_right_eq_some, Option.some.injEq] at taken
      obtain ⟨⟨_, present⟩, rfl⟩ := taken
      exact h.channelSwitch present kept
  | sendBcnCfm error kzalloc mem =>
      simp only [Hw.step] at taken
      split at taken
      · rename_i waits
        obtain rfl := Option.some.inj taken
        exact h.channelSwitchSent waits kept
      · cases taken
  | sendBcnChangeCfm error =>
      simp only [Hw.step] at taken
      split at taken
      · rename_i waits
        obtain rfl := Option.some.inj taken
        exact h.channelSwitchFinish waits kept
      · cases taken
  | csaCounterInd vif count =>
      simp only [Hw.step] at taken
      split at taken
      · obtain rfl := Option.some.inj taken
        exact h.csaCounterInd
      · obtain rfl := Option.some.inj taken
        exact h
  | csaFinishInd vif status chanIdx =>
      simp only [Hw.step] at taken
      split at taken
      · obtain rfl := Option.some.inj taken
        exact h.csaFinishInd kept
      · obtain rfl := Option.some.inj taken
        exact h
  | csaFinish id kmalloc =>
      simp only [Hw.step, Option.ite_none_right_eq_some, Option.some.injEq] at taken
      obtain ⟨pending, rfl⟩ := taken
      obtain rfl : kmalloc = true := kept
      exact h.csaFinish pending
  | csaFinishSent id error =>
      simp only [Hw.step] at taken
      split at taken
      · rename_i running
        obtain rfl := Option.some.inj taken
        obtain rfl : error = 0 := kept
        exact h.csaFinishSent running
      · cases taken
  | csaFinishChanged id error =>
      simp only [Hw.step] at taken
      split at taken
      · rename_i running
        obtain rfl := Option.some.inj taken
        exact h.csaFinishChanged running
      · cases taken

/-- In every run whose steps keep them so, the channel switches are sound. -/
theorem csa_sound {s : Hw} (run : Run.Reachable Hw.step Kept init s) : Sound s := by
  have inv : Inv s := by
    apply run.invariant Inv inv_init
    intro s e t h kept taken
    exact h.step kept taken
  exact inv.sound

instance (s : Hw) (error : Int) (kzalloc : Bool) (mem : Mem) (call : Call) :
    Decidable (s.SentKept error kzalloc mem call) :=
  match call with
  | .sendBcn _ _ _ => inferInstanceAs (Decidable ((_ ∨ _ → _) ∧ (_ → _ → _)))
  | .sendBcnChange _ _ _ => inferInstanceAs (Decidable True)

instance (s : Hw) (error : Int) (call : Call) : Decidable (s.ChangedKept error call) :=
  match call with
  | .sendBcn _ _ _ => inferInstanceAs (Decidable True)
  | .sendBcnChange _ _ _ => inferInstanceAs (Decidable (_ → _))

instance (s : Hw) (e : Event) : Decidable (Kept s e) :=
  match e with
  | .interfaceAdd _ _ | .changeBeacon _ _ _ | .csaCounterInd _ _ | .csaFinishChanged _ _ =>
      inferInstanceAs (Decidable True)
  | .remove _ | .csaFinish _ _ | .csaFinishSent _ _ => inferInstanceAs (Decidable (_ = _))
  | .startAp _ _ _ _ _ _ => inferInstanceAs (Decidable (_ → _ → _))
  | .stopAp vif => inferInstanceAs (Decidable (∀ id ∈ s.csa vif, _))
  | .channelSwitch _ _ _ _ _ => inferInstanceAs (Decidable (_ → _ → _ → _))
  | .sendBcnCfm error kzalloc mem =>
      inferInstanceAs (Decidable (∀ call ∈ s.call, s.SentKept error kzalloc mem call))
  | .sendBcnChangeCfm error => inferInstanceAs (Decidable (∀ call ∈ s.call, s.ChangedKept error call))
  | .csaFinishInd vif _ _ => inferInstanceAs (Decidable (_ → ∀ id ∈ s.csa vif, _))

/-- The beacon of the examples. -/
def beacon (content : UInt8) : BeaconData := ⟨some [content], none⟩

/-- A switch that the firmware refuses though nothing changes, one that succeeds and one that
    fails. -/
def csaRun : List Event :=
  [.interfaceAdd 0 true, .startAp 0 2 (beacon 1) ⟨true, true, true⟩ 0 0,
    .channelSwitch 0 1 (beacon 1) (beacon 3) ⟨true, true, true⟩,
    .sendBcnCfm 0 true ⟨true, true, true⟩, .sendBcnChangeCfm 5,
    .channelSwitch 0 1 (beacon 2) (beacon 3) ⟨true, true, true⟩,
    .sendBcnCfm 0 true ⟨true, true, true⟩, .csaCounterInd 0 4, .sendBcnChangeCfm 0,
    .changeBeacon 0 (beacon 4) ⟨true, true, false⟩, .csaFinishInd 0 0 1, .csaFinishInd 0 0 1,
    .csaFinish 1 true, .csaFinishSent 1 0, .csaFinishChanged 1 0,
    .channelSwitch 0 1 (beacon 2) (beacon 3) ⟨false, true, true⟩,
    .channelSwitch 0 1 (beacon 2) (beacon 3) ⟨true, true, true⟩,
    .sendBcnCfm 0 true ⟨true, true, true⟩, .sendBcnChangeCfm 0, .csaFinishInd 0 1 0,
    .csaFinish 2 true, .stopAp 0, .remove 0]

theorem csa_sound_run : ∃ s, Run.exec Hw.step init csaRun = some s ∧ Sound s := by
  obtain ⟨s, run⟩ := Option.isSome_iff_exists.mp
    (show (Run.exec Hw.step init csaRun).isSome = true by decide)
  exact ⟨s, run, csa_sound
    (Run.Reachable.exec_guarded (fun _ _ => of_decide_eq_true) _ .init run (by decide))⟩

/-- The work can not send the beacon, and its switch stays for ever. -/
theorem unsent_switch_stays : ¬ ∀ s : Hw, Run.Reachable Hw.step Run.Free init s → Sound s := by
  intro sound
  have stays := sound _ (.exec [.interfaceAdd 0 true, .startAp 0 2 (beacon 1) ⟨true, true, true⟩ 0 0,
    .channelSwitch 0 1 (beacon 2) (beacon 3) ⟨true, true, true⟩,
    .sendBcnCfm 0 true ⟨true, true, true⟩, .sendBcnChangeCfm 0, .csaFinishInd 0 0 1,
    .csaFinish 0 true, .csaFinishSent 0 12] .init rfl)
  exact stays.unblocked 0 (List.mem_singleton_self _) 0 rfl (List.mem_singleton_self _)

end Aic8800.Cfg.ChannelSwitch
