import Aic8800.Lib.Run
import Mathlib.Data.Fintype.Basic
import Mathlib.Logic.Function.Basic

/-! # The connection state of the interfaces

`drv_conn_state` is written when cfg80211 asks for a connection or its end, when the
interface is opened and closed, and when the firmware indicates either. The model
has any number of station interfaces, the tables that they share, and counts of
the requests that the firmware has accepted and not yet answered. The handlers
write nothing after they have sent a request, so each is one step; `rwnx_close`
waits for the indication in between, and is two.
-/

namespace Aic8800.Cfg.Connect

open Lib

inductive DrvStatus where
  | disconnected
  | disconnecting
  | connecting
  | connected
  | roaming
  deriving DecidableEq

def eio : Int := 5

def ebusy : Int := 16

def einval : Int := 22

def ealready : Int := 114

def einprogress : Int := 115

/-- Codes in a confirmation: `CO_OK`, `CO_BUSY`, `CO_OP_IN_PROGRESS`. -/
def coOk : Nat := 0

def coBusy : Nat := 8

def coOpInProgress : Nat := 9

/-- What comes of sending a request: the result of the send, the status that is read
    from the confirmation, and whether the firmware has accepted the request. When the
    bus is down nothing is sent, the result is 0, and the confirmation is what was
    on the stack. -/
structure Sent where
  ret : Int
  status : Nat
  accepted : Bool
  deriving DecidableEq

structure Vif where
  connState : DrvStatus
  isRoam : Bool
  /-- `sta.ap`, as an index into `sta_table`. -/
  ap : Option Nat
  vifIndex : Nat
  /-- `rwnx_close` waits for the interface to be disconnected. -/
  closing : Bool
  /-- Accepted requests that the firmware will answer with an indication. -/
  connects : Nat
  disconnects : Nat
  deriving DecidableEq

structure Hw (n : Nat) where
  vifs : Fin n → Vif
  vifTable : Nat → Option (Fin n)
  /-- `sta_table[i].valid` -/
  valid : Nat → Bool
  /-- The state before and after each connect call that has returned an error. -/
  failed : List (DrvStatus × DrvStatus)
  /-- A handler has followed a null pointer. -/
  oops : Bool

/-- What happens: calls from the network stack with what comes of their requests, the two
    halves of `rwnx_close`, and indications, which answer a request or come by
    themselves. An interface that is opened gets an index from the firmware, or none. -/
inductive Event (n : Nat) where
  | ndoOpen (d : Fin n) (idx : Option Nat)
  | connect (d : Fin n) (sae : Bool) (sent : Sent)
  | disconnect (d : Fin n) (sent : Sent)
  | closeStart (d : Fin n) (sent : Sent)
  | closeFinish (d : Fin n)
  | connectInd (idx : Nat) (status : Nat) (apIdx : Nat) (answers : Bool)
  | disconnectInd (idx : Nat) (answers : Bool)
  deriving DecidableEq

namespace Vif

variable (v : Vif)

/-- `rwnx_cfg80211_connect`, where `sae` stands for SAE without external
    authentication: the interface, and what is returned. -/
def rwnxCfg80211Connect (sae : Bool) (sent : Sent) : Vif × Int :=
  let v := { v with isRoam := decide (v.connState = .connected) }
  if v.connState = .disconnecting ∨ v.connState = .connecting then (v, 0)
  else
    let v := { v with connState := if v.isRoam then .roaming else .connecting }
    if sae then (v, -einval)
    else
      let v := if sent.accepted then { v with connects := v.connects + 1 } else v
      if sent.ret ≠ 0 then (v, sent.ret)
      else if sent.status = coOk then (v, 0)
      else if sent.status = coBusy then (v, -einprogress)
      else if sent.status = coOpInProgress then (v, -ealready)
      else (v, -eio)

/-- `rwnx_send_sm_disconnect_req`, once the interface is marked. -/
def sendDisconnect (sent : Sent) : Vif :=
  let v := { v with connState := .disconnecting }
  if sent.accepted then { v with disconnects := v.disconnects + 1 } else v

def rwnxCfg80211Disconnect (sent : Sent) : Vif × Int :=
  match v.connState with
  | .disconnected | .disconnecting => (v, -ebusy)
  | .connected | .connecting | .roaming => (v.sendDisconnect sent, sent.ret)

/-- The first half of `rwnx_close`, after a wait that ends in any state. The result of the
    request is not looked at. -/
def rwnxCloseStart (sent : Sent) : Vif :=
  { (if v.connState = .connected then v.sendDisconnect sent else v) with closing := true }

/-- `rwnx_rx_sm_connect_ind`. Whether the firmware calls it roaming makes no difference to
    the state. -/
def rwnxRxSmConnectInd (status apIdx : Nat) : Vif :=
  let v := if status = 0 then { v with ap := some apIdx } else { v with connState := .disconnected }
  if status = 0 ∧ v.connState = .disconnecting then { v with isRoam := false }
  else { v with connState := if status = 0 then .connected else .disconnected, isRoam := false }

/-- The end of `rwnx_rx_sm_disconnect_ind`. -/
def rwnxRxSmDisconnectInd : Vif :=
  { v with ap := none, connState := if v.isRoam then v.connState else .disconnected }

end Vif

namespace Hw

variable {n : Nat} (s : Hw n)

def setVif (d : Fin n) (v : Vif) : Hw n := { s with vifs := Function.update s.vifs d v }

/-- The interface is in `vif_table`, so that an indication finds it. -/
def Registered (d : Fin n) : Prop := s.vifTable (s.vifs d).vifIndex = some d

instance (d : Fin n) : Decidable (s.Registered d) := inferInstanceAs (Decidable (_ = _))

/-- An interface is marked when it is opened, before the firmware is asked. -/
def rwnxOpen (d : Fin n) (idx : Option Nat) : Hw n :=
  let v := { s.vifs d with connState := .disconnected }
  match idx with
  | none => s.setVif d v
  | some idx =>
      { s.setVif d { v with vifIndex := idx, connects := 0, disconnects := 0 } with
        vifTable := Function.update s.vifTable idx (some d) }

def connect (d : Fin n) (sae : Bool) (sent : Sent) : Hw n :=
  let v := s.vifs d
  let result := v.rwnxCfg80211Connect sae sent
  { s.setVif d result.1 with
    failed := if result.2 = 0 then s.failed else s.failed ++ [(v.connState, result.1.connState)] }

def closeFinish (d : Fin n) : Hw n :=
  { s.setVif d { s.vifs d with closing := false } with
    vifTable := Function.update s.vifTable (s.vifs d).vifIndex none }

def connectInd (d : Fin n) (status apIdx : Nat) (answers : Bool) : Hw n :=
  let v := s.vifs d
  let v := if answers then { v with connects := v.connects - 1 } else v
  { s.setVif d (v.rwnxRxSmConnectInd status apIdx) with
    valid := if status = 0 then Function.update s.valid apIdx true else s.valid }

def disconnectInd (d : Fin n) (answers : Bool) : Hw n :=
  let v := s.vifs d
  let v := if answers then { v with disconnects := v.disconnects - 1 } else v
  if v.connState = .disconnected then s.setVif d v
  else
    match v.ap with
    | none => { s with oops := true }
    | some i =>
        { s.setVif d v.rwnxRxSmDisconnectInd with valid := Function.update s.valid i false }

def step (e : Event n) : Option (Hw n) :=
  if s.oops then none
  else
    match e with
    | .ndoOpen d idx => if s.Registered d then none else some (s.rwnxOpen d idx)
    | .connect d sae sent => if s.Registered d then some (s.connect d sae sent) else none
    | .disconnect d sent =>
        if s.Registered d then some (s.setVif d ((s.vifs d).rwnxCfg80211Disconnect sent).1) else none
    | .closeStart d sent =>
        if s.Registered d then some (s.setVif d ((s.vifs d).rwnxCloseStart sent)) else none
    | .closeFinish d => if (s.vifs d).closing then some (s.closeFinish d) else none
    | .connectInd idx status apIdx answers =>
        match s.vifTable idx with
        | none => some s
        | some d =>
            if answers ∧ (s.vifs d).connects = 0 then none
            else some (s.connectInd d status apIdx answers)
    | .disconnectInd idx answers =>
        match s.vifTable idx with
        -- `drv_conn_state` is read before the pointer is checked
        | none => some { s with oops := true }
        | some d =>
            if answers ∧ (s.vifs d).disconnects = 0 then none else some (s.disconnectInd d answers)

end Hw

def init (n : Nat) : Hw n where
  vifs := fun _ =>
    { connState := .disconnected, isRoam := false, ap := none, vifIndex := 0, closing := false
      connects := 0, disconnects := 0 }
  vifTable := fun _ => none
  valid := fun _ => false
  failed := []
  oops := false

/-! ## What the state promises -/

/-- The claims on one interface. -/
structure Promise {n : Nat} (s : Hw n) (d : Fin n) : Prop where
  connecting : (s.vifs d).connState = .connecting ∨ (s.vifs d).connState = .roaming →
    s.Registered d ∧ 0 < (s.vifs d).connects
  disconnecting : (s.vifs d).connState = .disconnecting →
    s.Registered d ∧ 0 < (s.vifs d).disconnects
  connected : (s.vifs d).connState = .connected → ∃ i, (s.vifs d).ap = some i ∧ s.valid i = true
  disconnected : (s.vifs d).connState = .disconnected → (s.vifs d).ap = none

/-- The state machine is sound: a connect call that has failed has left the state alone, a
    state that waits has something to wait for, the access point is there exactly as the
    state says, and no null pointer was followed. -/
structure Sound {n : Nat} (s : Hw n) : Prop where
  restored : ∀ f ∈ s.failed, f.1 = f.2
  promise : ∀ d, Promise s d
  running : s.oops = false

/-- The steps that keep the state machine sound.
    - An interface is opened with no access point left, under an index that is free.
    - A connect call is turned away at once, or is accepted, and answered with `CO_OK`.
    - A request to disconnect, of the user or of `rwnx_close`, is accepted.
    - `rwnx_close` goes on when the interface is connected or not, and not in between.
    - A connect indication with an error comes when there is no access point, and one
      without names a station that no other interface has.
    - A disconnect indication is for an interface that is there, and finds an access
      point, unless the interface is disconnected; if it is the answer, the interface
      is not roaming.
    Where a request is to be accepted, another one that is still open will do. -/
def Kept {n : Nat} (s : Hw n) : Event n → Prop
  | .ndoOpen d idx => (s.vifs d).ap = none ∧ ∀ i ∈ idx, s.vifTable i = none
  | .connect d sae sent =>
      ((s.vifs d).connState = .connecting ∨ (s.vifs d).connState = .disconnecting) ∨
        sae = false ∧ sent.ret = 0 ∧ sent.status = coOk ∧
          (sent.accepted = true ∨ 0 < (s.vifs d).connects)
  | .disconnect d sent =>
      ((s.vifs d).connState = .disconnected ∨ (s.vifs d).connState = .disconnecting) ∨
        (sent.accepted = true ∨ 0 < (s.vifs d).disconnects)
  | .closeStart d sent =>
      (s.vifs d).connState = .connected → sent.accepted = true ∨ 0 < (s.vifs d).disconnects
  | .closeFinish d => (s.vifs d).connState = .connected ∨ (s.vifs d).connState = .disconnected
  | .connectInd idx status apIdx _ =>
      ∀ d ∈ s.vifTable idx,
        if status = 0 then ∀ e, e ≠ d → (s.vifs e).ap ≠ some apIdx else (s.vifs d).ap = none
  | .disconnectInd idx answers =>
      ∃ d, s.vifTable idx = some d ∧
        ((s.vifs d).connState = .disconnected ∨
          (s.vifs d).ap ≠ none ∧
            ((s.vifs d).connState = .disconnecting ∧ answers = true →
              (s.vifs d).isRoam = false ∨ 1 < (s.vifs d).disconnects))

/-! ## The invariant -/

/-- What holds of an interface that is in the table or not. -/
structure Fits (registered : Prop) (valid : Nat → Bool) (v : Vif) : Prop where
  connecting : v.connState = .connecting ∨ v.connState = .roaming → registered ∧ 0 < v.connects
  disconnecting : v.connState = .disconnecting → registered ∧ 0 < v.disconnects
  connected : v.connState = .connected →
    v.isRoam = false ∧ ∃ i, v.ap = some i ∧ valid i = true
  disconnected : v.connState = .disconnected → v.ap = none
  closing : v.closing = true → registered

namespace Fits

variable {registered : Prop} {valid : Nat → Bool} {v : Vif}

/-- A new station is valid, and the entry of another one that goes away does not matter. -/
theorem frame (h : Fits registered valid v) {valid' : Nat → Bool}
    (same : ∀ i, v.ap = some i → valid i = true → valid' i = true) : Fits registered valid' v :=
  { h with
    connected := fun state => by
      obtain ⟨still, i, ap, here⟩ := h.connected state
      exact ⟨still, i, ap, same i ap here⟩ }

theorem connect (h : Fits registered valid v) (there : registered) {sae : Bool} {sent : Sent}
    (kept : (v.connState = .connecting ∨ v.connState = .disconnecting) ∨
      sae = false ∧ sent.ret = 0 ∧ sent.status = coOk ∧ (sent.accepted = true ∨ 0 < v.connects)) :
    Fits registered valid (v.rwnxCfg80211Connect sae sent).1 ∧
      (v.rwnxCfg80211Connect sae sent).2 = 0 := by
  unfold Vif.rwnxCfg80211Connect
  by_cases busy : v.connState = .disconnecting ∨ v.connState = .connecting
  · simp only [if_pos busy]
    refine ⟨⟨h.connecting, h.disconnecting, ?_, h.disconnected, h.closing⟩, trivial⟩
    intro state
    rcases busy with other | other
    · cases other.symm.trans state
    · cases other.symm.trans state
  · obtain ⟨rfl, ret, status, waits⟩ := kept.resolve_left fun other => busy other.symm
    simp only [if_neg busy, ret, status, Bool.false_eq_true, if_false, ne_eq, not_true_eq_false,
      if_true]
    refine ⟨?_, trivial⟩
    have started : ∀ b : Bool, (if b = true then DrvStatus.roaming else .connecting) = .connecting ∨
        (if b = true then DrvStatus.roaming else .connecting) = .roaming := by decide
    have state := started (decide (v.connState = .connected))
    generalize (if decide (v.connState = .connected) = true then DrvStatus.roaming
      else .connecting) = new at state ⊢
    have counts : 0 < (if sent.accepted = true then v.connects + 1 else v.connects) := by
      split
      · exact Nat.succ_pos _
      · exact waits.resolve_left ‹_›
    have other : ∀ old, new = old → old = .connecting ∨ old = .roaming := fun old same => same ▸ state
    split
    all_goals
      rename_i accepted
      simp only [accepted, if_true, if_false, Bool.false_eq_true] at counts
      constructor
      · exact fun _ => ⟨there, counts⟩
      · intro old
        rcases other _ old with wrong | wrong <;> cases wrong
      · intro old
        rcases other _ old with wrong | wrong <;> cases wrong
      · intro old
        rcases other _ old with wrong | wrong <;> cases wrong
      · exact h.closing

theorem sendDisconnect (h : Fits registered valid v) (there : registered) {sent : Sent}
    (waits : sent.accepted = true ∨ 0 < v.disconnects) :
    Fits registered valid (v.sendDisconnect sent) := by
  unfold Vif.sendDisconnect
  simp only
  split
  · constructor
    · rintro (wrong | wrong) <;> cases wrong
    · exact fun _ => ⟨there, Nat.succ_pos _⟩
    · intro wrong
      cases wrong
    · intro wrong
      cases wrong
    · exact h.closing
  · rename_i refused
    constructor
    · rintro (wrong | wrong) <;> cases wrong
    · exact fun _ => ⟨there, waits.resolve_left refused⟩
    · intro wrong
      cases wrong
    · intro wrong
      cases wrong
    · exact h.closing

theorem disconnect (h : Fits registered valid v) (there : registered) {sent : Sent}
    (kept : (v.connState = .disconnected ∨ v.connState = .disconnecting) ∨
      (sent.accepted = true ∨ 0 < v.disconnects)) :
    Fits registered valid (v.rwnxCfg80211Disconnect sent).1 := by
  unfold Vif.rwnxCfg80211Disconnect
  cases state : v.connState with
  | disconnected | disconnecting => exact h
  | connected | connecting | roaming =>
      refine h.sendDisconnect there (kept.resolve_left ?_)
      simp [state]

theorem closeStart (h : Fits registered valid v) (there : registered) {sent : Sent}
    (kept : v.connState = .connected → sent.accepted = true ∨ 0 < v.disconnects) :
    Fits registered valid (v.rwnxCloseStart sent) := by
  unfold Vif.rwnxCloseStart
  split
  · rename_i state
    exact { h.sendDisconnect there (kept state) with closing := fun _ => there }
  · exact { h with closing := fun _ => there }

/-- An indication from the firmware settles the connection, or leaves it to be ended. -/
theorem connectInd (disconnecting : v.connState = .disconnecting → registered ∧ 0 < v.disconnects)
    (closing : v.closing = true → registered) {status apIdx : Nat}
    (entry : status = 0 → valid apIdx = true) (kept : status ≠ 0 → v.ap = none) :
    Fits registered valid (v.rwnxRxSmConnectInd status apIdx) := by
  unfold Vif.rwnxRxSmConnectInd
  by_cases ok : status = 0
  · by_cases ends : v.connState = .disconnecting
    · simp only [ok, if_true, ends, and_self]
      constructor
      · rintro (wrong | wrong) <;> cases wrong
      · exact fun _ => disconnecting ends
      · exact fun wrong => by cases wrong
      · exact fun wrong => by cases wrong
      · exact closing
    · simp only [ok, if_true, ends, and_false, if_false]
      constructor
      · rintro (wrong | wrong) <;> cases wrong
      · exact fun wrong => by cases wrong
      · exact fun _ => ⟨rfl, apIdx, rfl, entry ok⟩
      · exact fun wrong => by cases wrong
      · exact closing
  · simp only [ok, if_false, false_and]
    constructor
    · rintro (wrong | wrong) <;> cases wrong
    · exact fun wrong => by cases wrong
    · exact fun wrong => by cases wrong
    · exact fun _ => kept ok
    · exact closing

/-- The access point is gone, and a roaming interface waits for the next one. -/
theorem disconnectInd (h : Fits registered valid v) {answers : Bool} {valid' : Nat → Bool}
    (kept : v.connState = .disconnecting ∧ answers = true → v.isRoam = false ∨ 1 < v.disconnects) :
    Fits registered valid'
      (Vif.rwnxRxSmDisconnectInd
        (if answers then { v with disconnects := v.disconnects - 1 } else v)) := by
  by_cases roam : v.isRoam = true
  · have still : v.connState ≠ .connected := fun state => by
      cases roam.symm.trans (h.connected state).1
    cases answers with
    | false =>
        simp only [Vif.rwnxRxSmDisconnectInd, Bool.false_eq_true, if_false, if_true, roam]
        exact ⟨h.connecting, h.disconnecting, fun state => absurd state still, fun _ => rfl, h.closing⟩
    | true =>
        simp only [Vif.rwnxRxSmDisconnectInd, if_true, roam]
        refine ⟨h.connecting, fun state => ⟨(h.disconnecting state).1, ?_⟩,
          fun state => absurd state still, fun _ => rfl, h.closing⟩
        have more := (kept ⟨state, rfl⟩).resolve_left (by simp [roam])
        exact Nat.sub_pos_of_lt more
  · have closed : ∀ w : Vif, w.isRoam = v.isRoam → w.closing = v.closing →
        Fits registered valid' w.rwnxRxSmDisconnectInd := by
      intro w same closing
      unfold Vif.rwnxRxSmDisconnectInd
      rw [if_neg (by rw [same]; exact roam)]
      constructor
      · rintro (wrong | wrong) <;> cases wrong
      · exact fun wrong => by cases wrong
      · exact fun wrong => by cases wrong
      · exact fun _ => rfl
      · exact fun waits => h.closing (closing.symm.trans waits)
    cases answers with
    | false => exact closed v rfl rfl
    | true => exact closed { v with disconnects := v.disconnects - 1 } rfl rfl

/-- An interface that enters the table. -/
theorem mono (h : Fits registered valid v) {registered' : Prop} (more : registered → registered') :
    Fits registered' valid v where
  connecting := fun state => ⟨more (h.connecting state).1, (h.connecting state).2⟩
  disconnecting := fun state => ⟨more (h.disconnecting state).1, (h.disconnecting state).2⟩
  connected := h.connected
  disconnected := h.disconnected
  closing := fun waits => more (h.closing waits)

end Fits

variable {n : Nat}

structure Inv (s : Hw n) : Prop where
  restored : ∀ f ∈ s.failed, f.1 = f.2
  running : s.oops = false
  fits : ∀ d, Fits (s.Registered d) s.valid (s.vifs d)
  index : ∀ idx d, s.vifTable idx = some d → (s.vifs d).vifIndex = idx
  /-- No two interfaces have the same access point. -/
  apart : ∀ d e i, (s.vifs d).ap = some i → (s.vifs e).ap = some i → d = e

theorem Inv.sound {s : Hw n} (h : Inv s) : Sound s where
  restored := h.restored
  running := h.running
  promise := fun d =>
    ⟨(h.fits d).connecting, (h.fits d).disconnecting, fun state => ((h.fits d).connected state).2,
      (h.fits d).disconnected⟩

/-- A step of one interface that stays in the table, or out of it. -/
theorem Inv.update {s : Hw n} (h : Inv s) {d : Fin n} {v : Vif} {valid : Nat → Bool}
    {failed : List (DrvStatus × DrvStatus)} (restored : ∀ f ∈ failed, f.1 = f.2)
    (index : v.vifIndex = (s.vifs d).vifIndex) (fits : Fits (s.Registered d) valid v)
    (others : ∀ e, e ≠ d → ∀ i, (s.vifs e).ap = some i → v.ap ≠ some i ∧
      (s.valid i = true → valid i = true)) :
    Inv { s.setVif d v with valid, failed } := by
  have self : (s.setVif d v).vifs d = v := Function.update_self ..
  have other : ∀ e, e ≠ d → (s.setVif d v).vifs e = s.vifs e := fun e apart =>
    Function.update_of_ne apart ..
  have same : ∀ e, ((s.setVif d v).vifs e).vifIndex = (s.vifs e).vifIndex := by
    intro e
    by_cases here : e = d
    · rw [here, self, index]
    · rw [other e here]
  constructor
  · exact restored
  · exact h.running
  · intro e
    have registered : ({ s.setVif d v with valid, failed } : Hw n).Registered e ↔ s.Registered e := by
      unfold Hw.Registered
      rw [← same e]
      rfl
    simp only [registered]
    by_cases here : e = d
    · subst here
      have own : Fits (s.Registered e) valid ((s.setVif e v).vifs e) := by
        rw [self]
        exact fits
      exact own
    · have frame := (h.fits e).frame fun i ap => (others e here i ap).2
      rw [← other e here] at frame
      exact frame
  · intro idx e found
    rw [← h.index idx e found]
    exact same e
  · intro e f i first second
    simp only at first second
    by_cases ehere : e = d
    · by_cases fhere : f = d
      · rw [ehere, fhere]
      · rw [ehere, self] at first
        rw [other f fhere] at second
        exact absurd first (others f fhere i second).1
    · by_cases fhere : f = d
      · rw [fhere, self] at second
        rw [other e ehere] at first
        exact absurd second (others e ehere i first).1
      · rw [other e ehere] at first
        rw [other f fhere] at second
        exact h.apart e f i first second

section Steps

variable {s : Hw n} {d : Fin n}

/-- A call that leaves the access point alone. -/
theorem Inv.updateCall (h : Inv s) {v : Vif} (ap : v.ap = (s.vifs d).ap)
    (index : v.vifIndex = (s.vifs d).vifIndex) (fits : Fits (s.Registered d) s.valid v) :
    Inv (s.setVif d v) := by
  refine h.update h.restored index fits fun e apart i found => ⟨?_, id⟩
  rw [ap]
  exact fun same => apart (h.apart e d i found same)

theorem connect_frame (v : Vif) (sae : Bool) (sent : Sent) :
    (v.rwnxCfg80211Connect sae sent).1.ap = v.ap ∧
      (v.rwnxCfg80211Connect sae sent).1.vifIndex = v.vifIndex := by
  unfold Vif.rwnxCfg80211Connect
  grind

theorem sendDisconnect_frame (v : Vif) (sent : Sent) :
    (v.sendDisconnect sent).ap = v.ap ∧ (v.sendDisconnect sent).vifIndex = v.vifIndex := by
  unfold Vif.sendDisconnect
  simp only
  split <;> exact ⟨rfl, rfl⟩

theorem Inv.connect (h : Inv s) {sae : Bool} {sent : Sent} (there : s.Registered d)
    (kept : Kept s (.connect d sae sent)) : Inv (s.connect d sae sent) := by
  obtain ⟨fits, ret⟩ := (h.fits d).connect there kept
  have frame := connect_frame (s.vifs d) sae sent
  unfold Hw.connect
  simp only [ret, if_true]
  exact h.updateCall frame.1 frame.2 fits

theorem Inv.disconnect (h : Inv s) {sent : Sent} (there : s.Registered d)
    (kept : Kept s (.disconnect d sent)) :
    Inv (s.setVif d ((s.vifs d).rwnxCfg80211Disconnect sent).1) := by
  have frame := sendDisconnect_frame (s.vifs d) sent
  have same : ((s.vifs d).rwnxCfg80211Disconnect sent).1.ap = (s.vifs d).ap ∧
      ((s.vifs d).rwnxCfg80211Disconnect sent).1.vifIndex = (s.vifs d).vifIndex := by
    unfold Vif.rwnxCfg80211Disconnect
    split
    · exact ⟨rfl, rfl⟩
    · exact ⟨rfl, rfl⟩
    · exact frame
    · exact frame
    · exact frame
  exact h.updateCall same.1 same.2 ((h.fits d).disconnect there kept)

theorem Inv.closeStart (h : Inv s) {sent : Sent} (there : s.Registered d)
    (kept : Kept s (.closeStart d sent)) :
    Inv (s.setVif d ((s.vifs d).rwnxCloseStart sent)) := by
  have frame := sendDisconnect_frame (s.vifs d) sent
  have same : ((s.vifs d).rwnxCloseStart sent).ap = (s.vifs d).ap ∧
      ((s.vifs d).rwnxCloseStart sent).vifIndex = (s.vifs d).vifIndex := by
    unfold Vif.rwnxCloseStart
    split
    · exact frame
    · exact ⟨rfl, rfl⟩
  exact h.updateCall same.1 same.2 ((h.fits d).closeStart there kept)

theorem connectInd_frame (v : Vif) (status apIdx : Nat) :
    (v.rwnxRxSmConnectInd status apIdx).ap = (if status = 0 then some apIdx else v.ap) ∧
      (v.rwnxRxSmConnectInd status apIdx).vifIndex = v.vifIndex := by
  unfold Vif.rwnxRxSmConnectInd
  grind

theorem Inv.connectInd (h : Inv s) {idx status apIdx : Nat} {answers : Bool}
    (there : s.vifTable idx = some d) (kept : Kept s (.connectInd idx status apIdx answers)) :
    Inv (s.connectInd d status apIdx answers) := by
  have kept := kept d there
  have own := h.fits d
  have frame : ∀ v : Vif, v.ap = (s.vifs d).ap → v.vifIndex = (s.vifs d).vifIndex →
      v.connState = (s.vifs d).connState → v.disconnects = (s.vifs d).disconnects →
      v.closing = (s.vifs d).closing →
      Inv { s.setVif d (v.rwnxRxSmConnectInd status apIdx) with
        valid := if status = 0 then Function.update s.valid apIdx true else s.valid } := by
    intro v ap index state disconnects closing
    obtain ⟨newAp, sameIndex⟩ := connectInd_frame v status apIdx
    apply h.update h.restored (sameIndex.trans index)
    · apply Fits.connectInd
      · rw [state, disconnects]
        exact own.disconnecting
      · rw [closing]
        exact own.closing
      · intro ok
        rw [if_pos ok]
        exact Function.update_self ..
      · intro failed
        rw [ap]
        simpa [failed] using kept
    · intro e apart i found
      rw [newAp]
      by_cases ok : status = 0
      · simp only [ok, if_true] at kept ⊢
        have other : i ≠ apIdx := fun same => kept e apart (same ▸ found)
        refine ⟨fun same => other (Option.some.inj same).symm, ?_⟩
        rw [Function.update_of_ne other]
        exact id
      · simp only [ok, if_false] at kept ⊢
        rw [ap, kept]
        exact ⟨by simp, id⟩
  unfold Hw.connectInd
  cases answers with
  | false => exact frame _ rfl rfl rfl rfl rfl
  | true => exact frame _ rfl rfl rfl rfl rfl

theorem Inv.disconnectInd (h : Inv s) {idx : Nat} {answers : Bool}
    (there : s.vifTable idx = some d) (kept : Kept s (.disconnectInd idx answers)) :
    Inv (s.disconnectInd d answers) := by
  obtain ⟨d', found, kept⟩ := kept
  obtain rfl := Option.some.inj (there.symm.trans found)
  have own := h.fits d
  have counted : ∀ v, v = (if answers = true then
        { s.vifs d with disconnects := (s.vifs d).disconnects - 1 } else s.vifs d) →
      v.connState = (s.vifs d).connState ∧ v.ap = (s.vifs d).ap ∧
        v.vifIndex = (s.vifs d).vifIndex := by
    rintro v rfl
    cases answers <;> exact ⟨rfl, rfl, rfl⟩
  unfold Hw.disconnectInd
  simp only
  generalize same : (if answers = true then
    { s.vifs d with disconnects := (s.vifs d).disconnects - 1 } else s.vifs d) = v
  obtain ⟨state, ap, index⟩ := counted v same.symm
  split
  · rename_i down
    have gone := own.disconnected (state.symm.trans down)
    refine h.updateCall ap index ⟨?_, ?_, ?_, fun _ => ap.trans gone, ?_⟩
    · rintro (wrong | wrong)
      · cases down.symm.trans wrong
      · cases down.symm.trans wrong
    · exact fun wrong => by cases down.symm.trans wrong
    · exact fun wrong => by cases down.symm.trans wrong
    · subst same
      cases answers <;> exact own.closing
  · rename_i up
    obtain ⟨present, waits⟩ := kept.resolve_left fun down => up (state.trans down)
    split
    · rename_i none
      exact absurd (ap.symm.trans none) present
    · rename_i i here
      have fits : Fits (s.Registered d) (Function.update s.valid i false) v.rwnxRxSmDisconnectInd := by
        subst same
        exact own.disconnectInd waits
      have sameIndex : v.rwnxRxSmDisconnectInd.vifIndex = (s.vifs d).vifIndex := index
      apply h.update h.restored sameIndex fits
      intro e apart j other
      have elsewhere : j ≠ i := fun equal =>
        apart (h.apart e d i (equal ▸ other) (ap.symm.trans here))
      rw [Function.update_of_ne elsewhere]
      exact ⟨by simp [Vif.rwnxRxSmDisconnectInd], id⟩

/-- An interface that was not in the table is not found under another index. -/
theorem Inv.unlisted (h : Inv s) (down : ¬ s.Registered d) (idx : Nat) : s.vifTable idx ≠ some d := by
  intro found
  apply down
  unfold Hw.Registered
  rw [h.index idx d found]
  exact found

theorem Inv.open (h : Inv s) {idx : Option Nat} (down : ¬ s.Registered d)
    (kept : Kept s (.ndoOpen d idx)) : Inv (s.rwnxOpen d idx) := by
  obtain ⟨gone, free⟩ := kept
  have own := h.fits d
  cases idx with
  | none =>
      refine h.updateCall rfl rfl ⟨?_, ?_, ?_, fun _ => gone, own.closing⟩
      · rintro (wrong | wrong) <;> cases wrong
      · exact fun wrong => by cases wrong
      · exact fun wrong => by cases wrong
  | some idx =>
      have free : s.vifTable idx = none := free idx rfl
      have self : (s.rwnxOpen d (some idx)).vifs d =
          { s.vifs d with
            connState := .disconnected, vifIndex := idx, connects := 0, disconnects := 0 } :=
        Function.update_self ..
      have other : ∀ e, e ≠ d → (s.rwnxOpen d (some idx)).vifs e = s.vifs e := fun e apart =>
        Function.update_of_ne apart ..
      have ap : ∀ e, ((s.rwnxOpen d (some idx)).vifs e).ap = (s.vifs e).ap := by
        intro e
        by_cases here : e = d
        · rw [here, self]
        · rw [other e here]
      constructor
      · exact h.restored
      · exact h.running
      · intro e
        by_cases here : e = d
        · subst here
          rw [self]
          refine ⟨?_, ?_, ?_, fun _ => gone, fun _ => ?_⟩
          · rintro (wrong | wrong) <;> cases wrong
          · exact fun wrong => by cases wrong
          · exact fun wrong => by cases wrong
          · unfold Hw.Registered
            rw [self]
            exact Function.update_self ..
        · rw [other e here]
          refine (h.fits e).mono fun registered => ?_
          unfold Hw.Registered
          rw [other e here]
          have elsewhere : (s.vifs e).vifIndex ≠ idx := by
            intro same
            cases (same ▸ free).symm.trans registered
          exact (Function.update_of_ne elsewhere ..).trans registered
      · intro j e found
        by_cases here : j = idx
        · subst here
          have here : (s.rwnxOpen d (some j)).vifTable j = some d := Function.update_self ..
          obtain rfl := Option.some.inj (here.symm.trans found)
          rw [self]
        · have before : s.vifTable j = some e := (Function.update_of_ne here ..).symm.trans found
          have apart : e ≠ d := fun same => h.unlisted down j (same ▸ before)
          rw [other e apart]
          exact h.index j e before
      · intro e f i first second
        rw [ap] at first second
        exact h.apart e f i first second

theorem Inv.closeFinish (h : Inv s) (closing : (s.vifs d).closing = true)
    (kept : Kept s (.closeFinish d)) : Inv (s.closeFinish d) := by
  have own := h.fits d
  have listed : s.vifTable (s.vifs d).vifIndex = some d := own.closing closing
  have self : (s.closeFinish d).vifs d = { s.vifs d with closing := false } :=
    Function.update_self ..
  have other : ∀ e, e ≠ d → (s.closeFinish d).vifs e = s.vifs e := fun e apart =>
    Function.update_of_ne apart ..
  have frame : ∀ e, ((s.closeFinish d).vifs e).ap = (s.vifs e).ap ∧
      ((s.closeFinish d).vifs e).vifIndex = (s.vifs e).vifIndex := by
    intro e
    by_cases here : e = d
    · rw [here, self]
      exact ⟨rfl, rfl⟩
    · rw [other e here]
      exact ⟨rfl, rfl⟩
  constructor
  · exact h.restored
  · exact h.running
  · intro e
    by_cases here : e = d
    · subst here
      rw [self]
      have settled : ∀ state, state ≠ .connected → state ≠ .disconnected →
          (s.vifs e).connState ≠ state := by
        intro state first second same
        rcases kept with connected | down
        · exact first (same.symm.trans connected)
        · exact second (same.symm.trans down)
      refine ⟨?_, fun wrong => absurd wrong (settled _ (by simp) (by simp)), own.connected,
        own.disconnected, fun wrong => by cases wrong⟩
      rintro (wrong | wrong)
      · exact absurd wrong (settled _ (by simp) (by simp))
      · exact absurd wrong (settled _ (by simp) (by simp))
    · rw [other e here]
      refine (h.fits e).mono fun registered => ?_
      unfold Hw.Registered
      rw [other e here]
      have elsewhere : (s.vifs e).vifIndex ≠ (s.vifs d).vifIndex := by
        intro same
        have registered : s.vifTable (s.vifs e).vifIndex = some e := registered
        rw [same, listed] at registered
        exact here (Option.some.inj registered).symm
      exact (Function.update_of_ne elsewhere ..).trans registered
  · intro j e found
    have before : s.vifTable j = some e := by
      by_cases here : j = (s.vifs d).vifIndex
      · subst here
        have gone : (s.closeFinish d).vifTable (s.vifs d).vifIndex = none := Function.update_self ..
        cases gone.symm.trans found
      · exact (Function.update_of_ne here ..).symm.trans found
    rw [(frame e).2]
    exact h.index j e before
  · intro e f i first second
    rw [(frame e).1] at first
    rw [(frame f).1] at second
    exact h.apart e f i first second

theorem Inv.step {t : Hw n} {e : Event n} (h : Inv s) (kept : Kept s e) (taken : s.step e = some t) :
    Inv t := by
  unfold Hw.step at taken
  rw [if_neg (by simp [h.running])] at taken
  cases e with
  | ndoOpen d idx =>
      simp only [Option.ite_none_left_eq_some, Option.some.injEq] at taken
      obtain ⟨down, rfl⟩ := taken
      exact h.open down kept
  | connect d sae sent =>
      simp only [Option.ite_none_right_eq_some, Option.some.injEq] at taken
      obtain ⟨there, rfl⟩ := taken
      exact h.connect there kept
  | disconnect d sent =>
      simp only [Option.ite_none_right_eq_some, Option.some.injEq] at taken
      obtain ⟨there, rfl⟩ := taken
      exact h.disconnect there kept
  | closeStart d sent =>
      simp only [Option.ite_none_right_eq_some, Option.some.injEq] at taken
      obtain ⟨there, rfl⟩ := taken
      exact h.closeStart there kept
  | closeFinish d =>
      simp only [Option.ite_none_right_eq_some, Option.some.injEq] at taken
      obtain ⟨closing, rfl⟩ := taken
      exact h.closeFinish closing kept
  | connectInd idx status apIdx answers =>
      cases there : s.vifTable idx with
      | none =>
          simp only [there, Option.some.injEq] at taken
          exact taken ▸ h
      | some d =>
          simp only [there, Option.ite_none_left_eq_some, Option.some.injEq] at taken
          obtain ⟨-, rfl⟩ := taken
          exact h.connectInd there kept
  | disconnectInd idx answers =>
      cases there : s.vifTable idx with
      | none =>
          obtain ⟨d, found, -⟩ := kept
          cases there.symm.trans found
      | some d =>
          simp only [there, Option.ite_none_left_eq_some, Option.some.injEq] at taken
          obtain ⟨-, rfl⟩ := taken
          exact h.disconnectInd there kept

theorem inv_init : Inv (init n) where
  restored := List.forall_mem_nil _
  running := rfl
  fits := fun d => by
    constructor
    · rintro (wrong | wrong) <;> cases wrong
    · exact fun wrong => by cases wrong
    · exact fun wrong => by cases wrong
    · exact fun _ => rfl
    · exact fun wrong => by cases wrong
  index := fun _ _ found => by cases found
  apart := fun _ _ _ found => by cases found

end Steps

/-- As long as the steps are kept, the state machine is sound in every state of a run. -/
theorem conn_state_sound {s : Hw n}
    (run : Run.Reachable Hw.step (fun s e => Kept s e) (init n) s) : Sound s :=
  (run.invariant Inv inv_init fun _ _ _ h kept taken => h.step kept taken).sound

instance (s : Hw n) (e : Event n) : Decidable (Kept s e) :=
  match e with
  | .ndoOpen _ _ => inferInstanceAs (Decidable (_ ∧ _))
  | .connect _ _ _ => inferInstanceAs (Decidable (_ ∨ _))
  | .disconnect _ _ => inferInstanceAs (Decidable (_ ∨ _))
  | .closeStart _ _ => inferInstanceAs (Decidable (_ → _))
  | .closeFinish _ => inferInstanceAs (Decidable (_ ∨ _))
  | .connectInd _ _ _ _ => inferInstanceAs (Decidable (∀ _ ∈ _, _))
  | .disconnectInd _ _ => inferInstanceAs (Decidable (∃ _, _))

/-- A request that is accepted. -/
def accepted : Sent := ⟨0, coOk, true⟩

/-- An interface connects, roams and is closed, while another one connects. -/
def roamRun : List (Event 2) :=
  [.ndoOpen 0 (some 0), .ndoOpen 1 (some 1), .connect 0 false accepted, .connectInd 0 0 5 true,
    .connect 1 false accepted, .connect 0 false accepted, .disconnectInd 0 false,
    .connectInd 1 0 6 true, .connectInd 0 0 5 true, .closeStart 0 accepted, .disconnectInd 0 true,
    .closeFinish 0]

theorem conn_state_sound_roam : ∃ s, Run.exec Hw.step (init 2) roamRun = some s ∧ Sound s := by
  obtain ⟨s, run⟩ := Option.isSome_iff_exists.mp
    (show (Run.exec Hw.step (init 2) roamRun).isSome = true by decide)
  exact ⟨s, run, conn_state_sound
    (Run.Reachable.exec_guarded (fun _ _ => of_decide_eq_true) _ .init run (by decide))⟩

/-- The firmware refuses a connection, and the interface is left connecting. -/
theorem refused_connect_stays : ¬ ∀ s : Hw 1,
    Run.Reachable Hw.step Run.Free (init 1) s → Sound s := by
  intro sound
  have refused := sound _ (.exec [.ndoOpen 0 (some 0), .connect 0 false ⟨0, 1, false⟩] .init rfl)
  have wrong := refused.restored (.disconnected, .connecting) (by decide)
  cases wrong

end Aic8800.Cfg.Connect
