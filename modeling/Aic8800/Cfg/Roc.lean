import Aic8800.Lib.Run
import Mathlib

/-! # Remain-on-channel procedures

The element of the procedure is allocated and published before the firmware is asked,
and freed by the handler of the expiry indication or by the call, if it fails. A
call of cfg80211 is two steps, because it waits for the confirmation in between;
cfg80211 lets one call in at a time, while interfaces can be closed and
indications come at any time.
-/

namespace Aic8800.Cfg.Roc

open Lib

/-- `struct rwnx_roc_elem`, under the number of its allocation. -/
structure Elem where
  id : Nat
  wdev : Nat
  mgmtRoc : Bool
  onChan : Bool
  deriving DecidableEq

/-- `cfg80211_ready_on_channel` and `cfg80211_remain_on_channel_expired`, with the cookie. -/
inductive Notice where
  | ready (cookie : UInt32)
  | expired (cookie : UInt32)
  deriving DecidableEq

/-- A call that waits for its confirmation, with its `roc_elem`. -/
structure Call where
  elem : Nat
  mgmtRoc : Bool
  deriving DecidableEq

structure Hw where
  rocElem : Option Nat
  /-- Elements that are allocated and not freed. -/
  heap : List Elem
  /-- The number of the next element. -/
  next : Nat
  /-- The off-channel TX queue is initialised. -/
  offchan : Bool
  rocCookieCnt : UInt32
  call : Option Call
  /-- Interfaces that have been freed. -/
  removed : List Nat
  /-- What cfg80211 was told, latest first, with the element that it was about. -/
  notices : List (Nat × Notice)
  /-- Elements of the calls from user space that have returned 0, with their cookies. -/
  returned : List (Nat × UInt32)
  /-- Something was freed twice, or used when it was gone. -/
  fault : Bool
  deriving DecidableEq

/-- What happens. `started` is false when the P2P interface is not added or there is no memory
    for the element, and the result of a call is that of the send with the status in
    the confirmation. -/
inductive Event where
  | remainOnChannel (wdev : Nat) (started : Bool)
  | mgmtTx (wdev : Nat) (started : Bool)
  | finish (error : Int) (status : Nat)
  | cancel
  | close (wdev : Nat)
  | remove (wdev : Nat)
  | chanSwitchInd
  | expInd
  deriving DecidableEq

namespace Hw

variable (s : Hw)

/-- `kfree` of an element. -/
def kfree (id : Nat) : Hw :=
  { s with
    heap := s.heap.filter fun e => e.id != id
    fault := s.fault || !s.heap.any fun e => e.id == id }

/-- `rwnx_cfg80211_remain_on_channel_` up to the request to the firmware. -/
def rwnxCfg80211RemainOnChannel (wdev : Nat) (mgmtRoc started : Bool) : Hw :=
  if s.rocElem.isSome || !started then s
  else
    { s with
      heap := ⟨s.next, wdev, mgmtRoc, false⟩ :: s.heap, next := s.next + 1
      offchan := true, rocElem := some s.next, call := some ⟨s.next, mgmtRoc⟩ }

/-- The rest of it. -/
def rwnxCfg80211RemainOnChannelFinish (c : Call) (error : Int) (status : Nat) : Hw :=
  if error = 0 ∧ status = 0 then
    { s with
      call := none
      returned := if c.mgmtRoc then s.returned else (c.elem, s.rocCookieCnt) :: s.returned }
  else { { s with rocElem := none }.kfree c.elem with offchan := false, call := none }

/-- The element that a pointer leads to is used; it and its interface have to be there. -/
def deref (id : Nat) (use : Hw → Elem → Hw) : Hw :=
  match s.heap.find? fun e => e.id == id with
  | none => { s with fault := true }
  | some e => use { s with fault := s.fault || s.removed.contains e.wdev } e

/-- A frame of `rwnx_cfg80211_mgmt_tx` that has to be sent off the channel. -/
def rwnxCfg80211MgmtTx (wdev : Nat) (started : Bool) : Hw :=
  match s.rocElem with
  | none => s.rwnxCfg80211RemainOnChannel wdev true started
  | some id => s.deref id fun s _ => s

/-- `rwnx_close`, as far as it is about the element. -/
def rwnxClose (wdev : Nat) : Hw :=
  match s.rocElem with
  | none => s
  | some id => s.deref id fun s e => if e.wdev = wdev then { s with rocElem := none } else s

/-- `rwnx_rx_chan_switch_ind`, when the switch is for the procedure. -/
def rwnxRxChanSwitchInd : Hw :=
  match s.rocElem with
  | none => s
  | some id =>
      s.deref id fun s e =>
        { s with
          notices := if e.mgmtRoc then s.notices else (id, .ready s.rocCookieCnt) :: s.notices
          heap := s.heap.map fun x => if x.id = id then { x with onChan := true } else x }

/-- `rwnx_rx_remain_on_channel_exp_ind` -/
def rwnxRxRemainOnChannelExpInd : Hw :=
  match s.rocElem with
  | none => s
  | some id =>
      s.deref id fun s e =>
        let s :=
          { s with
            notices :=
              if !e.mgmtRoc && e.onChan then (id, .expired s.rocCookieCnt) :: s.notices
              else s.notices
            offchan := false
            rocCookieCnt := if s.rocCookieCnt + 1 = 0 then 1 else s.rocCookieCnt + 1 }
        { s.kfree id with rocElem := none }

def step (e : Event) : Option Hw :=
  match e with
  | .remainOnChannel wdev started =>
      if s.call = none ∧ wdev ∉ s.removed then
        some (s.rwnxCfg80211RemainOnChannel wdev false started)
      else none
  | .mgmtTx wdev started =>
      if s.call = none ∧ wdev ∉ s.removed then some (s.rwnxCfg80211MgmtTx wdev started) else none
  | .finish error status => s.call.map fun c => s.rwnxCfg80211RemainOnChannelFinish c error status
  | .cancel => if s.call = none then some s else none
  | .close wdev => if wdev ∉ s.removed then some (s.rwnxClose wdev) else none
  | .remove wdev => if s.call = none then some { s with removed := wdev :: s.removed } else none
  | .chanSwitchInd => some s.rwnxRxChanSwitchInd
  | .expInd => some s.rwnxRxRemainOnChannelExpInd

/-- What cfg80211 was told about an element, latest first. -/
def noticesOf (id : Nat) : List Notice := (s.notices.filter fun n => n.1 == id).map Prod.snd

end Hw

def init : Hw where
  rocElem := none
  heap := []
  next := 0
  offchan := false
  rocCookieCnt := 1
  call := none
  removed := []
  notices := []
  returned := []
  fault := false

/-- There is one element at most, which the pointer leads to, and nothing was used that was
    gone; and a call that returned 0 has had its events, in order and with its cookie,
    or waits for them. -/
structure Sound (s : Hw) : Prop where
  one : s.heap.length ≤ 1
  pointer : s.heap.map Elem.id = s.rocElem.toList
  running : s.fault = false
  offchan : s.offchan = true ↔ s.heap ≠ []
  served : ∀ call ∈ s.returned,
    if s.rocElem = some call.1 then
      s.noticesOf call.1 = [] ∨ s.noticesOf call.1 = [.ready call.2]
    else
      s.noticesOf call.1 = [.expired call.2] ∨
        s.noticesOf call.1 = [.expired call.2, .ready call.2]

/-- The steps that keep the procedures sound.
    - A call that fails still has its element, and it is that of the pointer.
    - An interface is closed or removed when the element, if there is one, is not of it.
    - An indication that the channel was switched is the first one for its element.
    - An element expires when it is one of the driver's own, or it is on the channel, and
      its call has returned. -/
def Kept (s : Hw) : Event → Prop
  | .finish error status => error = 0 ∧ status = 0 ∨ s.heap ≠ []
  | .close wdev | .remove wdev => ∀ e ∈ s.heap, e.wdev ≠ wdev
  | .chanSwitchInd => ∀ e ∈ s.heap, e.mgmtRoc = false → e.onChan = false
  | .expInd => ∀ e ∈ s.heap, e.mgmtRoc = false → e.onChan = true ∧ s.call = none
  | _ => True

/-! ## The invariant -/

/-- What is known of the element that the pointer leads to. -/
structure Held (s : Hw) (e : Elem) : Prop where
  heap : s.heap = [e]
  pointer : s.rocElem = some e.id
  offchan : s.offchan = true
  present : e.wdev ∉ s.removed
  fresh : e.id < s.next
  told : e.mgmtRoc = false →
    s.noticesOf e.id = if e.onChan then [.ready s.rocCookieCnt] else []

/-- There is no element. -/
structure Free (s : Hw) : Prop where
  heap : s.heap = []
  pointer : s.rocElem = none
  offchan : s.offchan = false

/-- A call that returned 0 waits for its events, or has had them. -/
def Hw.Served (s : Hw) (call : Nat × UInt32) : Prop :=
  (∃ e ∈ s.heap, e.id = call.1 ∧ e.mgmtRoc = false ∧ call.2 = s.rocCookieCnt ∧ s.call = none) ∨
    s.rocElem ≠ some call.1 ∧ s.noticesOf call.1 = [.expired call.2, .ready call.2]

structure Inv (s : Hw) : Prop where
  running : s.fault = false
  elem : Free s ∨ ∃ e, Held s e
  call : ∀ c, s.call = some c → c.elem < s.next ∧ (∀ call ∈ s.returned, call.1 ≠ c.elem) ∧
    (s.heap = [] ∧ c.mgmtRoc = true ∨ ∃ e ∈ s.heap, e.id = c.elem ∧ e.mgmtRoc = c.mgmtRoc)
  served : ∀ call ∈ s.returned, call.1 < s.next ∧ s.Served call
  /-- Elements are numbered as they are allocated. -/
  fresh : ∀ n ∈ s.notices, n.1 < s.next

theorem Inv.sound {s : Hw} (h : Inv s) : Sound s := by
  have served : ∀ call ∈ s.returned,
      if s.rocElem = some call.1 then
        s.noticesOf call.1 = [] ∨ s.noticesOf call.1 = [.ready call.2]
      else
        s.noticesOf call.1 = [.expired call.2] ∨
          s.noticesOf call.1 = [.expired call.2, .ready call.2] := by
    intro call member
    obtain ⟨e, here, same, user, cookie, _⟩ | ⟨other, settled⟩ := (h.served call member).2
    · obtain free | ⟨e', held⟩ := h.elem
      · rw [free.heap] at here
        cases here
      · rw [held.heap, List.mem_singleton] at here
        subst here
        rw [if_pos (same ▸ held.pointer), ← same, cookie, held.told user]
        cases e.onChan with
        | false => exact .inl rfl
        | true => exact .inr rfl
    · rw [if_neg other]
      exact .inr settled
  obtain free | ⟨e, held⟩ := h.elem
  · constructor
    · simp [free.heap]
    · simp [free.heap, free.pointer]
    · exact h.running
    · simp [free.heap, free.offchan]
    · exact served
  · constructor
    · simp [held.heap]
    · simp [held.heap, held.pointer]
    · exact h.running
    · simp [held.heap, held.offchan]
    · exact served

section Steps

variable {s : Hw}

/-- No notices are kept for elements to come. -/
theorem Inv.quiet (h : Inv s) {id : Nat} (later : s.next ≤ id) : s.noticesOf id = [] := by
  unfold Hw.noticesOf
  rw [List.map_eq_nil_iff, List.filter_eq_nil_iff]
  intro n member
  have := h.fresh n member
  simp only [beq_iff_eq]
  omega

theorem Held.find {e : Elem} (held : Held s e) :
    s.heap.find? (fun x => x.id == e.id) = some e := by
  simp [held.heap]

/-- The element that the pointer leads to can be used. -/
theorem Held.deref {e : Elem} (held : Held s e) (running : s.fault = false) (use : Hw → Elem → Hw) :
    s.deref e.id use = use s e := by
  have there : s.removed.contains e.wdev = false := by simpa using held.present
  unfold Hw.deref
  rw [held.find]
  simp only [running, there, Bool.or_false]
  rw [← running]

theorem Free.settled (free : Free s) {call : Nat × UInt32} (served : s.Served call) :
    s.noticesOf call.1 = [.expired call.2, .ready call.2] := by
  obtain ⟨e, here, _⟩ | ⟨_, settled⟩ := served
  · rw [free.heap] at here
    cases here
  · exact settled

theorem Inv.remainOnChannel (h : Inv s) {wdev : Nat} (here : wdev ∉ s.removed)
    {mgmtRoc started : Bool} : Inv (s.rwnxCfg80211RemainOnChannel wdev mgmtRoc started) := by
  unfold Hw.rwnxCfg80211RemainOnChannel
  split
  · exact h
  · rename_i go
    obtain free | ⟨e, held⟩ := h.elem
    · constructor
      · exact h.running
      · apply Or.inr
        exact ⟨⟨s.next, wdev, mgmtRoc, false⟩, by simp [free.heap], rfl, rfl, here,
          Nat.lt_succ_self _, fun _ => h.quiet le_rfl⟩
      · intro c waits
        obtain rfl := Option.some.inj waits
        have older : ∀ call ∈ s.returned, call.1 ≠ s.next := by
          intro call member
          exact Nat.ne_of_lt (h.served call member).1
        exact ⟨Nat.lt_succ_self _, older, .inr ⟨_, List.mem_cons_self, rfl, rfl⟩⟩
      · intro call member
        obtain ⟨older, served⟩ := h.served call member
        have other : some s.next ≠ some call.1 := by
          intro same
          exact older.ne (Option.some.inj same).symm
        exact ⟨Nat.lt_succ_of_lt older, .inr ⟨other, free.settled served⟩⟩
      · intro n member
        exact Nat.lt_succ_of_lt (h.fresh n member)
    · simp [held.pointer] at go

theorem Inv.mgmtTx (h : Inv s) {wdev : Nat} (here : wdev ∉ s.removed) {started : Bool} :
    Inv (s.rwnxCfg80211MgmtTx wdev started) := by
  unfold Hw.rwnxCfg80211MgmtTx
  obtain free | ⟨e, held⟩ := h.elem
  · simp only [free.pointer]
    exact h.remainOnChannel here
  · simp only [held.pointer, held.deref h.running]
    exact h

/-- A call has returned 0. Its element waits for the events, unless it was the driver's own. -/
theorem Inv.succeed (h : Inv s) {c : Call} (waits : s.call = some c) :
    Inv { s with
      call := none
      returned := if c.mgmtRoc then s.returned else (c.elem, s.rocCookieCnt) :: s.returned } := by
  obtain ⟨older, others, its⟩ := h.call c waits
  have still : ∀ call ∈ s.returned, call.1 < s.next ∧
      Hw.Served { s with
        call := none
        returned := if c.mgmtRoc then s.returned else (c.elem, s.rocCookieCnt) :: s.returned }
        call := by
    intro call member
    obtain ⟨old, ⟨e, here, same, user, cookie, idle⟩ | settled⟩ := h.served call member
    · cases idle.symm.trans waits
    · exact ⟨old, .inr settled⟩
  constructor
  · exact h.running
  · obtain free | ⟨e, held⟩ := h.elem
    · exact .inl ⟨free.heap, free.pointer, free.offchan⟩
    · exact .inr ⟨e, held.heap, held.pointer, held.offchan, held.present, held.fresh, held.told⟩
  · intro c' waits
    cases waits
  · cases own : c.mgmtRoc with
    | true =>
        simp only [own, if_true] at still ⊢
        exact still
    | false =>
        simp only [own, Bool.false_eq_true, if_false] at still ⊢
        intro call member
        rcases List.mem_cons.mp member with rfl | earlier
        · obtain ⟨_, wrong⟩ | ⟨e, here, same, user⟩ := its
          · cases own.symm.trans wrong
          · exact ⟨older, .inl ⟨e, here, same, user.trans own, rfl, rfl⟩⟩
        · exact still call earlier
  · exact h.fresh

/-- A call has failed, and frees its element, which is that of the pointer. -/
theorem Inv.fail (h : Inv s) {c : Call} (waits : s.call = some c) (kept : s.heap ≠ []) :
    Inv { { s with rocElem := none }.kfree c.elem with offchan := false, call := none } := by
  obtain ⟨older, others, ⟨wrong, _⟩ | ⟨e, here, same, user⟩⟩ := h.call c waits
  · cases kept wrong
  · obtain free | ⟨e', held⟩ := h.elem
    · cases kept free.heap
    · rw [held.heap, List.mem_singleton] at here
      subst here
      constructor
      · simp [Hw.kfree, h.running, held.heap, same]
      · exact .inl ⟨by simp [Hw.kfree, held.heap, same], rfl, rfl⟩
      · intro c' waits
        cases waits
      · intro call member
        obtain ⟨old, ⟨e', here, same', user, cookie, idle⟩ | ⟨_, settled⟩⟩ := h.served call member
        · cases idle.symm.trans waits
        · exact ⟨old, .inr ⟨fun wrong => (by cases wrong), settled⟩⟩
      · exact h.fresh

theorem Inv.finish (h : Inv s) {c : Call} (waits : s.call = some c) {error : Int} {status : Nat}
    (kept : Kept s (.finish error status)) :
    Inv (s.rwnxCfg80211RemainOnChannelFinish c error status) := by
  unfold Hw.rwnxCfg80211RemainOnChannelFinish
  split
  · exact h.succeed waits
  · exact h.fail waits (kept.resolve_left ‹_›)

theorem Inv.close (h : Inv s) {wdev : Nat} (kept : Kept s (.close wdev)) :
    Inv (s.rwnxClose wdev) := by
  unfold Hw.rwnxClose
  obtain free | ⟨e, held⟩ := h.elem
  · simp only [free.pointer]
    exact h
  · have other : e.wdev ≠ wdev := kept e (by simp [held.heap])
    simp only [held.pointer, held.deref h.running, other, if_false]
    exact h

theorem Inv.remove (h : Inv s) {wdev : Nat} (kept : Kept s (.remove wdev)) :
    Inv { s with removed := wdev :: s.removed } := by
  constructor
  · exact h.running
  · obtain free | ⟨e, held⟩ := h.elem
    · exact .inl ⟨free.heap, free.pointer, free.offchan⟩
    · have other : e.wdev ≠ wdev := kept e (by simp [held.heap])
      have present : e.wdev ∉ wdev :: s.removed := by simp [other, held.present]
      exact .inr ⟨e, held.heap, held.pointer, held.offchan, present, held.fresh, held.told⟩
  · exact h.call
  · exact h.served
  · exact h.fresh

theorem noticesOf_cons_same {id : Nat} {n : Notice} :
    Hw.noticesOf { s with notices := (id, n) :: s.notices } id = n :: s.noticesOf id := by
  simp [Hw.noticesOf]

theorem noticesOf_cons_other {id other : Nat} (distinct : id ≠ other) {n : Notice} :
    Hw.noticesOf { s with notices := (id, n) :: s.notices } other = s.noticesOf other := by
  simp [Hw.noticesOf, distinct]

/-- The element is on the channel, and nobody is told about a procedure of the driver's own. -/
theorem Inv.switch (h : Inv s) {e : Elem} (held : Held s e) {notices : List (Nat × Notice)}
    (told : e.mgmtRoc = false →
      Hw.noticesOf { s with notices := notices } e.id = [.ready s.rocCookieCnt])
    (others : ∀ id, id ≠ e.id → Hw.noticesOf { s with notices := notices } id = s.noticesOf id)
    (fresh : ∀ n ∈ notices, n.1 < s.next) {x : Elem} (marked : x = { e with onChan := true }) :
    Inv { s with notices := notices, heap := [x], rocElem := some e.id } := by
  subst marked
  constructor
  · exact h.running
  · exact .inr ⟨_, rfl, rfl, held.offchan, held.present, held.fresh, told⟩
  · intro c waits
    obtain ⟨older, earlier, ⟨gone, _⟩ | ⟨x, here, same, user⟩⟩ := h.call c waits
    · cases held.heap.symm.trans gone
    · rw [held.heap, List.mem_singleton] at here
      subst here
      exact ⟨older, earlier, .inr ⟨_, List.mem_singleton_self _, same, user⟩⟩
  · intro call member
    obtain ⟨old, ⟨x, here, same, user, cookie, idle⟩ | ⟨other, settled⟩⟩ := h.served call member
    · rw [held.heap, List.mem_singleton] at here
      subst here
      exact ⟨old, .inl ⟨_, List.mem_singleton_self _, same, user, cookie, idle⟩⟩
    · have apart : call.1 ≠ e.id := by
        intro same
        exact other (same ▸ held.pointer)
      exact ⟨old, .inr ⟨held.pointer ▸ other, (others call.1 apart).trans settled⟩⟩
  · exact fresh

theorem Inv.chanSwitchInd (h : Inv s) (kept : Kept s .chanSwitchInd) :
    Inv s.rwnxRxChanSwitchInd := by
  unfold Hw.rwnxRxChanSwitchInd
  obtain free | ⟨e, held⟩ := h.elem
  · simp only [free.pointer]
    exact h
  · have first := kept e (by simp [held.heap])
    obtain ⟨x, marked⟩ : ∃ x : Elem, x = { e with onChan := true } := ⟨_, rfl⟩
    have on : (s.heap.map fun x => if x.id = e.id then { x with onChan := true } else x) = [x] := by
      simp [held.heap, marked]
    simp only [held.pointer, held.deref h.running, on]
    cases own : e.mgmtRoc with
    | true =>
        simp only [if_true]
        exact h.switch held (fun user => by cases own.symm.trans user) (fun _ _ => rfl) h.fresh
          marked
    | false =>
        simp only [Bool.false_eq_true, if_false]
        apply h.switch held _ _ _ marked
        · intro user
          rw [noticesOf_cons_same, held.told user, first user]
          rfl
        · intro id other
          exact noticesOf_cons_other other.symm
        · intro n member
          rcases List.mem_cons.mp member with rfl | earlier
          · exact held.fresh
          · exact h.fresh n earlier

/-- The element is gone, and its call, if it was one from user space, has had its events. -/
theorem Inv.expire (h : Inv s) {e : Elem} (held : Held s e) {notices : List (Nat × Notice)}
    {cookie : UInt32} {fault : Bool} (running : fault = false)
    (told : e.mgmtRoc = false → s.call = none ∧
      Hw.noticesOf { s with notices := notices } e.id =
        [.expired s.rocCookieCnt, .ready s.rocCookieCnt])
    (others : ∀ id, id ≠ e.id → Hw.noticesOf { s with notices := notices } id = s.noticesOf id)
    (fresh : ∀ n ∈ notices, n.1 < s.next) :
    Inv { s with
      notices := notices, offchan := false, rocCookieCnt := cookie, heap := [], rocElem := none
      fault := fault } := by
  constructor
  · exact running
  · exact .inl ⟨rfl, rfl, rfl⟩
  · intro c waits
    obtain ⟨older, earlier, ⟨gone, _⟩ | ⟨x, here, same, user⟩⟩ := h.call c waits
    · cases held.heap.symm.trans gone
    · rw [held.heap, List.mem_singleton] at here
      subst here
      cases own : x.mgmtRoc with
      | true => exact ⟨older, earlier, .inl ⟨rfl, user.symm.trans own⟩⟩
      | false => cases (told own).1.symm.trans waits
  · intro call member
    obtain ⟨old, ⟨x, here, same, user, cookie, idle⟩ | ⟨other, settled⟩⟩ := h.served call member
    · rw [held.heap, List.mem_singleton] at here
      subst here
      refine ⟨old, .inr ⟨fun wrong => (by cases wrong), ?_⟩⟩
      rw [← same, cookie]
      exact (told user).2
    · have apart : call.1 ≠ e.id := by
        intro same
        exact other (same ▸ held.pointer)
      exact ⟨old, .inr ⟨fun wrong => (by cases wrong), (others call.1 apart).trans settled⟩⟩
  · exact fresh

theorem Inv.expInd (h : Inv s) (kept : Kept s .expInd) : Inv s.rwnxRxRemainOnChannelExpInd := by
  unfold Hw.rwnxRxRemainOnChannelExpInd
  obtain free | ⟨e, held⟩ := h.elem
  · simp only [free.pointer]
    exact h
  · have on := kept e (by simp [held.heap])
    have emptied : (s.heap.filter fun x => x.id != e.id) = [] := by simp [held.heap]
    have there : (s.heap.any fun x => x.id == e.id) = true := by simp [held.heap]
    simp only [held.pointer, held.deref h.running, Hw.kfree, emptied, there, Bool.not_true,
      Bool.or_false]
    cases own : e.mgmtRoc with
    | true =>
        simp only [Bool.not_true, Bool.false_and, Bool.false_eq_true, if_false]
        exact h.expire held h.running (fun user => by cases own.symm.trans user) (fun _ _ => rfl)
          h.fresh
    | false =>
        simp only [(on own).1, Bool.not_false, Bool.and_self, if_true]
        apply h.expire held h.running
        · intro user
          refine ⟨(on user).2, ?_⟩
          rw [noticesOf_cons_same, held.told user, (on user).1]
          rfl
        · intro id other
          exact noticesOf_cons_other other.symm
        · intro n member
          rcases List.mem_cons.mp member with rfl | earlier
          · exact held.fresh
          · exact h.fresh n earlier

end Steps

theorem inv_init : Inv init := by
  constructor
  · rfl
  · exact .inl ⟨rfl, rfl, rfl⟩
  · intro c waits
    cases waits
  · intro call member
    cases member
  · intro n member
    cases member

theorem Inv.step {s t : Hw} {e : Event} (h : Inv s) (kept : Kept s e) (taken : s.step e = some t) :
    Inv t := by
  cases e with
  | remainOnChannel wdev started =>
      simp only [Hw.step, Option.ite_none_right_eq_some, Option.some.injEq] at taken
      obtain ⟨⟨_, here⟩, rfl⟩ := taken
      exact h.remainOnChannel here
  | mgmtTx wdev started =>
      simp only [Hw.step, Option.ite_none_right_eq_some, Option.some.injEq] at taken
      obtain ⟨⟨_, here⟩, rfl⟩ := taken
      exact h.mgmtTx here
  | finish error status =>
      obtain ⟨c, waits, rfl⟩ := Option.map_eq_some_iff.mp taken
      exact h.finish waits kept
  | cancel =>
      simp only [Hw.step, Option.ite_none_right_eq_some, Option.some.injEq] at taken
      obtain ⟨_, rfl⟩ := taken
      exact h
  | close wdev =>
      simp only [Hw.step, Option.ite_none_right_eq_some, Option.some.injEq] at taken
      obtain ⟨_, rfl⟩ := taken
      exact h.close kept
  | remove wdev =>
      simp only [Hw.step, Option.ite_none_right_eq_some, Option.some.injEq] at taken
      obtain ⟨_, rfl⟩ := taken
      exact h.remove kept
  | chanSwitchInd =>
      obtain rfl := Option.some.inj taken
      exact h.chanSwitchInd kept
  | expInd =>
      obtain rfl := Option.some.inj taken
      exact h.expInd kept

instance (s : Hw) (e : Event) : Decidable (Kept s e) :=
  match e with
  | .finish _ _ => inferInstanceAs (Decidable (_ ∧ _ ∨ _))
  | .close _ | .remove _ => inferInstanceAs (Decidable (∀ _ ∈ s.heap, _))
  | .chanSwitchInd => inferInstanceAs (Decidable (∀ _ ∈ s.heap, _))
  | .expInd => inferInstanceAs (Decidable (∀ _ ∈ s.heap, _ → _ ∧ _))
  | .remainOnChannel _ _ | .mgmtTx _ _ | .cancel => inferInstanceAs (Decidable True)

end Aic8800.Cfg.Roc
