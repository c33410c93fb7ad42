import Mathlib.Data.List.Nodup
import Mathlib.Logic.Function.Basic
import Aic8800.Lib.Run

/-! # The ring of frames that wait for a confirmation

A frame that needs a confirmation is entered in `tx_host_id` under a number that the
descriptor carries to the firmware. The firmware sends the number back, with the
status of the frame.
-/

namespace Aic8800.Tx

open Lib

variable {Skb : Type}

/-- `USB_TXDESC_CNT` -/
def usbTxdescCnt : Nat := 64

/-- The value at which `txdesc_free_idx` starts again at 0. -/
def idxEnd : Nat := 0x40000000

def slotOf (idx : Nat) : Fin usbTxdescCnt := ⟨idx % usbTxdescCnt, Nat.mod_lt idx (by decide)⟩

/-- `status_desc_addr` of a frame that needs a confirmation. -/
def statusDescAddr (freeIdx : Nat) : Nat := 0x80000000 ||| freeIdx

/-- The number in a word of the firmware, without the flag. -/
def numberOf (word : Nat) : Nat := word % 0x80000000

/-- A frame with the number it was pushed under. The serial counts the pushes. -/
structure Pushed (Skb : Type) where
  serial : Nat
  number : Nat
  skb : Skb
  deriving DecidableEq

/-- How `rwnx_txdatacfm` disposes of a frame that it accepts. -/
inductive Outcome where
  | released
  | retried
  deriving DecidableEq

/-- The ring of queue 0, with the history of the run: what was pushed, what the
    confirmations resolved to, and what the callback has accepted. -/
structure Env (Skb : Type) where
  txdescFreeIdx : Nat
  txdescUsedIdx : Nat
  txHostId : Fin usbTxdescCnt → Option (Pushed Skb)
  pushed : List (Pushed Skb)
  resolved : List (Nat × Pushed Skb)
  handed : List (Nat × Outcome)

namespace Env

/-- `aicwf_usb_host_init` -/
def init : Env Skb where
  txdescFreeIdx := 0
  txdescUsedIdx := 0
  txHostId := fun _ => none
  pushed := []
  resolved := []
  handed := []

end Env

/-- A confirmation, and what `rwnx_txdatacfm` reads besides. -/
structure Confirm where
  status : UInt32
  word : UInt32
  usbDown : Bool
  mgmt : Bool
  txqActive : Bool
  deriving DecidableEq

/-- `rwnx_txdatacfm`: whether it returns -1, and else what becomes of the frame. -/
def rwnxTxdatacfm (cfm : Confirm) : Option Outcome :=
  if cfm.status = 0 then none
  else if cfm.usbDown then some .released
  else if cfm.mgmt then some .released
  else if cfm.txqActive && (cfm.status.toNat.testBit 1 || cfm.status.toNat.testBit 2) then
    some .retried
  else some .released

/-- What the next push enters. -/
def Env.entry (s : Env Skb) (skb : Skb) : Pushed Skb :=
  { serial := s.pushed.length, number := s.txdescFreeIdx, skb }

/-- `aicwf_usb_host_txdesc_push` -/
def txdescPush (s : Env Skb) (skb : Skb) : Env Skb :=
  { s with
    txHostId := Function.update s.txHostId (slotOf s.txdescFreeIdx) (some (s.entry skb))
    txdescFreeIdx := if s.txdescFreeIdx + 1 = idxEnd then 0 else s.txdescFreeIdx + 1
    pushed := s.pushed ++ [s.entry skb] }

/-- `aicwf_usb_host_tx_cfm_handler` -/
def txCfmHandler (s : Env Skb) (cfm : Confirm) : Env Skb :=
  let slot := slotOf cfm.word.toNat
  let cleared := Function.update s.txHostId slot none
  match s.txHostId slot with
  | none => { s with txHostId := cleared, txdescUsedIdx := cfm.word.toNat }
  | some host =>
      let resolved := s.resolved ++ [(cfm.word.toNat, host)]
      match rwnxTxdatacfm cfm with
      | none =>
          { s with
            txHostId := Function.update cleared slot (some host)
            txdescUsedIdx := cfm.word.toNat
            resolved := resolved }
      | some outcome =>
          { s with
            txHostId := cleared
            resolved := resolved
            handed := s.handed ++ [(host.serial, outcome)] }

inductive Event (Skb : Type) where
  | push (skb : Skb)
  | confirm (cfm : Confirm)

def ringStep (s : Env Skb) : Event Skb → Option (Env Skb)
  | .push skb => some (txdescPush s skb)
  | .confirm cfm => some (txCfmHandler s cfm)

/-! ## What the ring is for -/

/-- Confirmations resolve to the frame with their number, a frame stays in the ring
    until the callback accepts it, and it does so once. -/
structure Tracked (s : Env Skb) : Prop where
  exact : ∀ entry ∈ s.resolved, entry.2.number = numberOf entry.1
  kept : ∀ host ∈ s.pushed, (∃ slot, s.txHostId slot = some host) ∨ host.serial ∈ s.handed.map Prod.fst
  once : (s.handed.map Prod.fst).Nodup

/-- The slot of a push is empty; the slot of a confirmation is empty or holds the frame
    with that very number. -/
def Matches (s : Env Skb) : Event Skb → Prop
  | .push _ => s.txHostId (slotOf s.txdescFreeIdx) = none
  | .confirm cfm =>
      ∀ host, s.txHostId (slotOf cfm.word.toNat) = some host → host.number = numberOf cfm.word.toNat

/-! ## The invariant of the ring -/

/-- What holds in every run: a frame in the ring is one that was pushed and not yet
    accepted, no frame is in two slots, and its slot is the one of its number. -/
structure Ring (s : Env Skb) : Prop where
  bound : s.txdescFreeIdx < idxEnd
  serials : s.pushed.map Pushed.serial = List.range s.pushed.length
  logged : ∀ slot host, s.txHostId slot = some host → host ∈ s.pushed
  placed : ∀ slot host, s.txHostId slot = some host →
    host.number < idxEnd ∧ slotOf host.number = slot
  apart : ∀ slot other host, s.txHostId slot = some host → s.txHostId other = some host → slot = other
  waits : ∀ slot host, s.txHostId slot = some host → host.serial ∉ s.handed.map Prod.fst
  done : ∀ serial ∈ s.handed.map Prod.fst, serial < s.pushed.length
  once : (s.handed.map Prod.fst).Nodup

section Serials

variable {s : Env Skb}

theorem Ring.serial_lt (ring : Ring s) {host : Pushed Skb} (member : host ∈ s.pushed) :
    host.serial < s.pushed.length := by
  have among : host.serial ∈ s.pushed.map Pushed.serial := List.mem_map.mpr ⟨host, member, rfl⟩
  rw [ring.serials] at among
  exact List.mem_range.mp among

/-- The serial tells pushes apart. -/
theorem Ring.serial_inj (ring : Ring s) {a b : Pushed Skb} (left : a ∈ s.pushed)
    (right : b ∈ s.pushed) (same : a.serial = b.serial) : a = b := by
  have distinct : (s.pushed.map Pushed.serial).Nodup := ring.serials ▸ List.nodup_range
  exact List.inj_on_of_nodup_map distinct left right same

theorem Ring.entry_new (ring : Ring s) (skb : Skb) : s.entry skb ∉ s.pushed := by
  intro member
  have low := ring.serial_lt member
  exact Nat.lt_irrefl _ low

end Serials

theorem ring_init : Ring (Env.init : Env Skb) where
  bound := Nat.zero_lt_succ _
  serials := rfl
  logged := fun _ _ found => by cases found
  placed := fun _ _ found => by cases found
  apart := fun _ _ _ found => by cases found
  waits := fun _ _ found => by cases found
  done := fun _ member => by cases member
  once := List.nodup_nil

theorem update_some {slots : Fin usbTxdescCnt → Option (Pushed Skb)} {slot other : Fin usbTxdescCnt}
    {new host : Pushed Skb} (found : Function.update slots slot (some new) other = some host) :
    (other = slot ∧ host = new) ∨ (other ≠ slot ∧ slots other = some host) := by
  by_cases here : other = slot
  · subst here
    rw [Function.update_self] at found
    exact .inl ⟨rfl, (Option.some.inj found).symm⟩
  · rw [Function.update_of_ne here] at found
    exact .inr ⟨here, found⟩

theorem update_none {slots : Fin usbTxdescCnt → Option (Pushed Skb)} {slot other : Fin usbTxdescCnt}
    {host : Pushed Skb} (found : Function.update slots slot none other = some host) :
    other ≠ slot ∧ slots other = some host := by
  by_cases here : other = slot
  · subst here
    rw [Function.update_self] at found
    cases found
  · rw [Function.update_of_ne here] at found
    exact ⟨here, found⟩

theorem txdescPush_ring {s : Env Skb} (ring : Ring s) (skb : Skb) : Ring (txdescPush s skb) where
  bound := by
    have low := ring.bound
    simp only [txdescPush]
    split <;> simp only [idxEnd] at * <;> omega
  serials := by
    simp only [txdescPush, List.map_append, ring.serials, List.length_append, List.length_singleton,
      List.range_succ]
    rfl
  logged := by
    intro slot host found
    cases update_some found with
    | inl new => exact new.2 ▸ List.mem_append_right _ (List.mem_singleton.mpr rfl)
    | inr old => exact List.mem_append_left _ (ring.logged slot host old.2)
  placed := by
    intro slot host found
    cases update_some found with
    | inl new =>
        obtain ⟨rfl, rfl⟩ := new
        exact ⟨ring.bound, rfl⟩
    | inr old => exact ring.placed slot host old.2
  apart := by
    intro slot other host found also
    cases update_some found with
    | inl new =>
        obtain ⟨rfl, rfl⟩ := new
        cases update_some also with
        | inl same => exact same.1.symm
        | inr old => exact absurd (ring.logged other _ old.2) (ring.entry_new skb)
    | inr old =>
        cases update_some also with
        | inl new =>
            obtain ⟨rfl, rfl⟩ := new
            exact absurd (ring.logged slot _ old.2) (ring.entry_new skb)
        | inr both => exact ring.apart slot other host old.2 both.2
  waits := by
    intro slot host found
    cases update_some found with
    | inl new =>
        obtain ⟨rfl, rfl⟩ := new
        intro member
        exact Nat.lt_irrefl _ (ring.done _ member)
    | inr old => exact ring.waits slot host old.2
  done := by
    intro serial member
    have low := ring.done serial member
    simp only [txdescPush, List.length_append, List.length_singleton]
    omega
  once := ring.once

/-- What a confirmation does: nothing to the ring if its slot is empty; else the frame
    goes back into its slot, or leaves the ring with an outcome. -/
theorem txCfmHandler_cases (s : Env Skb) (cfm : Confirm) :
    (s.txHostId (slotOf cfm.word.toNat) = none ∧
      txCfmHandler s cfm = { s with txdescUsedIdx := cfm.word.toNat }) ∨
    ∃ host, s.txHostId (slotOf cfm.word.toNat) = some host ∧
      ((rwnxTxdatacfm cfm = none ∧ txCfmHandler s cfm =
        { s with txdescUsedIdx := cfm.word.toNat, resolved := s.resolved ++ [(cfm.word.toNat, host)] }) ∨
      ∃ outcome, rwnxTxdatacfm cfm = some outcome ∧ txCfmHandler s cfm =
        { s with
          txHostId := Function.update s.txHostId (slotOf cfm.word.toNat) none
          resolved := s.resolved ++ [(cfm.word.toNat, host)]
          handed := s.handed ++ [(host.serial, outcome)] }) := by
  cases found : s.txHostId (slotOf cfm.word.toNat) with
  | none =>
      have same : Function.update s.txHostId (slotOf cfm.word.toNat) none = s.txHostId :=
        Function.update_eq_self_iff.mpr found.symm
      simp [txCfmHandler, found, same]
  | some host =>
      have back : Function.update s.txHostId (slotOf cfm.word.toNat) (some host) = s.txHostId :=
        Function.update_eq_self_iff.mpr found.symm
      cases callback : rwnxTxdatacfm cfm with
      | none => simp [txCfmHandler, found, callback, Function.update_idem, back]
      | some outcome => simp [txCfmHandler, found, callback]

theorem txCfmHandler_ring {s : Env Skb} (ring : Ring s) (cfm : Confirm) :
    Ring (txCfmHandler s cfm) := by
  obtain ⟨-, same⟩ | ⟨host, found, ⟨-, same⟩ | ⟨outcome, -, same⟩⟩ := txCfmHandler_cases s cfm
  · rw [same]
    exact { ring with }
  · rw [same]
    exact { ring with }
  · rw [same]
    exact
      { bound := ring.bound
        serials := ring.serials
        logged := fun slot other here => ring.logged slot other (update_none here).2
        placed := fun slot other here => ring.placed slot other (update_none here).2
        apart := fun slot next other here there =>
          ring.apart slot next other (update_none here).2 (update_none there).2
        waits := by
          intro slot other here member
          obtain ⟨elsewhere, there⟩ := update_none here
          rw [List.map_append, List.mem_append] at member
          cases member with
          | inl before => exact ring.waits slot other there before
          | inr now =>
              have serial : other.serial = host.serial := by simpa using now
              obtain rfl := ring.serial_inj (ring.logged slot other there) (ring.logged _ host found)
                serial
              exact elsewhere (ring.apart slot _ other there found)
        done := by
          intro serial member
          rw [List.map_append, List.mem_append] at member
          cases member with
          | inl before => exact ring.done serial before
          | inr now =>
              have same : serial = host.serial := by simpa using now
              exact same ▸ ring.serial_lt (ring.logged _ host found)
        once := by
          rw [List.map_append]
          apply List.nodup_append'.mpr
          exact ⟨ring.once, List.nodup_singleton _, by simpa using ring.waits _ host found⟩ }

/-! ## Matching confirmations -/

theorem tracked_init : Tracked (Env.init : Env Skb) where
  exact := fun _ member => by cases member
  kept := fun _ member => by cases member
  once := List.nodup_nil

/-- A push loses the frame that it finds in its slot, and no other. -/
theorem txdescPush_tracked {s : Env Skb} (ring : Ring s) (tracked : Tracked s) (skb : Skb) :
    Tracked (txdescPush s skb) ↔ Matches s (.push skb) := by
  constructor
  · intro after
    cases found : s.txHostId (slotOf s.txdescFreeIdx) with
    | none => exact found
    | some host =>
        have member := ring.logged _ host found
        cases after.kept host (List.mem_append_left _ member) with
        | inl inside =>
            obtain ⟨slot, here⟩ := inside
            cases update_some here with
            | inl new => exact absurd (new.2 ▸ member) (ring.entry_new skb)
            | inr old => exact absurd (ring.apart slot _ host old.2 found) old.1
        | inr handed => exact absurd handed (ring.waits _ host found)
  · intro empty
    refine { exact := tracked.exact, kept := fun host member => ?_, once := tracked.once }
    cases List.mem_append.mp member with
    | inl before =>
        cases tracked.kept host before with
        | inl inside =>
            obtain ⟨slot, here⟩ := inside
            have elsewhere : slot ≠ slotOf s.txdescFreeIdx := by
              rintro rfl
              cases empty.symm.trans here
            exact .inl ⟨slot, (Function.update_of_ne elsewhere _ _).trans here⟩
        | inr handed => exact .inr handed
    | inr now =>
        obtain rfl := List.mem_singleton.mp now
        exact .inl ⟨_, Function.update_self _ _ _⟩

theorem tracked_exact {resolved : List (Nat × Pushed Skb)} {word : Nat} {host : Pushed Skb}
    (before : ∀ entry ∈ resolved, entry.2.number = numberOf entry.1) :
    (∀ entry ∈ resolved ++ [(word, host)], entry.2.number = numberOf entry.1) ↔
      host.number = numberOf word := by
  constructor
  · intro all
    exact all (word, host) (List.mem_append_right _ (List.mem_singleton.mpr rfl))
  · intro now entry member
    cases List.mem_append.mp member with
    | inl old => exact before entry old
    | inr new =>
        obtain rfl := List.mem_singleton.mp new
        exact now

/-- A confirmation resolves to the frame in its slot, whatever its number is. -/
theorem txCfmHandler_tracked {s : Env Skb} (ring : Ring s) (tracked : Tracked s) (cfm : Confirm) :
    Tracked (txCfmHandler s cfm) ↔ Matches s (.confirm cfm) := by
  have once := (txCfmHandler_ring ring cfm).once
  obtain ⟨empty, same⟩ | ⟨host, found, ⟨-, same⟩ | ⟨outcome, -, same⟩⟩ := txCfmHandler_cases s cfm
  · rw [same]
    constructor
    · intro _ host found
      cases empty.symm.trans found
    · exact fun _ => { tracked with }
  · have one : Matches s (.confirm cfm) ↔ host.number = numberOf cfm.word.toNat := by
      simp [Matches, found]
    rw [same, one, ← tracked_exact tracked.exact]
    exact ⟨fun after => after.exact, fun exact => { tracked with exact }⟩
  · have one : Matches s (.confirm cfm) ↔ host.number = numberOf cfm.word.toNat := by
      simp [Matches, found]
    rw [same] at once
    rw [same, one, ← tracked_exact tracked.exact]
    refine ⟨fun after => after.exact, fun exact => { exact, kept := fun other member => ?_, once }⟩
    cases tracked.kept other member with
    | inl inside =>
        obtain ⟨slot, here⟩ := inside
        by_cases slot_eq : slot = slotOf cfm.word.toNat
        · subst slot_eq
          obtain rfl := Option.some.inj (found.symm.trans here)
          exact .inr (by simp)
        · exact .inl ⟨slot, (Function.update_of_ne slot_eq _ _).trans here⟩
    | inr handed => exact .inr (by simp [List.mem_map.mp handed])

theorem ringStep_ring {s t : Env Skb} {event : Event Skb} (ring : Ring s)
    (h : ringStep s event = some t) : Ring t := by
  cases event with
  | push skb =>
      obtain rfl := Option.some.inj h
      exact txdescPush_ring ring skb
  | confirm cfm =>
      obtain rfl := Option.some.inj h
      exact txCfmHandler_ring ring cfm

theorem ringStep_tracked {s t : Env Skb} {event : Event Skb} (ring : Ring s) (tracked : Tracked s)
    (h : ringStep s event = some t) : Tracked t ↔ Matches s event := by
  cases event with
  | push skb =>
      obtain rfl := Option.some.inj h
      exact txdescPush_tracked ring tracked skb
  | confirm cfm =>
      obtain rfl := Option.some.inj h
      exact txCfmHandler_tracked ring tracked cfm

/-- The word that the descriptor of a frame carries leads back to its slot and number. -/
theorem statusDescAddr_leads {number : Nat} (bound : number < idxEnd) :
    slotOf (statusDescAddr number) = slotOf number ∧ numberOf (statusDescAddr number) = number := by
  have sum : statusDescAddr number = 0x80000000 + number := by
    have low : number < 2 ^ 31 := by
      simp only [idxEnd] at bound
      omega
    have split := Nat.two_pow_add_eq_or_of_lt low 1
    simp only [Nat.reducePow, Nat.mul_one] at split
    exact split.symm
  simp only [idxEnd] at bound
  constructor
  · apply Fin.ext
    simp only [slotOf, sum, usbTxdescCnt]
    omega
  · simp only [numberOf, sum]
    omega

/-- While pushes find their slots empty and confirmations match, no frame is lost and
    each confirmation resolves to the frame with its number; a step that does not match
    breaks this. -/
theorem confirmations_resolve (s : Env Skb)
    (run : Run.Reachable ringStep Matches (Env.init : Env Skb) s) :
    Tracked s ∧ (∀ slot host, s.txHostId slot = some host →
      slotOf (statusDescAddr host.number) = slot ∧ numberOf (statusDescAddr host.number) = host.number) ∧
      ∀ event t, ringStep s event = some t → (Tracked t ↔ Matches s event) := by
  have holds : Ring s ∧ Tracked s := by
    apply run.invariant (fun s => Ring s ∧ Tracked s)
    · exact ⟨ring_init, tracked_init⟩
    · intro s event t holds allowed taken
      exact ⟨ringStep_ring holds.1 taken, (ringStep_tracked holds.1 holds.2 taken).mpr allowed⟩
  obtain ⟨ring, tracked⟩ := holds
  refine ⟨tracked, fun slot host found => ?_, fun event t taken => ringStep_tracked ring tracked taken⟩
  obtain ⟨bound, here⟩ := ring.placed slot host found
  obtain ⟨leads, number⟩ := statusDescAddr_leads bound
  exact ⟨leads.trans here, number⟩

/-- The frame with the number 0 is sent and acknowledged. -/
theorem confirmations_resolve_one : ∃ s : Env Nat,
    s.resolved = [(0x80000000, ⟨0, 0, 7⟩)] ∧ s.handed = [(0, .released)] ∧ Tracked s := by
  let cfm : Confirm := ⟨9, 0x80000000, false, false, true⟩
  have pushed : Run.Reachable ringStep Matches (Env.init : Env Nat) (txdescPush Env.init 7) :=
    .next (.push 7) .init rfl rfl
  have inside : (txdescPush (Env.init : Env Nat) 7).txHostId (slotOf cfm.word.toNat) =
      some ⟨0, 0, 7⟩ := by
    decide +kernel
  have fits : Matches (txdescPush (Env.init : Env Nat) 7) (.confirm cfm) := by
    intro host found
    rw [inside] at found
    rw [← Option.some.inj found]
    decide +kernel
  have tracked := (confirmations_resolve _ (.next (.confirm cfm) pushed fits rfl)).1
  exact ⟨_, by decide +kernel, by decide +kernel, tracked⟩

/-- Sixty-five frames are pushed before the first confirmation comes: the last of them
    is put in the slot of the first. -/
theorem push_overwrites : ¬ ∀ s : Env Nat, Run.Reachable ringStep Run.Free Env.init s → Tracked s := by
  intro all
  have ran : ((Run.exec ringStep Env.init ((List.range 65).map .push)).map fun s =>
      (s.pushed.head?, s.handed, decide (∀ slot, s.txHostId slot ≠ some ⟨0, 0, 0⟩))) =
        some (some ⟨0, 0, 0⟩, [], true) := by
    decide +kernel
  obtain ⟨s, reached, facts⟩ := Option.map_eq_some_iff.mp ran
  simp only [Prod.mk.injEq, decide_eq_true_eq] at facts
  obtain ⟨first, none, gone⟩ := facts
  have tracked := all s (Run.Reachable.exec _ .init reached)
  cases tracked.kept ⟨0, 0, 0⟩ (List.mem_of_mem_head? first) with
  | inl inside =>
      obtain ⟨slot, here⟩ := inside
      exact gone slot here
  | inr handed =>
      rw [none] at handed
      cases handed

end Aic8800.Tx
