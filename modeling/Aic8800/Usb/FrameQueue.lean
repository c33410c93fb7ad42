import Aic8800.Lib.Buckets
import Aic8800.Lib.Run
import Mathlib

/-! # The priority queue of frames

Frames wait in one list for each priority. The queue counts them, and remembers a priority
above which there are none. When it is full, a new frame takes the place of one of a lower
priority, or is not taken.
-/

namespace Aic8800.Usb.FrameQueues

open Lib Buckets

/-- A frame remembers with what priority and in what order it was submitted. -/
structure Frame where
  prio : Nat
  seq : Nat
  deriving DecidableEq

structure FrameQueue where
  numPrio : Nat
  hiPrio : Nat
  qmax : UInt16
  qcnt : UInt16
  queuelist : Nat → List Frame

/-- What `aicwf_frame_enq` returns and leaves, and the frame that it has freed. -/
structure Enq where
  queue : FrameQueue
  accepted : Bool
  freed : Option Frame

namespace FrameQueue

variable (q : FrameQueue)

/-- `aicwf_frame_queue_init` -/
def init (numPrio : Nat) (maxLen : UInt16) : FrameQueue := ⟨numPrio, 0, maxLen, 0, fun _ => []⟩

/-- `aicwf_frame_queue_penq` -/
def penq (prio : Nat) (p : Frame) : Option FrameQueue :=
  if q.qmax.toNat ≤ (q.queuelist prio).length then none
  else
    some { q with
      queuelist := Function.update q.queuelist prio (q.queuelist prio ++ [p])
      qcnt := q.qcnt + 1
      hiPrio := if q.hiPrio < prio then prio else q.hiPrio }

/-- A list is emptied, and each of its frames counted off. -/
def flushList (prio : Nat) : FrameQueue :=
  { q with
    queuelist := Function.update q.queuelist prio []
    qcnt := q.qcnt - UInt16.ofNat (q.queuelist prio).length }

/-- `aicwf_frame_queue_flush` -/
def flush : FrameQueue := (List.range q.numPrio).foldl flushList q

/-- The priority that `aicwf_frame_queue_peek_tail` gives, if there are frames. -/
def peekTail : Option Nat :=
  if q.qcnt = 0 then none
  else some (((List.range q.hiPrio).find? fun prio => q.queuelist prio ≠ []).getD q.hiPrio)

/-- The loop of `aicwf_frame_dequeue`, which lowers `hi_prio` to a list that is not empty. -/
def lower (queuelist : Nat → List Frame) : Nat → Nat
  | 0 => 0
  | prio + 1 => if queuelist (prio + 1) = [] then lower queuelist prio else prio + 1

/-- `aicwf_frame_dequeue` -/
def dequeue : Option Frame × FrameQueue :=
  if q.qcnt = 0 then (none, q)
  else
    let prio := lower q.queuelist q.hiPrio
    let q := { q with hiPrio := prio }
    match q.queuelist prio with
    | [] => (none, q)
    | p :: rest =>
        (some p, { q with
          queuelist := Function.update q.queuelist prio rest
          qcnt := q.qcnt - 1 })

/-- `aicwf_skb_dequeue_tail` -/
def dequeueTail (prio : Nat) : Option Frame × FrameQueue :=
  match (q.queuelist prio).getLast? with
  | none => (none, q)
  | some p =>
      (some p, { q with
        queuelist := Function.update q.queuelist prio (q.queuelist prio).dropLast
        qcnt := q.qcnt - 1 })

/-- The priority that `aicwf_frame_enq` looks for a place at, when there is no room. -/
def prioModified (prio : Nat) : Option Nat :=
  if q.qmax.toNat ≤ (q.queuelist prio).length then some prio
  else if q.qmax ≤ q.qcnt then q.peekTail
  else none

/-- `aicwf_frame_enq`. The new frame is put where the old one was. -/
def enq (pkt : Frame) (prio : Nat) : Enq :=
  if (q.queuelist prio).length < q.qmax.toNat ∧ q.qcnt < q.qmax then
    ⟨(q.penq prio pkt).getD q, true, none⟩
  else
    match q.prioModified prio with
    | none => ⟨q, false, none⟩
    | some modified =>
        if prio ≤ modified then ⟨q, false, none⟩
        else
          let (freed, q) := q.dequeueTail modified
          match q.penq modified pkt with
          | none => ⟨q, false, freed⟩
          | some q => ⟨q, true, freed⟩

end FrameQueue

inductive Event where
  | enq (prio : Nat)
  | penq (prio : Nat)
  | dequeue
  | flush
  deriving DecidableEq

/-- The queue, and the number of the next frame. -/
structure State where
  queue : FrameQueue
  next : Nat

namespace State

variable (s : State)

def step (e : Event) : Option State :=
  match e with
  | .enq prio =>
      if prio < s.queue.numPrio then some ⟨(s.queue.enq ⟨prio, s.next⟩ prio).queue, s.next + 1⟩
      else none
  | .penq prio =>
      if prio < s.queue.numPrio then
        some ⟨(s.queue.penq prio ⟨prio, s.next⟩).getD s.queue, s.next + 1⟩
      else none
  | .dequeue => some { s with queue := s.queue.dequeue.2 }
  | .flush => some { s with queue := s.queue.flush }

end State

def init (numPrio : Nat) (maxLen : UInt16) : State := ⟨.init numPrio maxLen, 0⟩

/-- The frames are counted, in order, and where they belong, and the operations go by the
    priorities. -/
structure Sound (q : FrameQueue) : Prop where
  counted : q.qcnt.toNat = total q.numPrio q.queuelist
  few : q.qcnt ≤ q.qmax
  hint : ∀ prio, Highest q.numPrio q.queuelist prio → prio ≤ q.hiPrio
  placed : ∀ prio < q.numPrio, ∀ p ∈ q.queuelist prio, p.prio = prio
  /-- The oldest frame of the highest priority is taken. -/
  dequeues : ∀ p, q.dequeue.1 = some p ↔ ∃ prio, Highest q.numPrio q.queuelist prio ∧
    p ∈ q.queuelist prio ∧ ∀ p' ∈ q.queuelist prio, p.seq ≤ p'.seq
  room : ∀ pkt, ∀ prio < q.numPrio, q.qcnt < q.qmax →
    (q.enq pkt prio).accepted = true ∧ (q.enq pkt prio).freed = none ∧
      (q.enq pkt prio).queue.queuelist =
        Function.update q.queuelist prio (q.queuelist prio ++ [pkt])
  /-- A frame that is new to a full queue is not taken, or one of a lower priority is freed. -/
  full : ∀ pkt, ∀ prio < q.numPrio, q.qcnt = q.qmax →
    (q.enq pkt prio).accepted = false ∧ (q.enq pkt prio).freed = none ∧
        (q.enq pkt prio).queue = q ∨
      (q.enq pkt prio).accepted = true ∧ ∃ p ∈ q.queuelist p.prio,
        (q.enq pkt prio).freed = some p ∧ p.prio < prio

/-- The steps that keep the frames where they belong: no frame takes the place of another, and
    a frame is put into the queue only when there is room. -/
def Kept (s : State) : Event → Prop
  | .enq prio => s.queue.qmax ≤ s.queue.qcnt → ∀ other < prio, s.queue.queuelist other = []
  | .penq prio =>
      s.queue.qmax.toNat ≤ (s.queue.queuelist prio).length ∨ s.queue.qcnt < s.queue.qmax
  | .dequeue | .flush => True

/-! ## The invariant -/

structure Inv (s : State) : Prop where
  counted : s.queue.qcnt.toNat = total s.queue.numPrio s.queue.queuelist
  few : s.queue.qcnt ≤ s.queue.qmax
  hint : ∀ prio < s.queue.numPrio, s.queue.queuelist prio ≠ [] → prio ≤ s.queue.hiPrio
  outside : ∀ prio, s.queue.numPrio ≤ prio → s.queue.queuelist prio = []
  placed : ∀ prio, ∀ p ∈ s.queue.queuelist prio, p.prio = prio
  sorted : ∀ prio, (s.queue.queuelist prio).Pairwise fun p p' => p.seq < p'.seq
  numbered : ∀ prio, ∀ p ∈ s.queue.queuelist prio, p.seq < s.next

section Steps

variable {s : State} {prio : Nat}

/-- The loop ends at the highest list that is not empty. -/
theorem lower_spec {l : Nat → List Frame} {hi k : Nat} (below : k ≤ hi) (occupied : l k ≠ []) :
    l (FrameQueue.lower l hi) ≠ [] ∧ ∀ j ≤ hi, l j ≠ [] → j ≤ FrameQueue.lower l hi := by
  induction hi with
  | zero =>
      obtain rfl := Nat.le_zero.mp below
      exact ⟨occupied, fun j low _ => low⟩
  | succ hi ih =>
      unfold FrameQueue.lower
      split
      · rename_i empty
        have lower : ∀ j ≤ hi + 1, l j ≠ [] → j ≤ hi := by
          intro j low there
          rcases Nat.le_succ_iff.mp low with lower | rfl
          · exact lower
          · exact absurd empty there
        obtain ⟨found, highest⟩ := ih (lower k below occupied)
        exact ⟨found, fun j low there => highest j (lower j low there) there⟩
      · rename_i there
        exact ⟨there, fun j low _ => low⟩

theorem Inv.inside (h : Inv s) (occupied : s.queue.queuelist prio ≠ []) :
    prio < s.queue.numPrio := by
  by_contra outside
  exact occupied (h.outside prio (Nat.le_of_not_lt outside))

/-- When frames are counted, `aicwf_frame_dequeue` looks into the highest list that has one. -/
theorem Inv.lower (h : Inv s) (some : s.queue.qcnt ≠ 0) :
    Highest s.queue.numPrio s.queue.queuelist
      (FrameQueue.lower s.queue.queuelist s.queue.hiPrio) := by
  obtain ⟨k, inside, there⟩ : ∃ k < s.queue.numPrio, s.queue.queuelist k ≠ [] := by
    by_contra none
    push Not at none
    apply some
    rw [← UInt16.toNat_inj, h.counted, total_eq_zero.mpr none]
    rfl
  obtain ⟨found, highest⟩ := lower_spec (h.hint k inside there) there
  exact ⟨h.inside found, found, fun j below there => highest j (h.hint j below there) there⟩

theorem Inv.empty (h : Inv s) (none : s.queue.qcnt = 0) : s.queue.queuelist prio = [] := by
  by_contra there
  have all := total_eq_zero.mp (h.counted.symm.trans (congrArg UInt16.toNat none))
  exact there (all prio (h.inside there))

/-- The queue when a list gets shorter, at either end. -/
theorem Inv.shorten (h : Inv s) {xs : List Frame} {cnt : UInt16} {hi : Nat}
    (part : xs.Sublist (s.queue.queuelist prio))
    (counts : cnt.toNat + (s.queue.queuelist prio).length = s.queue.qcnt.toNat + xs.length)
    (hint : ∀ k < s.queue.numPrio, s.queue.queuelist k ≠ [] → k ≤ hi) :
    Inv { s with queue := { s.queue with
      hiPrio := hi, queuelist := Function.update s.queue.queuelist prio xs, qcnt := cnt } } := by
  have sub : ∀ k, (Function.update s.queue.queuelist prio xs k).Sublist (s.queue.queuelist k) := by
    intro k
    by_cases same : k = prio
    · subst same
      rwa [Function.update_self]
    · rw [Function.update_of_ne same]
  constructor
  · by_cases inside : prio < s.queue.numPrio
    · have moved : total s.queue.numPrio (Function.update s.queue.queuelist prio xs) +
          (s.queue.queuelist prio).length =
            total s.queue.numPrio s.queue.queuelist + xs.length := total_update inside
      have counted := h.counted
      show cnt.toNat = total s.queue.numPrio (Function.update s.queue.queuelist prio xs)
      omega
    · have none := h.outside prio (Nat.le_of_not_lt inside)
      rw [none] at part counts
      rw [List.sublist_nil.mp part] at counts ⊢
      show cnt.toNat = total s.queue.numPrio (Function.update s.queue.queuelist prio [])
      rw [← none, Function.update_eq_self, ← h.counted]
      exact counts
  · have shorter := part.length_le
    have few := UInt16.le_iff_toNat_le.mp h.few
    apply UInt16.le_iff_toNat_le.mpr
    show cnt.toNat ≤ s.queue.qmax.toNat
    omega
  · intro k inside there
    apply hint k inside
    intro empty
    exact there (List.sublist_nil.mp (empty ▸ sub k))
  · intro k outside
    exact List.sublist_nil.mp (h.outside k outside ▸ sub k)
  · exact fun k p member => h.placed k p ((sub k).subset member)
  · exact fun k => (h.sorted k).sublist (sub k)
  · exact fun k p member => h.numbered k p ((sub k).subset member)

/-- A frame that is not taken has used its number. -/
theorem Inv.pass (h : Inv s) : Inv { s with next := s.next + 1 } :=
  { h with numbered := fun k p member => (h.numbered k p member).trans (Nat.lt_succ_self _) }

theorem Inv.penq (h : Inv s) (inside : prio < s.queue.numPrio)
    (room : s.queue.qmax.toNat ≤ (s.queue.queuelist prio).length ∨ s.queue.qcnt < s.queue.qmax) :
    Inv ⟨(s.queue.penq prio ⟨prio, s.next⟩).getD s.queue, s.next + 1⟩ := by
  unfold FrameQueue.penq
  split
  · exact h.pass
  · rename_i notFull
    have below : s.queue.qcnt.toNat < s.queue.qmax.toNat :=
      UInt16.lt_iff_toNat_lt.mp (room.resolve_left notFull)
    have counts : (s.queue.qcnt + 1).toNat = s.queue.qcnt.toNat + 1 := by
      have small := s.queue.qmax.toNat_lt
      rw [UInt16.toNat_add, UInt16.toNat_one, Nat.mod_eq_of_lt (by omega)]
    constructor
    · show (s.queue.qcnt + 1).toNat = _
      rw [counts, h.counted]
      exact (total_append inside).symm
    · apply UInt16.le_iff_toNat_le.mpr
      show (s.queue.qcnt + 1).toNat ≤ s.queue.qmax.toNat
      omega
    · intro k inside there
      dsimp only [Option.getD_some] at there ⊢
      have above : s.queue.hiPrio ≤ if s.queue.hiPrio < prio then prio else s.queue.hiPrio := by
        split
        · exact Nat.le_of_lt ‹_›
        · exact le_rfl
      by_cases same : k = prio
      · subst same
        split
        · exact le_rfl
        · exact Nat.le_of_not_lt ‹_›
      · rw [Function.update_of_ne same] at there
        exact (h.hint k inside there).trans above
    · intro k outside
      dsimp only [Option.getD_some] at outside ⊢
      rw [Function.update_of_ne (by omega), h.outside k outside]
    · intro k p member
      dsimp only [Option.getD_some] at member
      by_cases same : k = prio
      · subst same
        rw [Function.update_self, List.mem_append, List.mem_singleton] at member
        rcases member with old | rfl
        · exact h.placed k p old
        · rfl
      · rw [Function.update_of_ne same] at member
        exact h.placed k p member
    · intro k
      dsimp only [Option.getD_some]
      by_cases same : k = prio
      · subst same
        rw [Function.update_self, List.pairwise_append]
        refine ⟨h.sorted k, List.pairwise_singleton _ _, fun p old p' new => ?_⟩
        rw [List.mem_singleton.mp new]
        exact h.numbered k p old
      · rw [Function.update_of_ne same]
        exact h.sorted k
    · intro k p member
      dsimp only [Option.getD_some] at member ⊢
      by_cases same : k = prio
      · subst same
        rw [Function.update_self, List.mem_append, List.mem_singleton] at member
        rcases member with old | rfl
        · exact (h.numbered k p old).trans (Nat.lt_succ_self _)
        · exact Nat.lt_succ_self _
      · rw [Function.update_of_ne same] at member
        exact (h.numbered k p member).trans (Nat.lt_succ_self _)

theorem Inv.dequeue (h : Inv s) : Inv { s with queue := s.queue.dequeue.2 } := by
  unfold FrameQueue.dequeue
  split
  · exact h
  · rename_i frames
    have top := h.lower frames
    have hint : ∀ k < s.queue.numPrio, s.queue.queuelist k ≠ [] →
        k ≤ FrameQueue.lower s.queue.queuelist s.queue.hiPrio := top.highest
    dsimp only
    split
    · rename_i empty
      exact absurd empty top.occupied
    · rename_i p rest list
      apply h.shorten (list ▸ List.sublist_cons_self p rest) _ hint
      have one : (1 : UInt16) ≤ s.queue.qcnt := by
        rw [UInt16.le_iff_toNat_le, UInt16.toNat_one]
        exact Nat.pos_of_ne_zero fun zero => frames (UInt16.toNat_inj.mp zero)
      have counts := UInt16.toNat_sub_of_le _ _ one
      rw [UInt16.le_iff_toNat_le] at one
      rw [list, List.length_cons, counts, UInt16.toNat_one] at *
      omega

theorem Inv.flushList (h : Inv s) : Inv { s with queue := s.queue.flushList prio } := by
  apply h.shorten (List.nil_sublist _) _ h.hint
  have all : (s.queue.queuelist prio).length ≤ s.queue.qcnt.toNat := by
    rw [h.counted]
    by_cases inside : prio < s.queue.numPrio
    · exact length_le_total inside
    · rw [h.outside prio (Nat.le_of_not_lt inside)]
      exact Nat.zero_le _
  have small := s.queue.qcnt.toNat_lt
  have length : (UInt16.ofNat (s.queue.queuelist prio).length).toNat =
      (s.queue.queuelist prio).length := UInt16.toNat_ofNat_of_lt' (all.trans_lt small)
  rw [UInt16.toNat_sub_of_le _ _ (by rwa [UInt16.le_iff_toNat_le, length]), length,
    List.length_nil]
  omega

theorem Inv.flush (h : Inv s) : Inv { s with queue := s.queue.flush } := by
  have lists : ∀ (prios : List Nat) (s : State), Inv s →
      Inv { s with queue := prios.foldl FrameQueue.flushList s.queue } := by
    intro prios
    induction prios with
    | nil => exact fun s h => h
    | cons prio prios ih => exact fun s h => ih _ h.flushList
  exact lists _ s h

theorem FrameQueue.dequeueTail_fst (q : FrameQueue) :
    (q.dequeueTail prio).1 = (q.queuelist prio).getLast? := by
  unfold FrameQueue.dequeueTail
  split
  · exact (‹_ = none› : _).symm
  · exact (‹_ = some _› : _).symm

/-- There is a place where a frame has been taken from. -/
theorem FrameQueue.penq_dequeueTail {q : FrameQueue} {p pkt : Frame}
    (last : (q.queuelist prio).getLast? = some p)
    (room : (q.queuelist prio).length ≤ q.qmax.toNat) :
    ((q.dequeueTail prio).2.penq prio pkt).isSome = true := by
  have some : 0 < (q.queuelist prio).length :=
    List.length_pos_of_ne_nil fun none => (by simp [none] at last)
  unfold FrameQueue.dequeueTail
  rw [last]
  unfold FrameQueue.penq
  rw [if_neg]
  · rfl
  · dsimp only
    rw [Function.update_self, List.length_dropLast]
    omega

/-- A frame waits at the priority that `aicwf_frame_queue_peek_tail` gives. -/
theorem Inv.peekTail (h : Inv s) (frames : s.queue.qcnt ≠ 0) :
    ∃ prio, s.queue.peekTail = some prio ∧ s.queue.queuelist prio ≠ [] := by
  unfold FrameQueue.peekTail
  rw [if_neg frames]
  refine ⟨_, rfl, ?_⟩
  cases found : (List.range s.queue.hiPrio).find? fun prio => s.queue.queuelist prio ≠ [] with
  | some prio =>
      have there := List.find?_some found
      exact of_decide_eq_true there
  | none =>
      have top := h.lower frames
      have below := h.hint _ top.inside top.occupied
      rcases Nat.lt_or_eq_of_le below with less | same
      · have empty := List.find?_eq_none.mp found _ (List.mem_range.mpr less)
        exact absurd (decide_eq_true top.occupied) empty
      · exact same ▸ top.occupied

/-- A frame for a full queue is turned away, or frees the last one of a lower priority. -/
theorem Inv.full (h : Inv s) (pkt : Frame) (full : s.queue.qmax ≤ s.queue.qcnt) :
    s.queue.enq pkt prio = ⟨s.queue, false, none⟩ ∨
      (s.queue.enq pkt prio).accepted = true ∧
        ∃ p, p.prio < prio ∧ p ∈ s.queue.queuelist p.prio ∧
          (s.queue.enq pkt prio).freed = some p := by
  have same : s.queue.qcnt.toNat = s.queue.qmax.toNat :=
    Nat.le_antisymm (UInt16.le_iff_toNat_le.mp h.few) (UInt16.le_iff_toNat_le.mp full)
  have noRoom : ¬((s.queue.queuelist prio).length < s.queue.qmax.toNat ∧
      s.queue.qcnt < s.queue.qmax) := by
    rintro ⟨-, room⟩
    rw [UInt16.lt_iff_toNat_lt] at room
    omega
  unfold FrameQueue.enq
  rw [if_neg noRoom]
  unfold FrameQueue.prioModified
  split_ifs with listFull
  · left
    dsimp only
    rw [if_pos le_rfl]
  · have frames : s.queue.qcnt ≠ 0 := by
      intro none
      have zero : s.queue.qcnt.toNat = 0 := congrArg UInt16.toNat none
      omega
    obtain ⟨modified, peeked, there⟩ := h.peekTail frames
    rw [peeked]
    dsimp only
    split_ifs with low
    · exact .inl rfl
    · right
      have last := List.getLast?_eq_some_getLast there
      have member := List.getLast_mem there
      have placed := h.placed modified _ member
      have inside := h.inside there
      have length : (s.queue.queuelist modified).length ≤ s.queue.qmax.toNat := by
        rw [← same, h.counted]
        exact length_le_total inside
      have some : 0 < (s.queue.queuelist modified).length := List.length_pos_of_ne_nil there
      have put : ((s.queue.dequeueTail modified).2.penq modified pkt).isSome = true :=
        FrameQueue.penq_dequeueTail last (by omega)
      rw [Option.eq_some_of_isSome put, FrameQueue.dequeueTail_fst, last]
      refine ⟨rfl, _, ?_, ?_, rfl⟩
      · rw [placed]
        exact Nat.lt_of_not_le low
      · rwa [placed]

theorem Inv.enq (h : Inv s) (inside : prio < s.queue.numPrio) (kept : Kept s (.enq prio)) :
    Inv ⟨(s.queue.enq ⟨prio, s.next⟩ prio).queue, s.next + 1⟩ := by
  rcases UInt16.le_or_lt s.queue.qmax s.queue.qcnt with full | room
  · rcases Inv.full h ⟨prio, s.next⟩ full with turned | ⟨-, p, lower, there, -⟩
    · rw [turned]
      exact h.pass
    · rw [kept full p.prio lower] at there
      exact absurd there List.not_mem_nil
  · have length : (s.queue.queuelist prio).length < s.queue.qmax.toNat := by
      rw [UInt16.lt_iff_toNat_lt, h.counted] at room
      exact (length_le_total inside).trans_lt room
    unfold FrameQueue.enq
    rw [if_pos ⟨length, room⟩]
    exact h.penq inside (.inr room)

theorem Inv.step {t : State} {e : Event} (h : Inv s) (kept : Kept s e) (taken : s.step e = some t) :
    Inv t := by
  cases e with
  | enq prio =>
      obtain ⟨inside, taken⟩ := Option.ite_none_right_eq_some.mp taken
      cases taken
      exact h.enq inside kept
  | penq prio =>
      obtain ⟨inside, taken⟩ := Option.ite_none_right_eq_some.mp taken
      cases taken
      exact h.penq inside kept
  | dequeue =>
      cases taken
      exact h.dequeue
  | flush =>
      cases taken
      exact h.flush

theorem Inv.dequeues (h : Inv s) (p : Frame) : s.queue.dequeue.1 = some p ↔
    ∃ prio, Highest s.queue.numPrio s.queue.queuelist prio ∧
      p ∈ s.queue.queuelist prio ∧ ∀ p' ∈ s.queue.queuelist prio, p.seq ≤ p'.seq := by
  unfold FrameQueue.dequeue
  split
  · rename_i none
    constructor
    · nofun
    · rintro ⟨prio, top, -⟩
      exact absurd (h.empty none) top.occupied
  · rename_i frames
    have top := h.lower frames
    have sorted := h.sorted (FrameQueue.lower s.queue.queuelist s.queue.hiPrio)
    dsimp only
    split
    · rename_i empty
      exact absurd empty top.occupied
    · rename_i first rest list
      rw [list, List.pairwise_cons] at sorted
      constructor
      · intro taken
        obtain rfl := Option.some.inj taken
        refine ⟨_, top, list ▸ List.mem_cons_self, fun p' member => ?_⟩
        rw [list] at member
        rcases List.mem_cons.mp member with rfl | later
        · exact le_rfl
        · exact Nat.le_of_lt (sorted.1 p' later)
      · rintro ⟨prio, top', member, oldest⟩
        obtain rfl := top.unique top'
        rw [list] at member oldest
        rcases List.mem_cons.mp member with rfl | later
        · rfl
        · have before := sorted.1 p later
          have after := oldest first List.mem_cons_self
          omega

theorem Inv.sound (h : Inv s) : Sound s.queue where
  counted := h.counted
  few := h.few
  hint prio top := h.hint prio top.inside top.occupied
  placed prio _ := h.placed prio
  dequeues := h.dequeues
  room pkt prio inside room := by
    have length : (s.queue.queuelist prio).length < s.queue.qmax.toNat := by
      rw [UInt16.lt_iff_toNat_lt, h.counted] at room
      exact (length_le_total inside).trans_lt room
    unfold FrameQueue.enq FrameQueue.penq
    rw [if_pos ⟨length, room⟩, if_neg (Nat.not_le_of_lt length)]
    exact ⟨rfl, rfl, rfl⟩
  full pkt prio inside full := by
    rcases Inv.full h pkt (full ▸ UInt16.le_refl _) with turned | evicted
    · rw [turned]
      exact .inl ⟨rfl, rfl, rfl⟩
    · obtain ⟨accepted, p, lower, there, freed⟩ := evicted
      exact .inr ⟨accepted, p, there, freed, lower⟩

theorem Inv.init (numPrio : Nat) (maxLen : UInt16) : Inv (init numPrio maxLen) where
  counted := (total_eq_zero.mpr fun _ _ => rfl).symm
  few := UInt16.zero_le
  hint _ _ there := absurd rfl there
  outside _ _ := rfl
  placed _ _ := nofun
  sorted _ := .nil
  numbered _ _ := nofun

end Steps

/-- Frames that are put into the queue while there is room for them, or that nothing of a lower
    priority makes room for, are counted, kept in order, and taken by their priorities. -/
theorem frame_queue_sound (numPrio : Nat) (maxLen : UInt16) (s : State)
    (run : Run.Reachable State.step Kept (init numPrio maxLen) s) : Sound s.queue :=
  (run.invariant Inv (.init numPrio maxLen) fun _ _ _ h kept taken => h.step kept taken).sound

instance (s : State) (e : Event) : Decidable (Kept s e) :=
  match e with
  | .enq prio => inferInstanceAs (Decidable (s.queue.qmax ≤ s.queue.qcnt →
      ∀ other < prio, s.queue.queuelist other = []))
  | .penq prio => inferInstanceAs (Decidable
      (s.queue.qmax.toNat ≤ (s.queue.queuelist prio).length ∨ s.queue.qcnt < s.queue.qmax))
  | .dequeue | .flush => inferInstanceAs (Decidable True)

/-- Two priorities, and a queue that gets full, turns a frame away, and is emptied from both
    lists. -/
theorem frame_queue_sound_run : ∃ s : State,
    Run.exec State.step (init 4 3) [.enq 1, .enq 3, .penq 1, .enq 1, .dequeue, .dequeue, .enq 2,
      .flush, .enq 0] = some s ∧ Sound s.queue := by
  have runs : (Run.exec State.step (init 4 3) [.enq 1, .enq 3, .penq 1, .enq 1, .dequeue, .dequeue,
      .enq 2, .flush, .enq 0]).isSome = true := by decide
  obtain ⟨s, run⟩ := Option.isSome_iff_exists.mp runs
  exact ⟨s, run, frame_queue_sound 4 3 s (Run.Reachable.exec_guarded
    (fun _ _ => of_decide_eq_true) _ .init run (by decide))⟩

/-- A frame that takes the place of one of a lower priority is stored where that one was. -/
theorem frame_queue_misplaces : ¬∀ (numPrio : Nat) (maxLen : UInt16) (s : State),
    Run.Reachable State.step Run.Free (init numPrio maxLen) s → Sound s.queue := by
  intro sound
  have placed := (sound 2 1 _ (.exec [.enq 0, .enq 1] .init rfl)).placed 0 (by decide)
    ⟨1, 1⟩ (by decide)
  exact absurd placed (by decide)

end Aic8800.Usb.FrameQueues
