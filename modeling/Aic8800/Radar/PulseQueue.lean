import Aic8800.Radar.Detector
import Mathlib

/-! # The queue of pulses

Each detector queues pulses, the newest first, and counts them. Pulses that are older than the
window, or too many, are taken from the other end. Here the queue is as the code has it, with its
counter, with the pool that its elements come from and with the 64-bit time stamps. It is used by
the detectors of both kinds, for short waveforms and for long ones.
-/

namespace Aic8800.Radar.PulseQueues

open Lib

/-- `max_count` and `window_size` -/
structure Limits where
  maxCount : Nat
  windowSize : Nat

/-- What `pde_short_init` and `pde_long_init` set. -/
def limits (rs : Specs) : Limits :=
  if rs.type = .long then ⟨20, 12000000⟩ else ⟨u32 rs.maxCount, rs.windowSize⟩

/-- The queue of a detector, and how many elements the pool has. -/
structure PulseQueue where
  pulses : List Nat
  count : Nat
  lastTs : Nat
  pool : Nat
  deriving DecidableEq

/-- The difference of two `u64`. -/
def sub64 (a b : Nat) : Nat := u64 (a + 18446744073709551616 - b)

/-- A `u32` less one. -/
def pred32 (n : Nat) : Nat := u32 (n + 4294967295)

namespace PulseQueue

variable (lim : Limits) (q : PulseQueue)

/-- `pulse_queue_get_tail` -/
def getTail : Option Nat := q.pulses.getLast?

/-- `pulse_queue_dequeue` -/
def dequeue : PulseQueue :=
  match q.getTail with
  | none => q
  | some _ =>
      { q with pulses := q.pulses.dropLast, count := pred32 q.count, pool := q.pool + 1 }

/-- The loop of `pulse_queue_check_window`, which `fuel` is enough for when there are no more
    pulses than that. -/
def age (minValidTs : Nat) : Nat → PulseQueue → PulseQueue
  | 0, q => q
  | fuel + 1, q =>
      match q.getTail with
      | none => q
      | some p => if minValidTs ≤ p then q else age minValidTs fuel q.dequeue

/-- `pulse_queue_check_window` -/
def checkWindow : PulseQueue :=
  if q.count < 2 then q
  else if q.lastTs ≤ lim.windowSize then q
  else age (q.lastTs - lim.windowSize) q.pulses.length q

/-- An element for the pulse is put in front. -/
def push (ts : Nat) : PulseQueue :=
  { pulses := ts :: q.pulses, count := u32 (q.count + 1), lastTs := ts, pool := q.pool - 1 }

/-- `pulse_queue_enqueue`. An element is allocated when the pool has none. -/
def enqueue (ts : Nat) (allocated : Bool) : PulseQueue :=
  if q.pool = 0 ∧ allocated = false then q
  else
    let q := (q.push ts).checkWindow lim
    if lim.maxCount ≤ q.count then q.dequeue else q

/-- The queue after `pri_detector_reset`. -/
def reset (ts : Nat) : PulseQueue := ⟨[], 0, ts, q.pool + q.pulses.length⟩

end PulseQueue

/-- A detector, and `last_pulse_ts` of its chain. -/
structure State where
  queue : PulseQueue
  sequences : List PriSequence
  now : Nat
  deriving DecidableEq

/-! ## The detectors -/

/-- What `pde_short_add_pulse` and `pde_long_add_pulse` leave, and whether they return a
    sequence. -/
structure Added where
  found : Bool
  queue : PulseQueue
  sequences : List PriSequence

section Detectors

variable (rs : Specs) (q : PulseQueue) (sequences : List PriSequence) (ts : Nat)

/-- `pde_short_add_pulse` -/
def pdeShortAddPulse (alloc : Allocations) : Added :=
  if q.count = 0 then ⟨false, q.enqueue (limits rs) ts alloc.pulse, sequences⟩
  else if sub64 ts q.lastTs < rs.maxPriTolerance then ⟨false, q, sequences⟩
  else
    let (maxUpdatedSeq, existing) := pdeShortAddToExistingSeqs rs ts sequences
    match pdeShortCreateSequences rs ts maxUpdatedSeq q.pulses 0 alloc.sequences existing with
    | (false, _) => ⟨false, q.reset ts, []⟩
    | (true, sequences) =>
        match pdeShortCheckDetection rs sequences with
        | none => ⟨false, q.enqueue (limits rs) ts alloc.pulse, sequences⟩
        | some _ => ⟨true, q, sequences⟩

/-- `LONG_RADAR_BURST_MIN_DURATION` -/
def longRadarBurstMinDuration : Nat := 600000

/-- The first sequence of a long waveform. -/
def firstBurst (windowSize : Nat) : PriSequence where
  pri := 0
  dur := 0
  count := 1
  countFalses := 1
  firstTs := ts
  lastTs := ts
  deadlineTs := u64 (ts + windowSize)
  ppbThresh := 0

/-- The sequence starts with the first pulse that is not too old; the pulses before it are
    dropped. -/
def restart (windowSize minValidTs : Nat) :
    Nat → PulseQueue → PriSequence → PulseQueue × PriSequence
  | 0, q, ps => (q, ps)
  | fuel + 1, q, ps =>
      match q.getTail with
      | none => (q, ps)
      | some p =>
          if minValidTs ≤ p then
            (q, { ps with firstTs := p, deadlineTs := u64 (p + windowSize) })
          else restart windowSize minValidTs fuel q.dequeue { ps with count := pred32 ps.count }

/-- `pde_long_add_pulse`; `cac` is whether the status of the radar is `RWNX_RADAR_CAC_BUSY`. -/
def pdeLongAddPulse (alloc : Allocations) (cac : Bool) : Added :=
  if cac = false then ⟨false, q, sequences⟩
  else
    match sequences with
    | [] =>
        if alloc.sequences = 0 then ⟨false, q, []⟩
        else ⟨false, q.enqueue (limits rs) ts alloc.pulse, [firstBurst ts (limits rs).windowSize]⟩
    | ps :: rest =>
        let deltaTs := u32 (sub64 ts ps.lastTs)
        let ps := { ps with lastTs := ts }
        if deltaTs < rs.priMax then ⟨false, q, ps :: rest⟩
        else if rs.priMin ≤ deltaTs ∧ deltaTs ≤ rs.priMax then
          ⟨false, q, { ps with countFalses := u32 (ps.countFalses + 1) } :: rest⟩
        else if 2 < ps.count ∧ u32 (ps.dur + deltaTs) < longRadarBurstMinDuration then
          ⟨false, q, ps :: rest⟩
        else
          let ps := { ps with count := u32 (ps.count + 1), countFalses := 1 }
          let (q, ps) :=
            if ps.deadlineTs < ts then
              restart (limits rs).windowSize (sub64 ts (limits rs).windowSize) q.pulses.length q ps
            else (q, ps)
          if rs.ppbThresh < ps.count ∧ (limits rs).windowSize / 2 < sub64 ts ps.firstTs then
            ⟨true, q, ps :: rest⟩
          else ⟨false, q.enqueue (limits rs) ts alloc.pulse, { ps with dur := deltaTs } :: rest⟩

/-- `pde->ops->add_pulse` -/
def addPulse (alloc : Allocations) (cac : Bool) : Added :=
  if rs.type = .long then pdeLongAddPulse rs q sequences ts alloc cac
  else pdeShortAddPulse rs q sequences ts alloc

end Detectors

inductive Event where
  /-- A pulse for this detector, so much later than the last one of the chain. -/
  | pulse (delta : UInt32) (alloc : Allocations) (cac : Bool)
  /-- A pulse for other detectors. -/
  | other (delta : UInt32)
  /-- A pulse whose distance to the last one is too big for its 16 bits. -/
  | overflow (delta : UInt32)
  /-- Another detector has found a radar, and everything is reset. -/
  | reset
  /-- Other detectors have used the pool. -/
  | pool (n : Nat)
  deriving DecidableEq

namespace State

variable (rs : Specs) (s : State)

/-- `last_pulse_ts` goes on. It counts microseconds in 64 bits, and does not come to its end. -/
def advance (delta : UInt32) : Option State :=
  if s.now + delta.toNat < 18446744073709551616 then some { s with now := s.now + delta.toNat }
  else none

/-- What `dfs_pattern_detector_reset` does to the detector. -/
def reset : State := ⟨s.queue.reset s.now, [], 0⟩

def add (alloc : Allocations) (cac : Bool) : State :=
  let added := addPulse rs s.queue s.sequences s.now alloc cac
  let s := { s with queue := added.queue, sequences := added.sequences }
  if added.found then s.reset else s

def step (e : Event) : Option State :=
  match e with
  | .pulse delta alloc cac => (s.advance delta).map fun s => s.add rs alloc cac
  | .other delta => s.advance delta
  | .overflow delta =>
      (s.advance delta).map fun s =>
        -- `reset_on_pri_overflow`
        if rs.type = .long then s else { s with queue := s.queue.reset s.now, sequences := [] }
  | .reset => some s.reset
  | .pool n => some { s with queue := { s.queue with pool := n } }

end State

/-- A detector as `pri_detector_init` makes it. -/
def init (now pool : Nat) : State := ⟨⟨[], 0, 0, pool⟩, [], now⟩

/-- The queue is counted, not too long, in order, and within the window. -/
structure Sound (rs : Specs) (q : PulseQueue) : Prop where
  counted : q.count = q.pulses.length
  few : q.count ≤ (limits rs).maxCount
  ordered : q.pulses.Pairwise (· > ·)
  /-- The most recent pulse is the one that `last_ts` tells of. -/
  newest : ∀ p ∈ q.pulses.head?, p = q.lastTs
  window : ∀ p ∈ q.pulses, p ≤ q.lastTs ∧ q.lastTs ≤ p + (limits rs).windowSize

/-! ## Pulses are taken from the end -/

/-- What is left of a queue when pulses are taken from its end. -/
structure Part (q q' : PulseQueue) : Prop where
  pulses : q'.pulses <+: q.pulses
  lastTs : q'.lastTs = q.lastTs
  counted : q.pulses.length < 4294967296 → q.count = q.pulses.length →
    q'.count = q'.pulses.length

section Queue

variable {lim : Limits} {q q' q'' : PulseQueue}

theorem Part.refl (q : PulseQueue) : Part q q := ⟨List.prefix_rfl, rfl, fun _ same => same⟩

theorem Part.trans (h : Part q q') (h' : Part q' q'') : Part q q'' where
  pulses := h'.pulses.trans h.pulses
  lastTs := h'.lastTs.trans h.lastTs
  counted small same := h'.counted (h.pulses.length_le.trans_lt small) (h.counted small same)

theorem Part.dequeue (q : PulseQueue) : Part q q.dequeue := by
  unfold PulseQueue.dequeue
  cases last : q.getTail with
  | none => exact .refl q
  | some p =>
      refine ⟨List.dropLast_prefix _, rfl, fun small same => ?_⟩
      have some := List.length_pos_of_mem (List.mem_of_getLast? last)
      show pred32 q.count = q.pulses.dropLast.length
      rw [List.length_dropLast, same]
      unfold pred32 u32
      omega

theorem Part.age (minValidTs fuel : Nat) (q : PulseQueue) : Part q (q.age minValidTs fuel) := by
  induction fuel generalizing q with
  | zero => exact .refl q
  | succ fuel ih =>
      unfold PulseQueue.age
      split
      · exact .refl q
      · split
        · exact .refl q
        · exact (Part.dequeue q).trans (ih q.dequeue)

theorem length_dequeue {p : Nat} (last : q.getTail = some p) :
    q.dequeue.pulses.length + 1 = q.pulses.length := by
  have some := List.length_pos_of_mem (List.mem_of_getLast? last)
  have dequeued : q.dequeue.pulses = q.pulses.dropLast := by
    unfold PulseQueue.dequeue
    rw [last]
  rw [dequeued, List.length_dropLast]
  omega

/-- In a queue that is in order, the last pulse is the oldest. -/
theorem getTail_le {p : Nat} (ordered : q.pulses.Pairwise (· > ·)) (last : q.getTail = some p) :
    ∀ p' ∈ q.pulses, p ≤ p' := by
  obtain ⟨newer, split⟩ := List.getLast?_eq_some_iff.mp last
  rw [split, List.pairwise_append] at ordered
  intro p' member
  rw [split] at member
  rcases List.mem_append.mp member with before | same
  · exact Nat.le_of_lt (ordered.2.2 p' before p (List.mem_singleton_self p))
  · exact (List.mem_singleton.mp same).ge

/-- The loop stops when what is left is young enough. -/
theorem age_young {minValidTs fuel : Nat} (ordered : q.pulses.Pairwise (· > ·))
    (enough : q.pulses.length ≤ fuel) : ∀ p ∈ (q.age minValidTs fuel).pulses, minValidTs ≤ p := by
  induction fuel generalizing q with
  | zero =>
      intro p member
      exact absurd (List.length_pos_of_mem member) (Nat.not_lt_of_le enough)
  | succ fuel ih =>
      unfold PulseQueue.age
      split
      · rename_i none
        rw [List.getLast?_eq_none_iff.mp none]
        nofun
      · rename_i p last
        split
        · rename_i young
          exact fun p' member => young.trans (getTail_le ordered last p' member)
        · have fewer := length_dequeue last
          exact ih (ordered.sublist (Part.dequeue q).pulses.sublist) (by omega)

theorem head?_mono {xs ys : List Nat} {p : Nat} (part : xs <+: ys) (first : p ∈ xs.head?) :
    p ∈ ys.head? := by
  obtain ⟨rest, rfl⟩ := part
  cases xs with
  | nil => cases first
  | cons x xs => exact first

/-- A queue that is counted, in order, and within the window. -/
structure Ok (lim : Limits) (q : PulseQueue) : Prop where
  counted : q.count = q.pulses.length
  small : q.pulses.length < 4294967296
  ordered : q.pulses.Pairwise (· > ·)
  newest : ∀ p ∈ q.pulses.head?, p = q.lastTs
  window : ∀ p ∈ q.pulses, q.lastTs ≤ p + lim.windowSize

theorem Ok.part (h : Ok lim q) (part : Part q q') : Ok lim q' where
  counted := part.counted h.small h.counted
  small := part.pulses.length_le.trans_lt h.small
  ordered := h.ordered.sublist part.pulses.sublist
  newest p first := part.lastTs ▸ h.newest p (head?_mono part.pulses first)
  window p member := part.lastTs ▸ h.window p (part.pulses.subset member)

theorem Ok.reset (q : PulseQueue) (ts : Nat) : Ok lim (q.reset ts) :=
  ⟨rfl, Nat.two_pow_pos 32, .nil, nofun, nofun⟩

theorem Part.checkWindow (q : PulseQueue) : Part q (q.checkWindow lim) := by
  unfold PulseQueue.checkWindow
  split
  · exact .refl q
  · split
    · exact .refl q
    · exact .age _ _ q

/-- After the check no pulse is older than the window. -/
theorem checkWindow_window (ordered : q.pulses.Pairwise (· > ·))
    (counted : q.count = q.pulses.length) (newest : ∀ p ∈ q.pulses.head?, p = q.lastTs) :
    ∀ p ∈ (q.checkWindow lim).pulses, q.lastTs ≤ p + lim.windowSize := by
  unfold PulseQueue.checkWindow
  intro p member
  split at member
  · rename_i few
    cases pulses : q.pulses with
    | nil =>
        rw [pulses] at member
        cases member
    | cons first rest =>
        rw [pulses] at member newest counted
        have none : rest = [] := List.eq_nil_of_length_eq_zero (by
          rw [List.length_cons] at counted
          omega)
        rw [none, List.mem_singleton] at member
        rw [member, newest first rfl]
        exact Nat.le_add_right _ _
  · split at member
    · rename_i early
      exact early.trans (Nat.le_add_left _ _)
    · have young := age_young ordered le_rfl p member
      omega

/-- A pulse that is later than the others comes in, and the window is checked. -/
theorem Ok.push (h : Ok lim q) (few : q.pulses.length + 1 < 4294967296) {ts : Nat}
    (later : ∀ p ∈ q.pulses, p < ts) : Ok lim ((q.push ts).checkWindow lim) := by
  have counted : (q.push ts).count = (q.push ts).pulses.length := by
    show u32 (q.count + 1) = q.pulses.length + 1
    rw [h.counted]
    exact Nat.mod_eq_of_lt few
  have ordered : (q.push ts).pulses.Pairwise (· > ·) :=
    List.pairwise_cons.mpr ⟨later, h.ordered⟩
  have newest : ∀ p ∈ (q.push ts).pulses.head?, p = (q.push ts).lastTs := fun p first =>
    (Option.some.inj first).symm
  have window : ∀ p ∈ ((q.push ts).checkWindow lim).pulses,
      (q.push ts).lastTs ≤ p + lim.windowSize := checkWindow_window ordered counted newest
  have part : Part (q.push ts) ((q.push ts).checkWindow lim) := .checkWindow _
  exact
    { counted := part.counted few counted
      small := part.pulses.length_le.trans_lt few
      ordered := ordered.sublist part.pulses.sublist
      newest := fun p first => part.lastTs ▸ newest p (head?_mono part.pulses first)
      window := fun p member => part.lastTs ▸ window p member }

/-- A pulse is queued, unless there is no element for it. The oldest one goes when there are as
    many as there may be. -/
theorem Ok.enqueue (h : Ok lim q) (few : q.pulses.length ≤ lim.maxCount - 1)
    (room : lim.maxCount < 4294967296) {ts : Nat} (later : ∀ p ∈ q.pulses, p < ts)
    (allocated : Bool) : Ok lim (q.enqueue lim ts allocated) ∧
      (q.enqueue lim ts allocated).pulses.length ≤ lim.maxCount - 1 ∧
      ∀ p ∈ (q.enqueue lim ts allocated).pulses, p ≤ ts := by
  unfold PulseQueue.enqueue
  split
  · exact ⟨h, few, fun p member => Nat.le_of_lt (later p member)⟩
  · have pushed := h.push (by omega) later
    have part : Part (q.push ts) ((q.push ts).checkWindow lim) := .checkWindow _
    have length : ((q.push ts).checkWindow lim).pulses.length ≤ q.pulses.length + 1 :=
      part.pulses.length_le
    have old : ∀ p ∈ ((q.push ts).checkWindow lim).pulses, p ≤ ts := by
      intro p member
      rcases List.mem_cons.mp (part.pulses.subset member) with rfl | before
      · exact le_rfl
      · exact Nat.le_of_lt (later p before)
    dsimp only
    split
    · rename_i full
      have dequeued := Part.dequeue ((q.push ts).checkWindow lim)
      refine ⟨pushed.part dequeued, ?_, fun p member => old p (dequeued.pulses.subset member)⟩
      cases last : ((q.push ts).checkWindow lim).getTail with
      | none =>
          have none : ((q.push ts).checkWindow lim).pulses = [] := List.getLast?_eq_none_iff.mp last
          have shorter := dequeued.pulses.length_le
          rw [none, List.length_nil] at shorter
          omega
      | some p =>
          have fewer := length_dequeue last
          omega
    · rename_i more
      rw [pushed.counted] at more
      exact ⟨pushed, by omega, old⟩

theorem Ok.le_lastTs (h : Ok lim q) : ∀ p ∈ q.pulses, p ≤ q.lastTs := by
  intro p member
  cases pulses : q.pulses with
  | nil =>
      rw [pulses] at member
      cases member
  | cons first rest =>
      have newest := h.newest first (by rw [pulses]; rfl)
      have ordered := h.ordered
      rw [pulses] at ordered member
      rcases List.mem_cons.mp member with rfl | older
      · exact newest.le
      · exact newest ▸ Nat.le_of_lt ((List.pairwise_cons.mp ordered).1 p older)

theorem sub64_of_le {a b : Nat} (le : b ≤ a) (small : a < 18446744073709551616) :
    sub64 a b = a - b := by
  unfold sub64 u64
  omega

/-- Where the sequence is restarted, old pulses are dropped, and the last time stamp stays. -/
theorem restart_part (windowSize minValidTs fuel : Nat) (q : PulseQueue) (ps : PriSequence) :
    Part q (restart windowSize minValidTs fuel q ps).1 ∧
      (restart windowSize minValidTs fuel q ps).2.lastTs = ps.lastTs := by
  induction fuel generalizing q ps with
  | zero => exact ⟨.refl q, rfl⟩
  | succ fuel ih =>
      unfold restart
      split
      · exact ⟨.refl q, rfl⟩
      · split
        · exact ⟨.refl q, rfl⟩
        · obtain ⟨part, same⟩ := ih q.dequeue { ps with count := pred32 ps.count }
          exact ⟨(Part.dequeue q).trans part, same⟩

end Queue

/-! ## Runs -/

/-- What the queue needs of the specs. -/
structure Bounded (rs : Specs) : Prop where
  tolerance : 0 < rs.maxPriTolerance
  pri : 0 < rs.priMax
  room : (limits rs).maxCount < 4294967296

theorem dfsDomains_bounded : ∀ rs ∈ dfsDomains, Bounded rs := by
  have all : ∀ rs ∈ dfsDomains, 0 < rs.maxPriTolerance ∧ 0 < rs.priMax ∧
      (limits rs).maxCount < 4294967296 := by decide
  exact fun rs known => ⟨(all rs known).1, (all rs known).2.1, (all rs known).2.2⟩

structure Inv (rs : Specs) (s : State) : Prop where
  queue : Ok (limits rs) s.queue
  few : s.queue.pulses.length ≤ (limits rs).maxCount - 1
  clock : s.now < 18446744073709551616
  past : ∀ p ∈ s.queue.pulses, p ≤ s.now
  /-- A detector for long waveforms queues pulses of its sequence only. -/
  burst : rs.type = .long → (s.sequences = [] → s.queue.pulses = []) ∧
    ∀ ps ∈ s.sequences.head?, ps.lastTs ≤ s.now ∧ ∀ p ∈ s.queue.pulses, p ≤ ps.lastTs

section Steps

variable {rs : Specs} {s t : State}

theorem Inv.reset (s : State) : Inv rs s.reset where
  queue := .reset _ _
  few := Nat.zero_le _
  clock := Nat.two_pow_pos 64
  past := nofun
  burst _ := ⟨fun _ => rfl, nofun⟩

/-- Time goes on. -/
theorem Inv.later (h : Inv rs s) {now : Nat} (le : s.now ≤ now)
    (clock : now < 18446744073709551616) : Inv rs { s with now := now } where
  queue := h.queue
  few := h.few
  clock := clock
  past p member := (h.past p member).trans le
  burst long := by
    obtain ⟨none, some⟩ := h.burst long
    exact ⟨none, fun ps first => ⟨(some ps first).1.trans le, (some ps first).2⟩⟩

theorem Inv.advance (h : Inv rs s) {delta : UInt32} (taken : s.advance delta = some t) :
    Inv rs t := by
  obtain ⟨clock, taken⟩ := Option.ite_none_right_eq_some.mp taken
  cases taken
  exact h.later (Nat.le_add_right _ _) clock

theorem Inv.short (h : Inv rs s) (bounded : Bounded rs) (short : rs.type ≠ .long)
    (alloc : Allocations) {added : Added}
    (eq : pdeShortAddPulse rs s.queue s.sequences s.now alloc = added) :
    Inv rs { s with queue := added.queue, sequences := added.sequences } := by
  have inv : ∀ (q : PulseQueue) (sequences : List PriSequence), Ok (limits rs) q →
      q.pulses.length ≤ (limits rs).maxCount - 1 → (∀ p ∈ q.pulses, p ≤ s.now) →
      Inv rs { s with queue := q, sequences := sequences } := fun q sequences ok few past =>
    ⟨ok, few, h.clock, past, fun long => absurd long short⟩
  have queued : ∀ sequences, (∀ p ∈ s.queue.pulses, p < s.now) →
      Inv rs { s with
        queue := s.queue.enqueue (limits rs) s.now alloc.pulse, sequences := sequences } := by
    intro sequences later
    obtain ⟨ok, few, past⟩ := h.queue.enqueue h.few bounded.room later alloc.pulse
    exact inv _ sequences ok few past
  unfold pdeShortAddPulse at eq
  split at eq
  · rename_i none
    subst eq
    apply queued
    rw [h.queue.counted] at none
    rw [List.eq_nil_of_length_eq_zero none]
    nofun
  · rename_i some
    split at eq
    · subst eq
      exact inv _ _ h.queue h.few h.past
    · rename_i apart
      have later : ∀ p ∈ s.queue.pulses, p < s.now := by
        intro p member
        have recent : s.queue.lastTs ≤ s.now := by
          cases pulses : s.queue.pulses with
          | nil =>
              rw [pulses] at member
              cases member
          | cons first rest =>
              have newest := h.queue.newest first (by rw [pulses]; rfl)
              exact newest ▸ h.past first (by rw [pulses]; exact List.mem_cons_self)
        have before := h.queue.le_lastTs p member
        have tolerance := bounded.tolerance
        rw [sub64_of_le recent h.clock] at apart
        omega
      dsimp only at eq
      split at eq
      · subst eq
        exact inv _ _ (.reset _ _) (Nat.zero_le _) nofun
      · split at eq
        · subst eq
          exact queued _ later
        · subst eq
          exact inv _ _ h.queue h.few h.past

theorem Inv.long (h : Inv rs s) (bounded : Bounded rs) (long : rs.type = .long)
    (alloc : Allocations) (cac : Bool) {added : Added}
    (eq : pdeLongAddPulse rs s.queue s.sequences s.now alloc cac = added) :
    Inv rs { s with queue := added.queue, sequences := added.sequences } := by
  obtain ⟨none, some⟩ := h.burst long
  unfold pdeLongAddPulse at eq
  split at eq
  · subst eq
    exact h
  · split at eq
    · rename_i empty
      have empty' : s.queue.pulses = [] := none empty
      split at eq
      · subst eq
        exact ⟨h.queue, h.few, h.clock, h.past, fun _ => ⟨fun _ => empty', nofun⟩⟩
      · subst eq
        have later : ∀ p ∈ s.queue.pulses, p < s.now := by
          rw [empty']
          nofun
        obtain ⟨ok, few, past⟩ := h.queue.enqueue h.few bounded.room later alloc.pulse
        refine ⟨ok, few, h.clock, past, fun _ => ⟨nofun, fun ps first => ?_⟩⟩
        obtain rfl := Option.some.inj first
        exact ⟨le_rfl, past⟩
    · rename_i ps rest sequences
      obtain ⟨recent, before⟩ := some ps (by rw [sequences]; rfl)
      -- what is queued, and when the sequence was continued last
      have inv : ∀ (q : PulseQueue) (ps' : PriSequence), Part s.queue q → ps'.lastTs = s.now →
          Inv rs { s with queue := q, sequences := ps' :: rest } := by
        intro q ps' part now
        refine ⟨h.queue.part part, part.pulses.length_le.trans h.few, h.clock,
          fun p member => h.past p (part.pulses.subset member), fun _ => ⟨nofun, ?_⟩⟩
        intro ps'' first
        obtain rfl := Option.some.inj first
        exact ⟨now.le, fun p member => now ▸ h.past p (part.pulses.subset member)⟩
      dsimp only at eq
      split at eq
      · subst eq
        exact inv _ _ (.refl _) rfl
      · rename_i far
        split at eq
        · subst eq
          exact inv _ _ (.refl _) rfl
        · split at eq
          · subst eq
            exact inv _ _ (.refl _) rfl
          · have later : ∀ p ∈ s.queue.pulses, p < s.now := by
              intro p member
              have pri := bounded.pri
              rw [sub64_of_le recent h.clock] at far
              have apart : s.now ≠ ps.lastTs := by
                intro same
                rw [same, Nat.sub_self] at far
                exact far pri
              have old := before p member
              omega
            generalize result : (if _ < s.now then restart _ _ _ _ _ else _) = r at eq
            obtain ⟨q, ps'⟩ := r
            have restarted : Part s.queue q ∧ ps'.lastTs = s.now := by
              split at result
              · obtain ⟨part, same⟩ := restart_part (limits rs).windowSize
                  (sub64 s.now (limits rs).windowSize) s.queue.pulses.length s.queue
                  { ps with lastTs := s.now, count := u32 (ps.count + 1), countFalses := 1 }
                rw [result] at part same
                exact ⟨part, same⟩
              · cases result
                exact ⟨.refl _, rfl⟩
            obtain ⟨part, now⟩ := restarted
            dsimp only at eq
            split at eq
            · subst eq
              exact inv _ _ part now
            · subst eq
              obtain ⟨ok, few, past⟩ := (h.queue.part part).enqueue
                (part.pulses.length_le.trans h.few) bounded.room
                (fun p member => later p (part.pulses.subset member)) alloc.pulse
              refine ⟨ok, few, h.clock, past, fun _ => ⟨nofun, fun ps'' first => ?_⟩⟩
              obtain rfl := Option.some.inj first
              exact ⟨now.le, fun p member => now ▸ past p member⟩

theorem Inv.add (h : Inv rs s) (bounded : Bounded rs) (alloc : Allocations) (cac : Bool) :
    Inv rs (s.add rs alloc cac) := by
  have added : Inv rs { s with
      queue := (addPulse rs s.queue s.sequences s.now alloc cac).queue
      sequences := (addPulse rs s.queue s.sequences s.now alloc cac).sequences } := by
    unfold addPulse
    split
    · exact h.long bounded ‹_› alloc cac rfl
    · exact h.short bounded ‹_› alloc rfl
  unfold State.add
  dsimp only
  split
  · exact .reset _
  · exact added

theorem Inv.step (h : Inv rs s) (bounded : Bounded rs) {e : Event} (taken : s.step rs e = some t) :
    Inv rs t := by
  cases e with
  | pulse delta alloc cac =>
      obtain ⟨u, advanced, rfl⟩ := Option.map_eq_some_iff.mp taken
      exact (h.advance advanced).add bounded alloc cac
  | other delta => exact h.advance taken
  | overflow delta =>
      obtain ⟨u, advanced, rfl⟩ := Option.map_eq_some_iff.mp taken
      have next := h.advance advanced
      split
      · exact next
      · rename_i short
        exact ⟨.reset _ _, Nat.zero_le _, next.clock, nofun, fun long => absurd long short⟩
  | reset =>
      cases taken
      exact .reset s
  | pool n =>
      cases taken
      have queue := h.queue
      exact ⟨{ queue with }, h.few, h.clock, h.past, h.burst⟩

theorem Inv.init (now : UInt64) (pool : Nat) : Inv rs (init now.toNat pool) where
  queue := ⟨rfl, Nat.two_pow_pos 32, .nil, nofun, nofun⟩
  few := Nat.zero_le _
  clock := now.toNat_lt
  past := nofun
  burst _ := ⟨fun _ => rfl, nofun⟩

theorem Inv.sound (h : Inv rs s) : Sound rs s.queue where
  counted := h.queue.counted
  few := h.queue.counted ▸ h.few.trans (Nat.sub_le _ _)
  ordered := h.queue.ordered
  newest := h.queue.newest
  window p member := ⟨h.queue.le_lastTs p member, h.queue.window p member⟩

end Steps

theorem inv_of_reachable {rs : Specs} (known : rs ∈ dfsDomains) {now : UInt64} {pool : Nat}
    {s : State} (run : Run.Reachable (State.step rs) Run.Free (init now.toNat pool) s) : Inv rs s :=
  run.invariant (Inv rs) (.init now pool) fun _ _ _ h _ taken =>
    h.step (dfsDomains_bounded rs known) taken

/-- Whatever pulses come, and whenever there is no memory for one or everything is reset, the
    queue of a detector is counted, not too long, in order, and within the window. -/
theorem pulse_queue_sound {rs : Specs} (known : rs ∈ dfsDomains) (now : UInt64) (pool : Nat)
    (s : State) (run : Run.Reachable (State.step rs) Run.Free (init now.toNat pool) s) :
    Sound rs s.queue :=
  (inv_of_reachable known run).sound

/-- The short waveform of 18 pulses, the same for every region. -/
def shortWaveform : Specs := fccPattern 0 0 8 1428 1428 1 18 .short

/-- The pool is empty when the third pulse comes, which is lost, and so late the fifth that the
    others are too old. -/
theorem pulse_queue_sound_run : ∃ s : State,
    Run.exec (State.step shortWaveform) (init 7 0) [.pulse 1428 {} false, .pulse 1428 {} false,
      .pulse 1428 { pulse := false } false, .pulse 1428 {} false, .other 900, .pulse 40000 {} false] =
      some s ∧ s.queue.pulses.length = 1 ∧ Sound shortWaveform s.queue := by
  have runs : (Run.exec (State.step shortWaveform) (init 7 0) [.pulse 1428 {} false,
      .pulse 1428 {} false, .pulse 1428 { pulse := false } false, .pulse 1428 {} false, .other 900,
      .pulse 40000 {} false]).map (fun s => s.queue.pulses.length) = some 1 := by decide
  obtain ⟨s, run, length⟩ := Option.map_eq_some_iff.mp runs
  exact ⟨s, run, length, pulse_queue_sound (by decide) 7 0 s (.exec _ .init run)⟩

/-! ## The detectors of a chain -/

/-- The detector that the lists of a chain have, which do without the counter and the pool -/
def view (freq : Nat) (q : PulseQueue) (sequences : List PriSequence) : PriDetector where
  freq := freq
  lastTs := q.lastTs
  sequences := sequences
  pulses := q.pulses

section View

variable {rs : Specs} {q : PulseQueue} {s : State}

theorem age_pulses (minValidTs fuel : Nat) (enough : q.pulses.length ≤ fuel) :
    (q.age minValidTs fuel).pulses = q.pulses.rdropWhile (· < minValidTs) := by
  induction fuel generalizing q with
  | zero =>
      have none := List.eq_nil_of_length_eq_zero (Nat.le_zero.mp enough)
      unfold PulseQueue.age
      rw [none, List.rdropWhile_nil]
  | succ fuel ih =>
      unfold PulseQueue.age
      split
      · rename_i last
        have none := List.getLast?_eq_none_iff.mp last
        rw [none, List.rdropWhile_nil]
      · rename_i p last
        obtain ⟨newer, split⟩ := List.getLast?_eq_some_iff.mp last
        split
        · rename_i young
          rw [split, List.rdropWhile_concat_neg _ _ _ (by simpa using young)]
        · rename_i old
          have dequeued : q.dequeue.pulses = newer := by
            unfold PulseQueue.dequeue
            rw [last]
            show q.pulses.dropLast = newer
            rw [split, List.dropLast_concat]
          have fewer := length_dequeue last
          rw [ih (by omega), dequeued, split,
            List.rdropWhile_concat_pos _ _ _ (by simpa using old)]

theorem limits_maxCount (short : rs.type ≠ .long) (room : rs.maxCount < 4294967296) :
    (limits rs).maxCount = rs.maxCount := by
  unfold limits
  rw [if_neg short]
  exact Nat.mod_eq_of_lt room

theorem view_checkWindow (counted : q.count = q.pulses.length) (short : rs.type ≠ .long)
    (freq : Nat) (sequences : List PriSequence) :
    view freq (q.checkWindow (limits rs)) sequences =
      pulseQueueCheckWindow rs (view freq q sequences) := by
  have window : (limits rs).windowSize = rs.windowSize := by
    unfold limits
    rw [if_neg short]
  have same : (view freq q sequences).count = q.count := counted.symm
  unfold PulseQueue.checkWindow pulseQueueCheckWindow
  rw [same, window]
  split
  · rfl
  · show view freq (if q.lastTs ≤ rs.windowSize then _ else _) sequences =
      if q.lastTs ≤ rs.windowSize then _ else _
    split
    · rfl
    · have aged := Part.age (q.lastTs - rs.windowSize) q.pulses.length q
      unfold view
      rw [aged.lastTs, age_pulses _ _ le_rfl]

theorem view_dequeue (q : PulseQueue) (freq : Nat) (sequences : List PriSequence) :
    view freq q.dequeue sequences =
      { view freq q sequences with pulses := q.pulses.dropLast } := by
  unfold PulseQueue.dequeue
  cases last : q.getTail with
  | none =>
      have none : q.pulses = [] := List.getLast?_eq_none_iff.mp last
      unfold view
      rw [none]
      rfl
  | some p => rfl

theorem view_enqueue (ok : Ok (limits rs) q) (few : q.pulses.length + 1 < 4294967296)
    (short : rs.type ≠ .long) (room : rs.maxCount < 4294967296) (freq ts : Nat)
    (sequences : List PriSequence) (allocated : Bool) :
    view freq (q.enqueue (limits rs) ts allocated) sequences =
      pulseQueueEnqueue rs (view freq q sequences) ts (q.pool != 0 || allocated) := by
  have counted : (q.push ts).count = (q.push ts).pulses.length := by
    show u32 (q.count + 1) = q.pulses.length + 1
    rw [ok.counted]
    exact Nat.mod_eq_of_lt few
  have checked := view_checkWindow counted short freq sequences
  have part : Part (q.push ts) ((q.push ts).checkWindow (limits rs)) := .checkWindow _
  unfold PulseQueue.enqueue pulseQueueEnqueue
  by_cases none : q.pool = 0 ∧ allocated = false
  · obtain ⟨empty, refused⟩ := none
    rw [if_pos ⟨empty, refused⟩, if_neg (by rw [empty, refused]; decide)]
  · have drawn : (q.pool != 0 || allocated) = true := by
      cases allocated with
      | true => exact Bool.or_true _
      | false => simpa using fun empty => none ⟨empty, rfl⟩
    have same : ((q.push ts).checkWindow (limits rs)).count =
        (view freq ((q.push ts).checkWindow (limits rs)) sequences).count :=
      part.counted few counted
    rw [if_neg none, if_pos drawn, limits_maxCount short room]
    show view freq (if rs.maxCount ≤ ((q.push ts).checkWindow (limits rs)).count then
        ((q.push ts).checkWindow (limits rs)).dequeue
        else (q.push ts).checkWindow (limits rs)) sequences =
      if rs.maxCount ≤ (pulseQueueCheckWindow rs (view freq (q.push ts) sequences)).count then
        { pulseQueueCheckWindow rs (view freq (q.push ts) sequences) with
          pulses := (pulseQueueCheckWindow rs (view freq (q.push ts) sequences)).pulses.dropLast }
      else pulseQueueCheckWindow rs (view freq (q.push ts) sequences)
    rw [← checked, ← same]
    split
    · exact view_dequeue _ freq sequences
    · rfl

/-- What an operation of `Detector` returns, from what is left of the detector here -/
def Added.Viewed (freq : Nat) (added : Added) (out : Option PriSequence × PriDetector) : Prop :=
  out.1.isSome = added.found ∧ out.2 = view freq added.queue added.sequences

theorem Inv.viewed (h : Inv rs s) (short : rs.type ≠ .long) (room : rs.maxCount < 4294967296)
    (freq : Nat) (alloc : Allocations) :
    (pdeShortAddPulse rs s.queue s.sequences s.now alloc).Viewed freq
      (Radar.pdeShortAddPulse rs (view freq s.queue s.sequences) s.now
        { alloc with pulse := s.queue.pool != 0 || alloc.pulse }) := by
  have few : s.queue.pulses.length + 1 < 4294967296 := by
    have fewer := h.few
    rw [limits_maxCount short room] at fewer
    omega
  have queued (sequences : List PriSequence) :=
    view_enqueue h.queue few short room freq s.now sequences alloc.pulse
  have same : (view freq s.queue s.sequences).count = s.queue.count := h.queue.counted.symm
  unfold pdeShortAddPulse Radar.pdeShortAddPulse
  rw [same]
  split
  · exact ⟨rfl, (queued _).symm⟩
  · rename_i some
    have recent : s.queue.lastTs ≤ s.now := by
      cases pulses : s.queue.pulses with
      | nil => exact absurd (h.queue.counted.trans (congrArg List.length pulses)) some
      | cons first rest =>
          have newest := h.queue.newest first (by rw [pulses]; rfl)
          exact newest ▸ h.past first (by rw [pulses]; exact List.mem_cons_self)
    rw [sub64_of_le recent h.clock]
    have lastTs : (view freq s.queue s.sequences).lastTs = s.queue.lastTs := rfl
    have pulses : (view freq s.queue s.sequences).pulses = s.queue.pulses := rfl
    have sequences : (view freq s.queue s.sequences).sequences = s.sequences := rfl
    rw [lastTs, pulses, sequences]
    by_cases close : s.now - s.queue.lastTs < rs.maxPriTolerance
    · rw [if_pos close, if_pos close]
      exact ⟨rfl, rfl⟩
    · rw [if_neg close, if_neg close]
      dsimp only
      cases pdeShortCreateSequences rs s.now (pdeShortAddToExistingSeqs rs s.now s.sequences).1
          s.queue.pulses 0 alloc.sequences
          (pdeShortAddToExistingSeqs rs s.now s.sequences).2 with
      | mk made sequences =>
          cases made with
          | false => exact ⟨rfl, rfl⟩
          | true =>
              dsimp only
              cases pdeShortCheckDetection rs sequences with
              | none => exact ⟨rfl, (queued sequences).symm⟩
              | some ps => exact ⟨rfl, rfl⟩

/-- In any state that a run comes to, a pulse does to the detector for a short waveform what it does
    to the one in the list of its chain, for which an element of the pool is an allocation that
    succeeds. -/
theorem pdeShortAddPulse_viewed (known : rs ∈ dfsDomains) (short : rs.type ≠ .long) {now : UInt64}
    {pool : Nat} (run : Run.Reachable (State.step rs) Run.Free (init now.toNat pool) s)
    (freq : Nat) (alloc : Allocations) :
    (pdeShortAddPulse rs s.queue s.sequences s.now alloc).Viewed freq
      (Radar.pdeShortAddPulse rs (view freq s.queue s.sequences) s.now
        { alloc with pulse := s.queue.pool != 0 || alloc.pulse }) := by
  have room : ∀ rs ∈ dfsDomains, rs.maxCount < 4294967296 := by decide
  exact (inv_of_reachable known run).viewed short (room rs known) freq alloc

end View

end Aic8800.Radar.PulseQueues
