import Aic8800.Lib.Recent
import Aic8800.Lib.Run

/-! # The hand-off of radar pulses

`rwnx_radar_detect_ind` stores the pulses of a message in the ring of their chain, and
`rwnx_radar_process_pulse`, in a work, takes them out and gives them to the detector. The
work holds `radar->lock` while it takes them out; the handler of the message does not.
Both go on here in small steps. The device chooses `cnt` and `idx`.
-/

namespace Aic8800.Radar

open Lib Run

/-- `RADAR_PULSE_MAX`, the pulses of one message -/
def radarPulseMax : Nat := 4

/-- `RWNX_RADAR_PULSE_MAX`, the pulses of one ring -/
def rwnxRadarPulseMax : Nat := 32

inductive Chain where
  | riu
  | fcu
  deriving DecidableEq

def Chain.ofIdx : Nat → Option Chain
  | 0 => some .riu
  | 1 => some .fcu
  | _ => none

/-- A `radar_pulse_array_desc`: the words of the message, with `idx` and `cnt` behind the
    pulses. -/
structure PulseArray where
  words : List UInt32
  deriving DecidableEq

namespace PulseArray

def pulse (msg : PulseArray) (i : Nat) : UInt32 := msg.words.getD i 0

def idx (msg : PulseArray) : Nat := (msg.pulse radarPulseMax).toNat

def cnt (msg : PulseArray) : Nat := (msg.pulse (radarPulseMax + 1)).toNat

end PulseArray

/-- Where `rwnx_radar_detect_ind` is with the pulse `i` of a message: to write it into the
    buffer, to move the index, to read the count, or to write it. -/
inductive IndPoint where
  | idle
  | write (msg : PulseArray) (i : Nat)
  | advance (c : Chain) (msg : PulseArray) (i : Nat)
  | readCount (c : Chain) (msg : PulseArray) (i : Nat)
  | writeCount (c : Chain) (msg : PulseArray) (i n : Nat)
  deriving DecidableEq

/-- What the work took out of a ring at one time: the pulses that it has given to the
    detector and those that it has not, whether it left the loop before the end, and
    what had arrived on the chain since the ring was emptied last. -/
structure Batch where
  chain : Chain
  arrived : List UInt32
  fed : List UInt32
  rest : List UInt32
  cut : Bool
  deriving DecidableEq

/-- Where `rwnx_radar_process_pulse` is: to read index and count of a chain, to copy the
    pulses, to clear the count, in the loop over what it took out, or to purge the ring
    after a detection. -/
inductive WorkPoint where
  | idle
  | read (c : Chain) (taken : List Batch)
  | copy (c : Chain) (index count : Nat) (taken : List Batch)
  | clear (c : Chain) (copied : List UInt32) (taken : List Batch)
  | process (taken : List Batch)
  | purge (b : Batch) (taken : List Batch)
  deriving DecidableEq

structure PulseState where
  rings : Chain → Recent UInt32
  /-- `enabled` of the detectors: 0 to ignore pulses, 2 to report a radar. -/
  enabled : Chain → Nat
  /-- `status` is `RWNX_RADAR_CAC_BUSY` or `RWNX_RADAR_INSERVICE_BUSY`. -/
  busy : Bool
  handler : IndPoint
  worker : WorkPoint
  /-- Memory outside the pulses of a message, or outside the rings, was accessed. -/
  wild : Bool
  /-- What was stored for a chain since its ring was emptied. -/
  arrived : Chain → List UInt32
  batches : List Batch

inductive PulseEvent where
  | indicate (msg : PulseArray)
  | handle
  | schedule
  | work (found : Bool)
  | enable (c : Chain) (mode : Nat)
  | status (busy : Bool)
  deriving DecidableEq

/-- Where the handler is after it has stored the pulse `i`. -/
def IndPoint.next (msg : PulseArray) (i : Nat) : IndPoint :=
  if i + 1 < msg.cnt then .write msg (i + 1) else .idle

/-- Where the work is after the ring of a chain. -/
def WorkPoint.next (c : Chain) (taken : List Batch) : WorkPoint :=
  match c with
  | .riu => .read .fcu taken
  | .fcu => .process taken

namespace PulseState

def init : PulseState where
  rings := fun _ => ⟨0, 0, List.replicate rwnxRadarPulseMax 0⟩
  enabled := fun _ => 0
  busy := false
  handler := .idle
  worker := .idle
  wild := false
  arrived := fun _ => []
  batches := []

def setRing (s : PulseState) (c : Chain) (r : Recent UInt32) : PulseState :=
  { s with rings := Function.update s.rings c r }

def goWild (s : PulseState) : PulseState := { s with wild := true, handler := .idle }

/-- `rwnx_radar_detect_ind` up to its loop; the argument of
    `rwnx_radar_detection_is_enable` is a `u8`. -/
def indicate (s : PulseState) (msg : PulseArray) : PulseState :=
  if msg.cnt = 0 then s
  else
    match Chain.ofIdx (msg.idx % 256) with
    | none => s.goWild
    | some c => if s.enabled c = 0 then s else { s with handler := .write msg 0 }

/-- One step of the loop of `rwnx_radar_detect_ind`. -/
def handle (s : PulseState) : Option PulseState :=
  match s.handler with
  | .idle => none
  | .write msg i =>
      match Chain.ofIdx msg.idx with
      | none => some s.goWild
      | some c =>
          if i < radarPulseMax ∧ (s.rings c).index < (s.rings c).buffer.length then
            some
              { s.setRing c ((s.rings c).write (msg.pulse i)) with
                arrived := Function.update s.arrived c (s.arrived c ++ [msg.pulse i])
                handler := .advance c msg i }
          else some s.goWild
  | .advance c msg i =>
      some { s.setRing c ((s.rings c).advance rwnxRadarPulseMax) with handler := .readCount c msg i }
  | .readCount c msg i =>
      if (s.rings c).count < rwnxRadarPulseMax then
        some { s with handler := .writeCount c msg i ((s.rings c).count + 1) }
      else some { s with handler := .next msg i }
  | .writeCount c msg i n => some { s.setRing c ((s.rings c).setCount n) with handler := .next msg i }

/-- The work is through with a batch. -/
def finish (s : PulseState) (b : Batch) (taken : List Batch) : PulseState :=
  { s with batches := s.batches ++ [b], worker := .process taken }

/-- The ring is empty from now on. -/
def emptied (s : PulseState) (c : Chain) : PulseState :=
  { s.setRing c ((s.rings c).setCount 0) with arrived := Function.update s.arrived c [] }

/-- One step of `rwnx_radar_process_pulse`; `found` is what
    `dfs_pattern_detector_add_pulse` returns. -/
def work (s : PulseState) (found : Bool) : Option PulseState :=
  match s.worker with
  | .idle => none
  | .read c taken =>
      if (s.rings c).count = 0 then some { s with worker := .next c taken }
      else some { s with worker := .copy c (s.rings c).index (s.rings c).count taken }
  | .copy c index count taken =>
      let copied := (Recent.mk index count (s.rings c).buffer).contents rwnxRadarPulseMax
      some { s with worker := .clear c copied taken }
  | .clear c copied taken =>
      some { s.emptied c with worker := .next c (taken ++ [⟨c, s.arrived c, [], copied, false⟩]) }
  | .process [] => some { s with worker := .idle }
  | .process (b :: taken) =>
      match b.rest with
      | [] => some (s.finish b taken)
      | p :: ps =>
          let fed := { b with fed := b.fed ++ [p], rest := ps }
          if !s.busy then some (s.finish { b with cut := true } taken)
          else if !found then some { s with worker := .process (fed :: taken) }
          else if b.chain = .riu ∧ s.enabled .riu = 2 then
            some { s with enabled := Function.update s.enabled .riu 0, worker := .purge fed taken }
          else some (s.finish { fed with cut := true } taken)
  | .purge b taken => some ((s.emptied .riu).finish { b with cut := true } taken)

end PulseState

def pulseStep (s : PulseState) : PulseEvent → Option PulseState
  | .indicate msg => if s.handler = .idle then some (s.indicate msg) else none
  | .handle => s.handle
  | .schedule => if s.worker = .idle then some { s with worker := .read .riu [] } else none
  | .work found => s.work found
  | .enable c mode => some { s with enabled := Function.update s.enabled c mode }
  | .status busy => some { s with busy }

/-! ## When the two stay apart -/

/-- The chain whose ring the handler is in the middle of. -/
def IndPoint.storing : IndPoint → Option Chain
  | .advance c _ _ | .readCount c _ _ | .writeCount c _ _ _ => some c
  | _ => none

/-- The chain whose ring the work is in the middle of. -/
def WorkPoint.draining : WorkPoint → Option Chain
  | .copy c _ _ _ | .clear c _ _ => some c
  | _ => none

/-- The chain whose ring the work would begin with. -/
def WorkPoint.drains : WorkPoint → Option Chain
  | .read c _ => some c
  | .purge _ _ => some .riu
  | _ => none

/-- The chain that the handler would begin to store for. -/
def IndPoint.stores : IndPoint → Option Chain
  | .write msg _ => Chain.ofIdx msg.idx
  | _ => none

/-- The message has no more pulses than it has room for, and a chain that there is,
    unless nobody looks at its pulses. -/
def PulseArray.Fits (msg : PulseArray) (s : PulseState) : Prop :=
  msg.cnt = 0 ∨ ∃ c, Chain.ofIdx (msg.idx % 256) = some c ∧
    (s.enabled c = 0 ∨ msg.idx < 256 ∧ msg.cnt ≤ radarPulseMax)

/-- The handler and the work do not access one ring at one time, and the messages fit. -/
def PulseGuard (s : PulseState) : PulseEvent → Prop
  | .indicate msg => msg.Fits s
  | .handle => ∀ c ∈ s.handler.stores, s.worker.draining ≠ some c
  | .work _ => ∀ c ∈ s.worker.drains, s.handler.storing ≠ some c
  | _ => True

/-! ## The invariant -/

/-- The ring of a chain once the handler is through with what it is storing there. -/
def IndPoint.settled (p : IndPoint) (c : Chain) (r : Recent UInt32) : Recent UInt32 :=
  match p with
  | .advance d _ _ =>
      if d = c then (r.advance rwnxRadarPulseMax).setCount (r.grown rwnxRadarPulseMax) else r
  | .readCount d _ _ => if d = c then r.setCount (r.grown rwnxRadarPulseMax) else r
  | .writeCount d _ _ n => if d = c then r.setCount n else r
  | _ => r

theorem IndPoint.settled_of_apart {p : IndPoint} {c : Chain} (apart : p.storing ≠ some c)
    (r : Recent UInt32) : p.settled c r = r := by
  cases p with
  | idle | write => rfl
  | advance d msg i | readCount d msg i | writeCount d msg i n =>
      have other : d ≠ c := fun same => apart (congrArg some same)
      simp only [IndPoint.settled, if_neg other]

/-- The handler works on a message that fits. -/
def IndPoint.Within : IndPoint → Prop
  | .idle => True
  | .write msg i => msg.idx < 2 ∧ msg.cnt ≤ radarPulseMax ∧ i < msg.cnt
  | .advance _ msg _ | .readCount _ msg _ | .writeCount _ msg _ _ =>
      msg.idx < 2 ∧ msg.cnt ≤ radarPulseMax

/-- The last pulses that a ring has room for. -/
def lastPulses (arrived : List UInt32) : List UInt32 := arrived.drop (arrived.length - rwnxRadarPulseMax)

/-- A batch is the most recent pulses of those that had arrived. -/
def Batch.Exact (b : Batch) : Prop := b.fed ++ b.rest = lastPulses b.arrived

/-- What the work has taken out and not finished with. -/
def WorkPoint.taken : WorkPoint → List Batch
  | .idle => []
  | .read _ taken | .copy _ _ _ taken | .clear _ _ taken | .process taken => taken
  | .purge b taken => b :: taken

/-- What the work has read from a ring is still so. -/
def WorkPoint.Current (s : PulseState) : WorkPoint → Prop
  | .copy c index count _ => (s.rings c).index = index ∧ (s.rings c).count = count
  | .clear c copied _ => copied = lastPulses (s.arrived c)
  | _ => True

structure HandOff (s : PulseState) : Prop where
  sane : s.wild = false
  within : s.handler.Within
  rings : ∀ c, (s.handler.settled c (s.rings c)).Holds rwnxRadarPulseMax (s.arrived c)
  apart : ∀ c, s.worker.draining = some c → s.handler.storing ≠ some c
  current : s.worker.Current s
  exact : ∀ b ∈ s.worker.taken ++ s.batches, b.Exact
  through : ∀ b ∈ s.batches, b.cut = false → b.rest = []

section Steps

variable {s s' : PulseState}

theorem init_handOff : HandOff PulseState.init where
  sane := rfl
  within := trivial
  rings _ := Recent.Holds.new 0 (by decide)
  apart _ draining := by cases draining
  current := trivial
  exact _ member := by cases member
  through _ member := by cases member

/-- The ring of a chain that the handler is not storing for. -/
theorem HandOff.ring (h : HandOff s) {c : Chain} (apart : s.handler.storing ≠ some c) :
    (s.rings c).Holds rwnxRadarPulseMax (s.arrived c) := by
  have holds := h.rings c
  rwa [IndPoint.settled_of_apart apart] at holds

theorem indicate_handOff {msg : PulseArray} (h : HandOff s) (idle : s.handler = .idle)
    (fits : msg.Fits s) : HandOff (s.indicate msg) := by
  unfold PulseState.indicate
  split
  · exact h
  · rename_i some_
    obtain ⟨c, chain, quiet⟩ := fits.resolve_left some_
    simp only [chain]
    split
    · exact h
    · rename_i enabled
      obtain ⟨low, few⟩ := quiet.resolve_left enabled
      have known : msg.idx < 2 := by
        rw [Nat.mod_eq_of_lt low] at chain
        by_contra high
        obtain ⟨k, more⟩ := Nat.exists_eq_add_of_le' (Nat.le_of_not_lt high)
        rw [more] at chain
        cases chain
      exact
        { sane := h.sane
          within := ⟨known, few, Nat.pos_of_ne_zero some_⟩
          rings := fun d => h.ring (by rw [idle]; exact fun same => by cases same)
          apart := fun _ _ same => by cases same
          current := h.current
          exact := h.exact
          through := h.through }

/-- The work does not notice what happens to a ring that it is not in the middle of. -/
theorem WorkPoint.Current.update {r : Recent UInt32} {xs : List UInt32} {c : Chain} {p : IndPoint}
    (h : s.worker.Current s) (apart : s.worker.draining ≠ some c) :
    s.worker.Current
      { s.setRing c r with arrived := Function.update s.arrived c xs, handler := p } := by
  cases point : s.worker with
  | idle | read | process | purge => trivial
  | copy d index count taken =>
      have other : d ≠ c := by
        rintro rfl
        exact apart (by rw [point]; rfl)
      rw [point] at h
      simpa [WorkPoint.Current, PulseState.setRing, Function.update_of_ne other] using h
  | clear d copied taken =>
      have other : d ≠ c := by
        rintro rfl
        exact apart (by rw [point]; rfl)
      rw [point] at h
      simpa [WorkPoint.Current, Function.update_of_ne other] using h

theorem IndPoint.next_within {msg : PulseArray} (i : Nat) (low : msg.idx < 2)
    (few : msg.cnt ≤ radarPulseMax) : (IndPoint.next msg i).Within := by
  unfold IndPoint.next
  split
  · exact ⟨low, few, ‹_›⟩
  · trivial

theorem IndPoint.next_storing (msg : PulseArray) (i : Nat) : (IndPoint.next msg i).storing = none := by
  unfold IndPoint.next
  split <;> rfl

/-- The handler writes a pulse into the buffer: from now on the pulse has arrived. -/
theorem write_handOff {msg : PulseArray} {i : Nat} (h : HandOff s) (point : s.handler = .write msg i)
    (apart : ∀ c ∈ s.handler.stores, s.worker.draining ≠ some c) (went : s.handle = some s') :
    HandOff s' := by
  have within := h.within
  rw [point] at within
  obtain ⟨low, few, fits⟩ := within
  obtain ⟨c, chain⟩ : ∃ c, Chain.ofIdx msg.idx = some c := by
    obtain zero | one : msg.idx = 0 ∨ msg.idx = 1 := by omega
    · exact ⟨.riu, by rw [zero]; rfl⟩
    · exact ⟨.fcu, by rw [one]; rfl⟩
  have away : s.worker.draining ≠ some c := apart c (by rw [point]; exact chain)
  have before : ∀ d, (s.rings d).Holds rwnxRadarPulseMax (s.arrived d) := fun d =>
    h.ring (by rw [point]; exact fun same => by cases same)
  have inside : i < radarPulseMax ∧ (s.rings c).index < (s.rings c).buffer.length :=
    ⟨Nat.lt_of_lt_of_le fits few, (before c).size ▸ (before c).bound⟩
  simp only [PulseState.handle, point, chain, if_pos inside] at went
  obtain rfl := Option.some.inj went
  constructor
  · exact h.sane
  · exact ⟨low, few⟩
  · intro d
    by_cases same : c = d
    · subst same
      simpa [PulseState.setRing, IndPoint.settled, Recent.push] using (before c).push (msg.pulse i)
    · simpa [PulseState.setRing, IndPoint.settled, same, Function.update_of_ne (Ne.symm same)]
        using before d
  · intro d draining same
    obtain rfl : c = d := Option.some.inj same
    exact away draining
  · exact h.current.update away
  · exact h.exact
  · exact h.through

theorem PulseState.setRing_self (s : PulseState) (c : Chain) : s.setRing c (s.rings c) = s := by
  rw [PulseState.setRing, Function.update_eq_self]

/-- The handler goes on with a pulse that it has written: that settles nothing new. -/
theorem settle_handOff {c : Chain} {r : Recent UInt32} {p : IndPoint} (h : HandOff s)
    (storing : s.handler.storing = some c) (within : p.Within)
    (holds : ∀ xs, (s.handler.settled c (s.rings c)).Holds rwnxRadarPulseMax xs →
      (p.settled c r).Holds rwnxRadarPulseMax xs)
    (later : p.storing = some c ∨ p.storing = none) :
    HandOff { s.setRing c r with handler := p } := by
  have away : s.worker.draining ≠ some c := fun draining => h.apart c draining storing
  constructor
  · exact h.sane
  · exact within
  · intro d
    by_cases same : c = d
    · subst same
      simpa [PulseState.setRing] using holds _ (h.rings c)
    · have other : p.storing ≠ some d := by
        cases later with
        | inl here => exact fun there => same (Option.some.inj (here.symm.trans there))
        | inr none_ => exact fun there => by rw [none_] at there; cases there
      have before : (s.rings d).Holds rwnxRadarPulseMax (s.arrived d) :=
        h.ring fun there => same (Option.some.inj (storing.symm.trans there))
      simpa [PulseState.setRing, Function.update_of_ne (Ne.symm same),
        IndPoint.settled_of_apart other] using before
  · intro d draining there
    cases later with
    | inl here =>
        obtain rfl : c = d := Option.some.inj (here.symm.trans there)
        exact away draining
    | inr none_ =>
        rw [show ({ s.setRing c r with handler := p } : PulseState).handler = p from rfl, none_] at there
        cases there
  · have current : s.worker.Current { s.setRing c r with
        arrived := Function.update s.arrived c (s.arrived c), handler := p } :=
      h.current.update away
    rwa [Function.update_eq_self] at current
  · exact h.exact
  · exact h.through

theorem handle_handOff (h : HandOff s)
    (apart : ∀ c ∈ s.handler.stores, s.worker.draining ≠ some c) (went : s.handle = some s') :
    HandOff s' := by
  have within := h.within
  cases point : s.handler with
  | idle =>
      simp only [PulseState.handle, point] at went
      cases went
  | write msg i => exact write_handOff h point apart went
  | advance c msg i =>
      simp only [PulseState.handle, point] at went
      obtain rfl := Option.some.inj went
      rw [point] at within
      apply settle_handOff (c := c) (p := .readCount c msg i) h (by rw [point]; rfl) within
      · intro xs holds
        simpa [point, IndPoint.settled] using holds
      · exact .inl rfl
  | readCount c msg i =>
      simp only [PulseState.handle, point] at went
      rw [point] at within
      split at went
      · rename_i room
        obtain rfl := Option.some.inj went
        have counted : (s.rings c).grown rwnxRadarPulseMax = (s.rings c).count + 1 := if_pos room
        have next := settle_handOff (c := c) (r := s.rings c)
          (p := .writeCount c msg i ((s.rings c).count + 1)) h (by rw [point]; rfl) within
          (fun xs holds => by simpa [point, IndPoint.settled, counted] using holds) (.inl rfl)
        rwa [PulseState.setRing_self] at next
      · rename_i full
        obtain rfl := Option.some.inj went
        have counted : (s.rings c).grown rwnxRadarPulseMax = (s.rings c).count := if_neg full
        have next := settle_handOff (c := c) (r := s.rings c) (p := .next msg i) h (by rw [point]; rfl)
          (IndPoint.next_within i within.1 within.2)
          (fun xs holds => by
            rw [IndPoint.settled_of_apart (by rw [IndPoint.next_storing]; simp)]
            simpa [point, IndPoint.settled, counted, Recent.setCount] using holds)
          (.inr (IndPoint.next_storing msg i))
        rwa [PulseState.setRing_self] at next
  | writeCount c msg i n =>
      simp only [PulseState.handle, point] at went
      obtain rfl := Option.some.inj went
      rw [point] at within
      apply settle_handOff (c := c) (p := .next msg i) h (by rw [point]; rfl)
        (IndPoint.next_within i within.1 within.2)
      · intro xs holds
        rw [IndPoint.settled_of_apart (by rw [IndPoint.next_storing]; simp)]
        simpa [point, IndPoint.settled] using holds
      · exact .inr (IndPoint.next_storing msg i)

/-- What the work reads from a ring is the last of what has arrived. -/
theorem HandOff.copied (h : HandOff s) {c : Chain} {index count : Nat} {taken : List Batch}
    (point : s.worker = .copy c index count taken) :
    (Recent.mk index count (s.rings c).buffer).contents rwnxRadarPulseMax = lastPulses (s.arrived c) := by
  have current := h.current
  rw [point] at current
  obtain ⟨rfl, rfl⟩ := current
  exact (h.ring (h.apart c (by rw [point]; rfl))).contents_eq

theorem WorkPoint.next_draining (c : Chain) (taken : List Batch) :
    (WorkPoint.next c taken).draining = none := by
  cases c <;> rfl

theorem WorkPoint.next_taken (c : Chain) (taken : List Batch) : (WorkPoint.next c taken).taken = taken := by
  cases c <;> rfl

theorem WorkPoint.next_current (c : Chain) (taken : List Batch) : (WorkPoint.next c taken).Current s := by
  cases c <;> trivial

/-- The work goes on between two rings, or in its loop. -/
theorem HandOff.goto (h : HandOff s) {w : WorkPoint} (draining : w.draining = none)
    (current : w.Current { s with worker := w })
    (exact_ : ∀ b ∈ w.taken, b.Exact) : HandOff { s with worker := w } where
  sane := h.sane
  within := h.within
  rings := h.rings
  apart c here := by rw [draining] at here; cases here
  current := current
  exact b member := by
    cases List.mem_append.mp member with
    | inl now => exact exact_ b now
    | inr done => exact h.exact b (List.mem_append_right _ done)
  through := h.through

/-- The ring is emptied while the handler is not in the middle of it. -/
theorem HandOff.emptied (h : HandOff s) {c : Chain} (apart : s.handler.storing ≠ some c)
    (draining : s.worker.draining = none) (current : s.worker.Current (s.emptied c)) :
    HandOff (s.emptied c) where
  sane := h.sane
  within := h.within
  rings d := by
    by_cases same : c = d
    · subst same
      have empty := (h.ring apart).clear
      simpa [PulseState.emptied, PulseState.setRing, IndPoint.settled_of_apart apart] using empty
    · simpa [PulseState.emptied, PulseState.setRing, Function.update_of_ne (Ne.symm same)] using h.rings d
  apart d here := by
    have none_ : s.worker.draining = some d := here
    rw [draining] at none_
    cases none_
  current := current
  exact := h.exact
  through := h.through

/-- A batch is done with. -/
theorem HandOff.finish (h : HandOff s) {b : Batch} {taken : List Batch} (exact_ : b.Exact)
    (others : ∀ b ∈ taken, b.Exact) (through : b.cut = false → b.rest = []) :
    HandOff (s.finish b taken) where
  sane := h.sane
  within := h.within
  rings := h.rings
  apart _ here := by cases here
  current := trivial
  exact c member := by
    simp only [PulseState.finish, WorkPoint.taken, List.mem_append, List.mem_singleton] at member
    obtain now | done | rfl := member
    · exact others c now
    · exact h.exact c (List.mem_append_right _ done)
    · exact exact_
  through c member := by
    simp only [PulseState.finish, List.mem_append, List.mem_singleton] at member
    obtain done | rfl := member
    · exact h.through c done
    · exact through

theorem work_handOff {found : Bool} (h : HandOff s)
    (apart : ∀ c ∈ s.worker.drains, s.handler.storing ≠ some c) (went : s.work found = some s') :
    HandOff s' := by
  have exact_ : ∀ b ∈ s.worker.taken, b.Exact := fun b member => h.exact b (List.mem_append_left _ member)
  cases point : s.worker with
  | idle =>
      simp only [PulseState.work, point] at went
      cases went
  | read c taken =>
      rw [point] at exact_
      simp only [PulseState.work, point] at went
      split at went
      · obtain rfl := Option.some.inj went
        exact h.goto (WorkPoint.next_draining c taken) (WorkPoint.next_current c taken)
          ((WorkPoint.next_taken c taken).symm ▸ exact_)
      · obtain rfl := Option.some.inj went
        exact
          { sane := h.sane
            within := h.within
            rings := h.rings
            apart := fun d here => by
              obtain rfl : c = d := Option.some.inj here
              exact apart c (by rw [point]; rfl)
            current := ⟨rfl, rfl⟩
            exact := fun b member => h.exact b (by rwa [point])
            through := h.through }
  | copy c index count taken =>
      simp only [PulseState.work, point] at went
      obtain rfl := Option.some.inj went
      exact
        { sane := h.sane
          within := h.within
          rings := h.rings
          apart := fun d here => h.apart d (by rw [point]; exact here)
          current := h.copied point
          exact := fun b member => h.exact b (by rwa [point])
          through := h.through }
  | clear c copied taken =>
      rw [point] at exact_
      simp only [PulseState.work, point] at went
      obtain rfl := Option.some.inj went
      have away := h.apart c (by rw [point]; rfl)
      have current := h.current
      rw [point] at current
      have left : HandOff { s with worker := .next c (taken ++ [⟨c, s.arrived c, [], copied, false⟩]) } := by
        apply h.goto (WorkPoint.next_draining c _) (WorkPoint.next_current c _)
        intro b member
        rw [WorkPoint.next_taken, List.mem_append, List.mem_singleton] at member
        obtain before | rfl := member
        · exact exact_ b before
        · exact current
      exact left.emptied away (WorkPoint.next_draining c _) (WorkPoint.next_current c _)
  | process taken =>
      rw [point] at exact_
      cases taken with
      | nil =>
          simp only [PulseState.work, point] at went
          obtain rfl := Option.some.inj went
          exact h.goto rfl trivial exact_
      | cons b taken =>
          have first : b.Exact := exact_ b (List.mem_cons_self ..)
          have others : ∀ b ∈ taken, b.Exact := fun b member => exact_ b (List.mem_cons_of_mem _ member)
          cases pulses : b.rest with
          | nil =>
              simp only [PulseState.work, point, pulses] at went
              obtain rfl := Option.some.inj went
              exact h.finish first others fun _ => pulses
          | cons p ps =>
              have fed : ({ b with fed := b.fed ++ [p], rest := ps } : Batch).Exact := by
                rw [Batch.Exact, pulses] at first
                simpa [Batch.Exact] using first
              simp only [PulseState.work, point, pulses] at went
              split at went
              · obtain rfl := Option.some.inj went
                have kept : ({ b with rest := p :: ps, cut := true } : Batch).Exact := by
                  rw [Batch.Exact, pulses] at first
                  exact first
                exact h.finish kept others fun uncut => by cases uncut
              · split at went
                · obtain rfl := Option.some.inj went
                  exact h.goto rfl trivial (List.forall_mem_cons.mpr ⟨fed, others⟩)
                · split at went
                  · obtain rfl := Option.some.inj went
                    have disabled : HandOff { s with enabled := Function.update s.enabled .riu 0 } :=
                      { h with }
                    exact disabled.goto rfl trivial (List.forall_mem_cons.mpr ⟨fed, others⟩)
                  · obtain rfl := Option.some.inj went
                    exact h.finish fed others fun uncut => by cases uncut
  | purge b taken =>
      rw [point] at exact_ apart
      simp only [PulseState.work, point] at went
      obtain rfl := Option.some.inj went
      have emptied : HandOff (s.emptied .riu) := h.emptied (apart .riu rfl) (by rw [point]; rfl)
        (by rw [point]; trivial)
      exact emptied.finish (exact_ b (List.mem_cons_self ..))
        (fun b member => exact_ b (List.mem_cons_of_mem _ member)) fun uncut => by cases uncut

theorem pulseStep_handOff {e : PulseEvent} (h : HandOff s) (allowed : PulseGuard s e)
    (taken : pulseStep s e = some s') : HandOff s' := by
  cases e with
  | indicate msg =>
      simp only [pulseStep] at taken
      split at taken
      · rename_i idle
        obtain rfl := Option.some.inj taken
        exact indicate_handOff h idle allowed
      · cases taken
  | handle => exact handle_handOff h allowed taken
  | schedule =>
      simp only [pulseStep] at taken
      split at taken
      · obtain rfl := Option.some.inj taken
        exact h.goto rfl trivial fun b member => by cases member
      · cases taken
  | work found => exact work_handOff h allowed taken
  | enable c mode =>
      obtain rfl := Option.some.inj taken
      exact { h with }
  | status busy =>
      obtain rfl := Option.some.inj taken
      exact { h with }

end Steps

/-! ## Runs -/

/-- No access goes outside the message or the rings, and what the work takes out of a
    ring are the most recent pulses that arrived since the ring was emptied, in order;
    it gives them all to the detector unless it leaves its loop early. -/
theorem pulses_handed_off {s : PulseState} (h : Reachable pulseStep PulseGuard .init s) :
    s.wild = false ∧
    (∀ b ∈ s.worker.taken ++ s.batches, b.fed ++ b.rest = lastPulses b.arrived) ∧
    ∀ b ∈ s.batches, b.cut = false → b.fed = lastPulses b.arrived := by
  have handOff : HandOff s := h.invariant HandOff init_handOff
    fun _ _ _ before allowed taken => pulseStep_handOff before allowed taken
  refine ⟨handOff.sane, handOff.exact, fun b done uncut => ?_⟩
  have whole : b.fed ++ b.rest = lastPulses b.arrived := handOff.exact b (List.mem_append_right _ done)
  rwa [handOff.through b done uncut, List.append_nil] at whole

instance (msg : PulseArray) (s : PulseState) : Decidable (msg.Fits s) :=
  decidable_of_iff (msg.cnt = 0 ∨ ∃ c ∈ Chain.ofIdx (msg.idx % 256),
    s.enabled c = 0 ∨ msg.idx < 256 ∧ msg.cnt ≤ radarPulseMax) Iff.rfl

instance (s : PulseState) : DecidablePred (PulseGuard s)
  | .indicate msg => inferInstanceAs (Decidable (msg.Fits s))
  | .handle => inferInstanceAs (Decidable (∀ c ∈ s.handler.stores, s.worker.draining ≠ some c))
  | .work _ => inferInstanceAs (Decidable (∀ c ∈ s.worker.drains, s.handler.storing ≠ some c))
  | .schedule | .enable _ _ | .status _ => isTrue trivial

/-- A message is received, and the handler goes on for some steps. -/
def receive (words : List UInt32) (steps : Nat) : List PulseEvent :=
  .indicate ⟨words⟩ :: List.replicate steps .handle

/-- Thirty-six pulses, of which the work takes thirty-two. -/
def fullRing : List PulseEvent :=
  [.enable .riu 1, .status true] ++
    (List.range 8).flatMap (fun k =>
      receive [.ofNat (4 * k), .ofNat (4 * k + 1), .ofNat (4 * k + 2), .ofNat (4 * k + 3), 0, 4] 16) ++
    receive [32, 33, 34, 35, 0, 4] 12 ++ [.schedule] ++ List.replicate 38 (.work false)

theorem pulses_handed_off_full : ∃ s, Reachable pulseStep PulseGuard .init s ∧
    s.batches.map Batch.fed = [(List.range 32).map fun k => .ofNat (k + 4)] ∧
    ∀ b ∈ s.batches, b.cut = false → b.fed = lastPulses b.arrived := by
  have facts : ((exec pulseStep .init fullRing).map fun s => s.batches.map Batch.fed) =
      some [(List.range 32).map fun k => .ofNat (k + 4)] := by
    decide +kernel
  obtain ⟨s, run, fed⟩ := Option.map_eq_some_iff.mp facts
  have reach : Reachable pulseStep PulseGuard .init s :=
    Reachable.exec_guarded (fun _ _ => of_decide_eq_true) _ .init run (by decide +kernel)
  exact ⟨s, reach, fed, (pulses_handed_off reach).2.2⟩

/-- The message says that it has five pulses. -/
def longMessage : List PulseEvent := .enable .riu 1 :: receive [1, 2, 3, 4, 0, 5] 17

/-- A pulse arrives while the work is between its reading of the count and its clearing. -/
def latePulse : List PulseEvent :=
  [.enable .riu 1, .status true] ++ receive [7, 0, 0, 0, 0, 1] 4 ++ [.schedule, .work false] ++
    receive [8, 0, 0, 0, 0, 1] 4 ++ List.replicate 6 (.work false)

/-- Both go wrong: the handler reads behind the pulses of its message, and a pulse is
    lost that had arrived before the ring was emptied. -/
theorem pulses_lost_or_read_outside :
    (∃ s, Reachable pulseStep Free .init s ∧ s.wild = true) ∧
    ∃ s, Reachable pulseStep Free .init s ∧ s.wild = false ∧
      ∃ b ∈ s.batches, b.cut = false ∧ b.fed ≠ lastPulses b.arrived := by
  constructor
  · have facts : ((exec pulseStep .init longMessage).map PulseState.wild) = some true := by
      decide +kernel
    obtain ⟨s, run, wild⟩ := Option.map_eq_some_iff.mp facts
    exact ⟨s, Reachable.exec _ .init run, wild⟩
  · have facts : ((exec pulseStep .init latePulse).map fun s => decide (s.wild = false ∧
        ∃ b ∈ s.batches, b.cut = false ∧ b.fed ≠ lastPulses b.arrived)) = some true := by
      decide +kernel
    obtain ⟨s, run, lost⟩ := Option.map_eq_some_iff.mp facts
    exact ⟨s, Reachable.exec _ .init run, of_decide_eq_true lost⟩

end Aic8800.Radar
