import Aic8800.Lib.Threads

/-! # The receive thread and its completions

`aicwf_usb_rx_complete` runs for each received URB: it puts the skb into `rxq` under
`rxqlock`, then counts it in `rx_cnt`, then reads `rx_cnt` again and signals the
thread if it reads 1. `usb_busrx_thread` waits for the signal and drains the queue.
The completions are threads here; where the receive thread is, is part of the state.
-/

namespace Aic8800.Usb

open Lib Threads

abbrev Frame := List UInt8

/-- `MAX_RXQLEN` -/
def maxRxqlen : Nat := 2000

/-- `USB_TYPE_CFG` -/
def usbTypeCfg : UInt8 := 0x10

/-- `RX_HWHRD_LEN` -/
def rxHwhrdLen : Nat := 60

/-- `roundup` to `RX_ALIGNMENT` -/
def roundup (len : Nat) : Nat := (len + 3) / 4 * 4

namespace Frame

def pktLen (skb : Frame) : Nat := (skb.getD 0 0).toNat + 256 * (skb.getD 1 0).toNat

def isConfig (skb : Frame) : Bool := skb.getD 2 0 &&& usbTypeCfg == usbTypeCfg

/-- `aicwf_another_ptk` -/
def anotherPtk (skb : Frame) : Bool := decide (2 ≤ skb.length) && skb.pktLen != 0

/-- `skb_pull`, which leaves an skb alone that is too short. -/
def pull (skb : Frame) (len : Nat) : Frame := if len ≤ skb.length then skb.drop len else skb

/-- How far the packet at the front reaches; the lengths are `u16`. -/
def step (skb : Frame) : Nat :=
  if skb.isConfig then roundup skb.pktLen % 65536 + 4 else (skb.pktLen + rxHwhrdLen) % 65536

end Frame

/-- A URB that completes. -/
structure Urb where
  status : Int
  actualLength : Nat
  bufferLength : Nat
  data : Frame
  deriving DecidableEq

/-- Where `usb_busrx_thread` is: it waits for its completion, looks into the queue,
    works on an skb, is about to count it, or has stopped. -/
inductive RxPoint where
  | wait
  | look
  | work (skb : Frame)
  | count
  | stopped
  deriving DecidableEq

structure Shared where
  up : Bool
  aggr : Bool
  rxq : List Frame
  rxCnt : Int
  /-- The count of `busrx_trgg`. -/
  trgg : Nat
  thread : RxPoint
  deriving DecidableEq

/-- Where a call of `aicwf_usb_rx_complete` is, once its skb is in the queue. -/
inductive Point where
  | inc
  | read
  | signal
  deriving DecidableEq

/-- What happens: a URB completes while `rwnx_hw` is ready or not, the thread goes on
    (an allocation that it makes succeeds or not), or the bus goes down. -/
inductive Call where
  | complete (hwReady : Bool) (urb : Urb)
  | thread (allocated : Bool)
  | down
  deriving DecidableEq

namespace Shared

def init (aggr : Bool) : Shared :=
  { up := true, aggr, rxq := [], rxCnt := 0, trgg := 0, thread := .wait }

/-- The skb that `aicwf_usb_rx_complete` tries to queue. -/
def received (s : Shared) (hwReady : Bool) (urb : Urb) : Option Frame :=
  if !hwReady then none
  else if urb.bufferLength < urb.actualLength then none
  else if urb.status ≠ 0 ∨ urb.actualLength = 0 then none
  else if s.up then some urb.data
  else none

/-- Whether the thread gives up on the queue: there is no memory for the copy of a
    configuration packet. -/
def failsOn (s : Shared) (skb : Frame) (allocated : Bool) : Bool :=
  (!s.aggr || skb.anotherPtk) && decide (skb.pktLen ≤ skb.length) && skb.isConfig && !allocated

/-- One packet of `aicwf_process_rxframes`, and where the thread is after it. -/
def process (s : Shared) (skb : Frame) (allocated : Bool) : RxPoint :=
  if s.failsOn skb allocated then .wait
  else if s.aggr then
    if skb.anotherPtk && decide (skb.pktLen ≤ skb.length) then .work (skb.pull skb.step) else .count
  else .count

/-- One step of `usb_busrx_thread`. -/
def run (s : Shared) (allocated : Bool) : Option Shared :=
  match s.thread with
  | .wait =>
      if s.trgg = 0 then none
      else some { s with trgg := s.trgg - 1, thread := if s.up then .look else .stopped }
  | .look =>
      match s.rxq with
      | [] => some { s with thread := .wait }
      | skb :: rest => some { s with rxq := rest, thread := .work skb }
  | .work skb => some { s with thread := s.process skb allocated }
  | .count => some { s with rxCnt := s.rxCnt - 1, thread := .look }
  | .stopped => none

def event (s : Shared) (_ : List Point) : Call → Option (Shared × Option Point)
  | .complete hwReady urb =>
      match s.received hwReady urb with
      | some skb =>
          if s.rxq.length < maxRxqlen then some ({ s with rxq := s.rxq ++ [skb] }, some .inc)
          else some (s, none)
      | none => some (s, none)
  | .thread allocated => (s.run allocated).map fun next => (next, none)
  | .down => some ({ s with up := false, trgg := s.trgg + 1 }, none)

def action (s : Shared) (_ : List Point) : Point → Unit → Option (Shared × Option Point)
  | .inc, _ => some ({ s with rxCnt := s.rxCnt + 1 }, some .read)
  | .read, _ => some (s, if s.rxCnt = 1 then some .signal else none)
  | .signal, _ => some ({ s with trgg := s.trgg + 1 }, none)

end Shared

def rxProgram : Program Shared Point Call Unit where
  event := Shared.event
  action := Shared.action

abbrev RxConfig := Config Shared Point

/-! ## No packet waits for ever -/

/-- The skb that the thread has taken and not yet counted. -/
def RxPoint.held : RxPoint → Int
  | .work _ | .count => 1
  | _ => 0

/-- A completion is about to signal the thread: it has decided to, or it reads 1, or one
    of those that have still to count brings `rx_cnt` to 1. -/
def AboutToSignal (s : Shared) (threads : List Point) : Prop :=
  .signal ∈ threads ∨ (s.rxCnt = 1 ∧ .read ∈ threads) ∨ (s.rxCnt ≤ 0 ∧ .inc ∈ threads)

/-- `rx_cnt` counts the skbs, but for those that are not counted yet, and a thread that
    waits while there are skbs is signalled, now or soon. -/
structure Wakes (c : RxConfig) : Prop where
  counts : c.shared.rxCnt = c.shared.rxq.length + c.shared.thread.held - c.threads.count .inc
  signals : c.shared.thread = .wait → c.shared.rxq ≠ [] →
    0 < c.shared.trgg ∨ AboutToSignal c.shared c.threads

/-- No configuration packet goes without memory, and no completion counts from 1 to 2
    while the thread waits without a signal and the one that counted to 1 has not yet
    read it. -/
def SignalsInTime (c : RxConfig) : Label Call Point Unit → Prop
  | .event (.thread allocated) => ∀ skb, c.shared.thread = .work skb → ¬c.shared.failsOn skb allocated
  | .run .inc _ => ¬(c.shared.thread = .wait ∧ c.shared.trgg = 0 ∧ c.shared.rxCnt = 1 ∧
      .signal ∉ c.threads)
  | _ => True

section Steps

variable {s next : Shared} {threads : List Point}

theorem Wakes.of_running (counts : s.rxCnt = s.rxq.length + s.thread.held - threads.count .inc)
    (runs : s.thread ≠ .wait) : Wakes ⟨s, threads⟩ :=
  ⟨counts, fun waits => absurd waits runs⟩

/-- While the thread waits, an `rx_cnt` that is not positive comes from completions that
    have not counted. -/
theorem Wakes.inc_mem (h : Wakes ⟨s, threads⟩) (waits : s.thread = .wait) (some : s.rxq ≠ [])
    (low : s.rxCnt ≤ 0) : .inc ∈ threads := by
  have counts := h.counts
  have many := List.length_pos_iff.mpr some
  simp only [waits, RxPoint.held] at counts
  apply List.count_pos_iff.mp
  omega

theorem run_wakes {allocated : Bool} (h : Wakes ⟨s, threads⟩) (taken : s.run allocated = some next) :
    Wakes ⟨next, threads⟩ ↔ ∀ skb, s.thread = .work skb → ¬s.failsOn skb allocated := by
  have counts := h.counts
  unfold Shared.run at taken
  cases point : s.thread with
  | wait =>
      simp only [point, Option.ite_none_left_eq_some, Option.some.injEq] at taken counts
      obtain ⟨-, rfl⟩ := taken
      refine iff_of_true ?_ (fun skb same => by cases same)
      cases up : s.up with
      | true => exact .of_running (by simpa [RxPoint.held] using counts) (by simp)
      | false => exact .of_running (by simpa [RxPoint.held] using counts) (by simp)
  | look =>
      rw [point] at taken counts
      refine iff_of_true ?_ (fun skb same => by cases same)
      cases queue : s.rxq with
      | nil =>
          simp only [queue, Option.some.injEq] at taken
          obtain rfl := taken
          exact ⟨by simpa [RxPoint.held, queue] using counts, fun _ filled => absurd rfl filled⟩
      | cons skb rest =>
          simp only [queue, Option.some.injEq] at taken
          obtain rfl := taken
          refine .of_running ?_ (by simp)
          simp only [queue, List.length_cons, RxPoint.held] at counts ⊢
          omega
  | work skb =>
      simp only [point, Option.some.injEq] at taken counts
      obtain rfl := taken
      cases fails : s.failsOn skb allocated with
      | true =>
          refine iff_of_false (fun after => ?_) (fun never => never skb rfl fails)
          have broken := after.counts
          simp only [Shared.process, fails, if_true, RxPoint.held] at broken counts
          omega
      | false =>
          refine iff_of_true ?_ ?_
          · have held : (s.process skb allocated).held = 1 ∧ s.process skb allocated ≠ .wait := by
              simp only [Shared.process, fails, Bool.false_eq_true, if_false]
              split
              · split <;> simp [RxPoint.held]
              · simp [RxPoint.held]
            refine .of_running ?_ held.2
            simp only [held.1]
            exact counts
          · intro other same
            obtain rfl := RxPoint.work.inj same
            simp [fails]
  | count =>
      simp only [point, Option.some.injEq] at taken counts
      obtain rfl := taken
      refine iff_of_true (.of_running ?_ (by simp)) (fun skb same => by cases same)
      simp only [RxPoint.held] at counts ⊢
      omega
  | stopped =>
      rw [point] at taken
      cases taken

/-- An skb that is queued brings a completion that will count it. -/
theorem enqueue_wakes (h : Wakes ⟨s, threads⟩) (skb : Frame) :
    Wakes ⟨{ s with rxq := s.rxq ++ [skb] }, .inc :: threads⟩ where
  counts := by
    have counts := h.counts
    simp only [List.length_append, List.length_singleton, List.count_cons_self] at counts ⊢
    omega
  signals := by
    intro waits _
    cases queue : s.rxq with
    | nil =>
        have counts := h.counts
        have low : s.rxCnt ≤ 0 := by
          simp only [queue, show s.thread = .wait from waits, RxPoint.held, List.length_nil] at counts
          omega
        exact .inr (.inr (.inr ⟨low, List.mem_cons_self⟩))
    | cons first rest =>
        have some : s.rxq ≠ [] := by simp [queue]
        obtain signalled | signal | ⟨one, read⟩ | ⟨low, inc⟩ := h.signals waits some
        · exact .inl signalled
        · exact .inr (.inl (List.mem_cons_of_mem _ signal))
        · exact .inr (.inr (.inl ⟨one, List.mem_cons_of_mem _ read⟩))
        · exact .inr (.inr (.inr ⟨low, List.mem_cons_self⟩))

theorem Wakes.perm {other : List Point} (h : Wakes ⟨s, threads⟩) (same : threads.Perm other) :
    Wakes ⟨s, other⟩ := by
  refine ⟨by simpa [same.count_eq] using h.counts, fun waits some => ?_⟩
  simpa [AboutToSignal, same.mem_iff] using h.signals waits some

theorem inc_wakes (h : Wakes ⟨s, .inc :: threads⟩) :
    Wakes ⟨{ s with rxCnt := s.rxCnt + 1 }, .read :: threads⟩ ↔
      ¬(s.thread = .wait ∧ s.trgg = 0 ∧ s.rxCnt = 1 ∧ .signal ∉ threads) := by
  have counts := h.counts
  simp only [List.count_cons_self] at counts
  constructor
  · rintro after ⟨waits, silent, one, none⟩
    have some : s.rxq ≠ [] := by
      intro empty
      simp only [empty, waits, RxPoint.held, List.length_nil] at counts
      omega
    obtain signalled | signal | ⟨again, -⟩ | ⟨low, -⟩ := after.signals waits some
    · exact absurd signalled (by simp [silent])
    · cases List.mem_cons.mp signal with
      | inl same => cases same
      | inr other => exact none other
    · have two : s.rxCnt + 1 = 1 := again
      omega
    · have two : s.rxCnt + 1 ≤ 0 := low
      omega
  · intro inTime
    refine ⟨?_, fun waits some => ?_⟩
    · have other : (Point.read :: threads).count .inc = threads.count .inc :=
        List.count_cons_of_ne (by decide)
      simp only [other]
      omega
    · have waits : s.thread = .wait := waits
      have some : s.rxq ≠ [] := some
      by_cases signalled : 0 < s.trgg
      · exact .inl signalled
      · by_cases signal : Point.signal ∈ threads
        · exact .inr (.inl (List.mem_cons_of_mem _ signal))
        · have silent : s.trgg = 0 := by omega
          have notOne : s.rxCnt ≠ 1 := fun one => inTime ⟨waits, silent, one, signal⟩
          have low : s.rxCnt ≤ 0 := by
            obtain first | second | ⟨one, -⟩ | ⟨low, -⟩ := h.signals waits some
            · exact absurd first signalled
            · cases List.mem_cons.mp second with
              | inl same => cases same
              | inr other => exact absurd other signal
            · exact absurd one notOne
            · exact low
          by_cases zero : s.rxCnt = 0
          · exact .inr (.inr (.inl ⟨by simp [zero], List.mem_cons_self⟩))
          · have more : Point.inc ∈ threads := by
              have many := List.length_pos_iff.mpr some
              simp only [waits, RxPoint.held] at counts
              apply List.count_pos_iff.mp
              omega
            have still : s.rxCnt + 1 ≤ 0 := by omega
            exact .inr (.inr (.inr ⟨still, List.mem_cons_of_mem _ more⟩))

theorem read_wakes (h : Wakes ⟨s, .read :: threads⟩) :
    Wakes ⟨s, (if s.rxCnt = 1 then some Point.signal else none).toList ++ threads⟩ := by
  have other : (Point.read :: threads).count .inc = threads.count .inc :=
    List.count_cons_of_ne (by decide)
  have counts := h.counts
  simp only [other] at counts
  by_cases one : s.rxCnt = 1
  · rw [if_pos one]
    have signals : (Point.signal :: threads).count .inc = threads.count .inc :=
      List.count_cons_of_ne (by decide)
    refine ⟨?_, fun _ _ => .inr (.inl List.mem_cons_self)⟩
    simpa [signals] using counts
  · rw [if_neg one]
    refine ⟨counts, fun waits some => ?_⟩
    obtain signalled | signal | ⟨again, -⟩ | ⟨low, inc⟩ := h.signals waits some
    · exact .inl signalled
    · cases List.mem_cons.mp signal with
      | inl same => cases same
      | inr still => exact .inr (.inl still)
    · exact absurd again one
    · cases List.mem_cons.mp inc with
      | inl same => cases same
      | inr still => exact .inr (.inr (.inr ⟨low, still⟩))

theorem signal_wakes (h : Wakes ⟨s, .signal :: threads⟩) :
    Wakes ⟨{ s with trgg := s.trgg + 1 }, threads⟩ := by
  have other : (Point.signal :: threads).count .inc = threads.count .inc :=
    List.count_cons_of_ne (by decide)
  refine ⟨?_, fun _ _ => .inl (Nat.succ_pos _)⟩
  have counts := h.counts
  simpa only [other] using counts

theorem down_wakes (h : Wakes ⟨s, threads⟩) :
    Wakes ⟨{ s with up := false, trgg := s.trgg + 1 }, threads⟩ :=
  ⟨h.counts, fun _ _ => .inl (Nat.succ_pos _)⟩

end Steps

/-- One step keeps the thread from being forgotten exactly when it is in time. -/
theorem step_wakes {c c' : RxConfig} {label : Label Call Point Unit} (h : Wakes c)
    (taken : rxProgram.step c label = some c') : Wakes c' ↔ SignalsInTime c label := by
  cases label with
  | event call =>
      obtain ⟨next, went, rfl⟩ := Option.map_eq_some_iff.mp taken
      cases call with
      | complete hwReady urb =>
          refine iff_of_true ?_ trivial
          simp only [rxProgram, Shared.event] at went
          split at went
          · rename_i skb _
            split at went
            · obtain rfl := Option.some.inj went
              exact enqueue_wakes h skb
            · obtain rfl := Option.some.inj went
              exact h
          · obtain rfl := Option.some.inj went
            exact h
      | thread allocated =>
          obtain ⟨after, ran, rfl⟩ := Option.map_eq_some_iff.mp went
          exact run_wakes h ran
      | down =>
          obtain rfl := Option.some.inj went
          exact iff_of_true (down_wakes h) trivial
  | run point choice =>
      simp only [Program.step] at taken
      split at taken
      · rename_i member
        obtain ⟨next, went, rfl⟩ := Option.map_eq_some_iff.mp taken
        have moved := h.perm (List.perm_cons_erase member)
        cases point with
        | inc =>
            obtain rfl := Option.some.inj went
            have others : Point.signal ∈ c.threads.erase .inc ↔ Point.signal ∈ c.threads :=
              List.mem_erase_of_ne (by decide)
            have step := inc_wakes moved
            rw [others] at step
            exact step
        | read =>
            obtain rfl := Option.some.inj went
            exact iff_of_true (read_wakes moved) trivial
        | signal =>
            obtain rfl := Option.some.inj went
            exact iff_of_true (signal_wakes moved) trivial
      · cases taken

theorem wakes_init (aggr : Bool) : Wakes ⟨Shared.init aggr, []⟩ := ⟨rfl, fun _ some => absurd rfl some⟩

/-- While no step forgets the thread, every packet in the queue has the thread awake,
    signalled or about to be; `rx_cnt` is the number of packets whenever the thread waits
    and no completion is under way. A step that is not in time breaks this. -/
theorem packets_wake_thread (aggr : Bool) (c : RxConfig)
    (run : Run.Reachable rxProgram.step SignalsInTime ⟨Shared.init aggr, []⟩ c) :
    Wakes c ∧
      (c.shared.thread = .wait → c.threads = [] →
        c.shared.rxCnt = c.shared.rxq.length ∧ (c.shared.rxq ≠ [] → 0 < c.shared.trgg)) ∧
      ∀ label c', rxProgram.step c label = some c' → (Wakes c' ↔ SignalsInTime c label) := by
  have wakes : Wakes c := by
    apply run.invariant Wakes (wakes_init aggr)
    intro c label c' holds inTime taken
    exact (step_wakes holds taken).mpr inTime
  refine ⟨wakes, fun waits quiet => ⟨?_, fun some => ?_⟩, fun label c' taken => step_wakes wakes taken⟩
  · have counts := wakes.counts
    simpa [waits, quiet, RxPoint.held] using counts
  · obtain signalled | signal | ⟨-, read⟩ | ⟨-, inc⟩ := wakes.signals waits some
    · exact signalled
    · simp [quiet] at signal
    · simp [quiet] at read
    · simp [quiet] at inc

/-- A URB with a configuration packet. -/
def configUrb : Urb := ⟨0, 8, 2048, [4, 0, 0x11, 0, 0, 0, 0, 0]⟩

/-- The thread is woken for one packet and drains the queue. -/
def drained : List (Label Call Point Unit) :=
  [.event (.complete true configUrb), .run .inc (), .run .read (), .run .signal (),
    .event (.thread true), .event (.thread true), .event (.thread true), .event (.thread true),
    .event (.thread true)]

def inTime (c : RxConfig) : Label Call Point Unit → Bool
  | .event (.thread allocated) =>
      match c.shared.thread with
      | .work skb => !c.shared.failsOn skb allocated
      | _ => true
  | .run .inc _ => !(c.shared.thread == .wait && c.shared.trgg == 0 && c.shared.rxCnt == 1 &&
      !c.threads.contains .signal)
  | _ => true

theorem inTime_sound (c : RxConfig) (label : Label Call Point Unit) (h : inTime c label = true) :
    SignalsInTime c label := by
  cases label with
  | event call =>
      cases call with
      | complete hwReady urb => trivial
      | thread allocated =>
          intro skb point
          simpa [inTime, point] using h
      | down => trivial
  | run point choice =>
      cases point with
      | inc =>
          simp only [inTime, Bool.not_eq_true', Bool.and_eq_false_imp, Bool.and_eq_true, beq_iff_eq,
            and_imp] at h
          rintro ⟨waits, silent, one, none⟩
          have all := h waits silent one
          simp [none] at all
      | read => trivial
      | signal => trivial

theorem packets_wake_thread_drained : ∃ c : RxConfig, c.shared.rxq = [] ∧ c.shared.rxCnt = 0 ∧ Wakes c := by
  have ran : ((Run.exec rxProgram.step ⟨Shared.init true, []⟩ drained).map fun c =>
      (c.shared.rxq, c.shared.rxCnt)) = some ([], 0) := by
    decide +kernel
  obtain ⟨c, reached, facts⟩ := Option.map_eq_some_iff.mp ran
  obtain ⟨empty, zero⟩ := Prod.mk.inj facts
  have run := Run.Reachable.exec_guarded inTime_sound drained .init reached (by decide +kernel)
  exact ⟨c, empty, zero, (packets_wake_thread true c run).1⟩

/-- The copy of a configuration packet fails; the next packet is queued, counted as the
    second one, and waits for ever. -/
def stranded : List (Label Call Point Unit) :=
  [.event (.complete true configUrb), .run .inc (), .run .read (), .run .signal (),
    .event (.thread true), .event (.thread true), .event (.thread false),
    .event (.complete true configUrb), .run .inc (), .run .read ()]

theorem failed_copy_strands : ¬ ∀ c : RxConfig,
    Run.Reachable rxProgram.step Run.Free ⟨Shared.init true, []⟩ c → c.shared.thread = .wait →
      c.shared.rxq ≠ [] → 0 < c.shared.trgg ∨ AboutToSignal c.shared c.threads := by
  intro all
  have ran : ((Run.exec rxProgram.step ⟨Shared.init true, []⟩ stranded).map fun c =>
      (c.shared.thread, c.shared.rxq, c.shared.trgg, c.threads)) =
        some (.wait, [configUrb.data], 0, []) := by
    decide +kernel
  obtain ⟨c, reached, facts⟩ := Option.map_eq_some_iff.mp ran
  simp only [Prod.mk.injEq] at facts
  obtain ⟨waits, queued, silent, quiet⟩ := facts
  have signals := all c (.exec stranded .init reached) waits (by simp [queued])
  simp [silent, quiet, AboutToSignal] at signals

end Aic8800.Usb
