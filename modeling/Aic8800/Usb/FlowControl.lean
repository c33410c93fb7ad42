import Mathlib
import Aic8800.Usb.Buffers

/-! # Flow control of the USB transmit path

`aicwf_usb_bus_txdata` stops the queues when few buffers are free, and the completion of
a URB wakes them when many are. Each looks at `tx_free_count` under `tx_flow_lock`, after
the lists were changed under their own locks. Calls of the two, and of
`aicwf_usb_bus_start`, are threads here; where `usb_bustx_thread` is, is part of the
state. What becomes of the skbs is left to the model of the buffers.
-/

namespace Aic8800.Usb

open Lib Run Threads

/-- `AICWF_USB_TX_LOW_WATER` -/
def txLowWater : Int := txUrbs / 4

/-- `AICWF_USB_TX_HIGH_WATER` -/
def txHighWater : Int := txLowWater * 3

inductive UsbState where
  | up
  | down
  | sleep
  deriving DecidableEq

/-- Where `usb_bustx_thread` is: it waits for its completion, looks whether there is
    something to do, goes through the loop of `aicwf_usb_tx_process` (the test of the
    list, that of the state, the removal, the submission, the return of a buffer that
    was not accepted), or has stopped. -/
inductive TxPoint where
  | wait
  | check
  | look
  | test
  | dequeue
  | submit (b : Nat)
  | fail (b : Nat) (noDevice : Bool)
  | stopped
  deriving DecidableEq

structure TxDev where
  state : UsbState
  /-- `bus_if->state` is `BUS_DOWN_ST`. -/
  busDown : Bool
  free : List Nat
  freeCount : Int
  post : List Nat
  postCount : Int
  submitted : List Nat
  tbusy : Bool
  /-- The count of `bustx_trgg`. -/
  trgg : Nat
  thread : TxPoint
  deriving DecidableEq

/-- Where a call is: of `aicwf_usb_bus_txdata` (to take a buffer, to post it, to signal
    the thread, to look at the count), of `aicwf_usb_tx_complete` (to return its buffer,
    to look at the count), or of `aicwf_usb_tx_prepare`. -/
inductive TxCall where
  | take
  | enqueue (b : Nat)
  | signal
  | flowCtrl
  | restore (b : Nat)
  | wake
  | prepare
  | unpost
  | giveBack (b : Nat)
  deriving DecidableEq

/-- What happens: a frame is sent, the URB of a buffer completes, the bus is started,
    stopped or put to sleep, or the thread goes on, with what `usb_submit_urb` answers. -/
inductive TxEvent where
  | txdata
  | complete (b : Nat)
  | busStart
  | busStop
  | suspend
  | thread (answer : Answer)
  deriving DecidableEq

namespace TxDev

def init : TxDev where
  state := .down
  busDown := true
  free := List.range txUrbs
  freeCount := txUrbs
  post := []
  postCount := 0
  submitted := []
  tbusy := false
  trgg := 0
  thread := .wait

def setThread (s : TxDev) (p : TxPoint) : TxDev := { s with thread := p }

/-- `aicwf_usb_tx_queue` on the free list -/
def queueFree (s : TxDev) (b : Nat) : TxDev := { s with free := s.free ++ [b], freeCount := s.freeCount + 1 }

/-- `aicwf_usb_tx_queue` on the post list -/
def queuePost (s : TxDev) (b : Nat) : TxDev := { s with post := s.post ++ [b], postCount := s.postCount + 1 }

/-- `aicwf_usb_tx_dequeue` from the free list, when `rest` is left of it -/
def dequeueFree (s : TxDev) (rest : List Nat) : TxDev := { s with free := rest, freeCount := s.freeCount - 1 }

/-- `aicwf_usb_tx_dequeue` from the post list -/
def dequeuePost (s : TxDev) (rest : List Nat) : TxDev := { s with post := rest, postCount := s.postCount - 1 }

/-- The section of `aicwf_usb_bus_txdata` under `tx_flow_lock`. -/
def flowCtrl (s : TxDev) : TxDev := if s.freeCount < txLowWater then { s with tbusy := true } else s

/-- The section of `aicwf_usb_tx_complete` under `tx_flow_lock`. -/
def wake (s : TxDev) : TxDev := if txHighWater < s.freeCount then { s with tbusy := false } else s

/-- One step of `usb_bustx_thread`. -/
def runThread (s : TxDev) (answer : Answer) : Option TxDev :=
  match s.thread with
  | .wait => if s.trgg = 0 then none else some { s with trgg := s.trgg - 1, thread := .check }
  | .check =>
      if s.busDown then some (s.setThread .stopped)
      else if 0 < s.postCount then some (s.setThread .look)
      else some (s.setThread .wait)
  | .look => if s.post = [] then some (s.setThread .wait) else some (s.setThread .test)
  | .test => if s.state = .up then some (s.setThread .dequeue) else some (s.setThread .wait)
  | .dequeue =>
      match s.post with
      | [] => some (s.setThread .wait)
      | b :: rest => some ((s.dequeuePost rest).setThread (.submit b))
  | .submit b =>
      match answer with
      | .ok => some { s with submitted := s.submitted ++ [b], thread := .look }
      | .failed noDevice => some (s.setThread (.fail b noDevice))
  -- the buffer is free again, and nobody looks at the count
  | .fail b noDevice => some ((s.queueFree b).setThread (if noDevice then .wait else .look))
  | .stopped => none

end TxDev

/-- The transmit path. A call of `aicwf_usb_bus_txdata` that gets no memory for its copy
    goes no further than `enqueue`. -/
def txFlow : Program TxDev TxCall TxEvent Unit where
  event s _
    | .txdata => if s.state = .up then some (s, some .take) else some (s, none)
    | .complete b =>
        if b ∈ s.submitted then some ({ s with submitted := s.submitted.erase b }, some (.restore b))
        else none
    | .busStart =>
        if s.state = .up then some (s, none)
        else some ({ s with state := .up, busDown := false }, some .prepare)
    | .busStop => some ({ s with state := .down, busDown := true }, none)
    | .suspend => some ({ s with state := .sleep }, none)
    | .thread answer => (s.runThread answer).map fun s' => (s', none)
  action s _ call _ :=
    match call with
    | .take =>
        match s.free with
        | [] => some (s, some .flowCtrl)
        | b :: rest => some (s.dequeueFree rest, some (.enqueue b))
    | .enqueue b => some (s.queuePost b, some .signal)
    | .signal => some ({ s with trgg := s.trgg + 1 }, some .flowCtrl)
    | .flowCtrl => some (s.flowCtrl, none)
    | .restore b => some (s.queueFree b, some .wake)
    | .wake => some (s.wake, none)
    | .prepare => if s.post = [] then some (s, none) else some (s, some .unpost)
    | .unpost =>
        match s.post with
        -- the thread got the last buffer: `aicwf_usb_tx_prepare` reads through NULL
        | [] => none
        | b :: rest => some (s.dequeuePost rest, some (.giveBack b))
    | .giveBack b => some (s.queueFree b, some .prepare)

abbrev TxConfig := Config TxDev TxCall

abbrev TxLabel := Label TxEvent TxCall Unit

/-! ## Where the buffers are -/

/-- How many buffers a call has in its hands. -/
def TxCall.held : TxCall → Nat
  | .enqueue _ | .restore _ | .giveBack _ => 1
  | _ => 0

def TxPoint.held : TxPoint → Nat
  | .submit _ | .fail _ _ => 1
  | _ => 0

def TxPoint.fails : TxPoint → Bool
  | .fail _ _ => true
  | _ => false

/-- The calls that run hold `held` buffers altogether. -/
def heldBy (calls : List TxCall) : Nat := (calls.map TxCall.held).sum

@[simp] theorem heldBy_nil : heldBy [] = 0 := rfl

@[simp] theorem heldBy_cons (t : TxCall) (ts : List TxCall) : heldBy (t :: ts) = t.held + heldBy ts :=
  List.sum_cons

theorem heldBy_perm {ts us : List TxCall} (same : ts.Perm us) : heldBy ts = heldBy us :=
  (same.map TxCall.held).sum_eq

/-- Every buffer is somewhere, the counts are those of the lists, and while the queues
    are stopped, a buffer is away or a completion is about to look at the count. -/
structure Flowing (s : TxDev) (calls : List TxCall) : Prop where
  freeCount : s.freeCount = s.free.length
  postCount : s.postCount = s.post.length
  total : s.free.length + s.post.length + s.submitted.length + s.thread.held + heldBy calls = txUrbs
  watched : s.tbusy = true → s.free.length < txUrbs ∨ .wake ∈ calls

/-- No step is in progress. -/
def TxConfig.Quiet (c : TxConfig) : Prop := c.threads = [] ∧ (c.shared.thread = .wait ∨ c.shared.thread = .stopped)

/-- If one more buffer comes back, another one is still away, a completion is about to
    look at the count, or the queues are not stopped. -/
def TxConfig.Spare (c : TxConfig) : Prop :=
  c.shared.tbusy = true → c.shared.free.length + 1 < txUrbs ∨ .wake ∈ c.threads

instance (c : TxConfig) : Decidable c.Spare := inferInstanceAs (Decidable (_ → _))

/-- A buffer that `usb_submit_urb` refused, or that the start of the bus took off the
    post list, goes back to the free list only if it is not the last one to do so while
    the queues are stopped. -/
def TxGuard (c : TxConfig) : TxLabel → Prop
  | .event (.thread _) => c.shared.thread.fails = true → c.Spare
  | .run (.giveBack _) _ => c.Spare
  | _ => True

/-! ## Each step -/

section Steps

variable {s s' : TxDev} {calls : List TxCall}

theorem Flowing.perm {other : List TxCall} (same : calls.Perm other) (h : Flowing s calls) :
    Flowing s other :=
  ⟨h.freeCount, h.postCount, heldBy_perm same ▸ h.total,
    fun busy => (h.watched busy).imp_right same.mem_iff.mp⟩

/-- A call that is not about to look at the count, and holds nothing, comes or goes
    unnoticed. -/
theorem flowing_cons {t : TxCall} (idle : t.held = 0) (other : t ≠ .wake) :
    Flowing s (t :: calls) ↔ Flowing s calls := by
  have member : TxCall.wake ∈ t :: calls ↔ TxCall.wake ∈ calls := by
    rw [List.mem_cons, or_iff_right other.symm]
  constructor
  · intro h
    have total := h.total
    rw [heldBy_cons, idle, Nat.zero_add] at total
    exact ⟨h.freeCount, h.postCount, total, fun busy => (h.watched busy).imp_right member.mp⟩
  · intro h
    have total := h.total
    rw [← Nat.zero_add (heldBy calls), ← idle, ← heldBy_cons] at total
    exact ⟨h.freeCount, h.postCount, total, fun busy => (h.watched busy).imp_right member.mpr⟩

/-- What is not about to look at the count was not what the invariant relied on. -/
theorem watched_tail {t : TxCall} (other : t ≠ .wake) (h : Flowing s (t :: calls)) :
    s.tbusy = true → s.free.length < txUrbs ∨ .wake ∈ calls := by
  intro busy
  cases h.watched busy with
  | inl away => exact .inl away
  | inr looks => exact .inr (List.mem_of_ne_of_mem other.symm looks)

/-- A completion that looks at the count wakes the queues, or leaves a buffer away. -/
theorem wake_flowing (h : Flowing s (.wake :: calls)) : Flowing s.wake calls := by
  have counted := h.freeCount
  have total := h.total
  rw [heldBy_cons] at total
  unfold TxDev.wake
  split
  · constructor
    · exact counted
    · exact h.postCount
    · simpa [TxCall.held] using total
    · intro busy
      cases busy
  · rename_i few
    constructor
    · exact counted
    · exact h.postCount
    · simpa [TxCall.held] using total
    · intro _
      left
      have mark : txHighWater = 36 := rfl
      have all : txUrbs = 50 := rfl
      omega

theorem flowCtrl_flowing (h : Flowing s calls) : Flowing s.flowCtrl calls := by
  have counted := h.freeCount
  unfold TxDev.flowCtrl
  split
  · rename_i few
    constructor
    · exact counted
    · exact h.postCount
    · exact h.total
    · intro _
      left
      have mark : txLowWater = 12 := rfl
      have all : txUrbs = 50 := rfl
      show s.free.length < txUrbs
      omega
  · exact h

/-- A call returns the buffer that it holds to the free list. -/
theorem queueFree_flowing {t t' : TxCall} {b : Nat} (h : Flowing s (t :: calls)) (held : t.held = 1)
    (idle : t'.held = 0)
    (watched : s.tbusy = true → s.free.length + 1 < txUrbs ∨ .wake ∈ t' :: calls) :
    Flowing (s.queueFree b) (t' :: calls) := by
  have total := h.total
  rw [heldBy_cons] at total
  constructor
  · simp [TxDev.queueFree, h.freeCount]
  · exact h.postCount
  · simp only [TxDev.queueFree, List.length_append, List.length_singleton, heldBy_cons]
    omega
  · simpa [TxDev.queueFree] using watched

/-- A call takes a buffer from the free list. -/
theorem dequeueFree_flowing {b : Nat} {rest : List Nat} (h : Flowing s (.take :: calls))
    (first : s.free = b :: rest) : Flowing (s.dequeueFree rest) (.enqueue b :: calls) := by
  have total := h.total
  have counted := h.freeCount
  rw [heldBy_cons, first, List.length_cons] at total
  rw [first, List.length_cons] at counted
  constructor
  · simp only [TxDev.dequeueFree]
    omega
  · exact h.postCount
  · simp only [TxDev.dequeueFree, heldBy_cons, TxCall.held] at total ⊢
    omega
  · intro _
    left
    show rest.length < txUrbs
    omega

theorem queuePost_flowing {b : Nat} (h : Flowing s (.enqueue b :: calls)) :
    Flowing (s.queuePost b) (.signal :: calls) := by
  have total := h.total
  rw [heldBy_cons] at total
  constructor
  · exact h.freeCount
  · simp [TxDev.queuePost, h.postCount]
  · simp only [TxDev.queuePost, List.length_append, List.length_singleton, heldBy_cons,
      TxCall.held] at total ⊢
    omega
  · intro busy
    exact (watched_tail (by simp) h busy).imp_right (List.mem_cons_of_mem _)

/-- A call takes a buffer off the post list. -/
theorem unpost_flowing {b : Nat} {rest : List Nat} (h : Flowing s (.unpost :: calls))
    (first : s.post = b :: rest) : Flowing (s.dequeuePost rest) (.giveBack b :: calls) := by
  have total := h.total
  have counted := h.postCount
  rw [heldBy_cons, first, List.length_cons] at total
  rw [first, List.length_cons] at counted
  constructor
  · exact h.freeCount
  · simp only [TxDev.dequeuePost]
    omega
  · simp only [TxDev.dequeuePost, heldBy_cons, TxCall.held] at total ⊢
    omega
  · intro busy
    exact (watched_tail (by simp) h busy).imp_right (List.mem_cons_of_mem _)

/-- The URB of a buffer completes. -/
theorem complete_flowing {b : Nat} (h : Flowing s calls) (member : b ∈ s.submitted) :
    Flowing { s with submitted := s.submitted.erase b } (.restore b :: calls) := by
  have total := h.total
  have one := List.length_erase_add_one member
  constructor
  · exact h.freeCount
  · exact h.postCount
  · simp only [heldBy_cons, TxCall.held]
    omega
  · intro busy
    exact (h.watched busy).imp_right (List.mem_cons_of_mem _)

/-- The thread goes on with as many buffers in its hands as before. -/
theorem setThread_flowing {p : TxPoint} (h : Flowing s calls) (same : p.held = s.thread.held) :
    Flowing (s.setThread p) calls :=
  ⟨h.freeCount, h.postCount, same ▸ h.total, h.watched⟩

theorem runThread_flowing {answer : Answer} (h : Flowing s calls)
    (spare : s.thread.fails = true → s.tbusy = true → s.free.length + 1 < txUrbs ∨ .wake ∈ calls)
    (went : s.runThread answer = some s') : Flowing s' calls := by
  have total := h.total
  unfold TxDev.runThread at went
  cases point : s.thread with
  | wait =>
      simp only [point] at went
      split at went
      · cases went
      · cases went
        rw [point] at total
        exact ⟨h.freeCount, h.postCount, total, h.watched⟩
  | check =>
      simp only [point] at went
      split at went
      · cases went
        exact setThread_flowing h (by rw [point]; rfl)
      · split at went <;> cases went <;> exact setThread_flowing h (by rw [point]; rfl)
  | look =>
      simp only [point] at went
      split at went <;> cases went <;> exact setThread_flowing h (by rw [point]; rfl)
  | test =>
      simp only [point] at went
      split at went <;> cases went <;> exact setThread_flowing h (by rw [point]; rfl)
  | dequeue =>
      simp only [point] at went
      split at went
      · cases went
        exact setThread_flowing h (by rw [point]; rfl)
      · rename_i b rest first
        cases went
        have counted := h.postCount
        rw [first, List.length_cons] at counted
        rw [point, first, List.length_cons] at total
        constructor
        · exact h.freeCount
        · simp only [TxDev.setThread, TxDev.dequeuePost]
          omega
        · simp only [TxDev.setThread, TxDev.dequeuePost, TxPoint.held] at total ⊢
          omega
        · exact h.watched
  | submit b =>
      simp only [point] at went
      split at went
      · cases went
        rw [point] at total
        constructor
        · exact h.freeCount
        · exact h.postCount
        · simp only [TxPoint.held, List.length_append, List.length_singleton] at total ⊢
          omega
        · exact h.watched
      · cases went
        exact setThread_flowing h (by rw [point]; rfl)
  | fail b noDevice =>
      simp only [point] at went
      cases went
      rw [point] at total spare
      constructor
      · simp [TxDev.setThread, TxDev.queueFree, h.freeCount]
      · exact h.postCount
      · have idle : (if noDevice then TxPoint.wait else .look).held = 0 := by cases noDevice <;> rfl
        have full : (TxPoint.fail b noDevice).held = 1 := rfl
        rw [full] at total
        simp only [TxDev.setThread, TxDev.queueFree, List.length_append, List.length_singleton, idle]
        omega
      · simpa [TxDev.setThread, TxDev.queueFree] using spare rfl
  | stopped =>
      simp only [point] at went
      cases went

end Steps

/-! ## Runs -/

/-- The invariant as a proof of the program: nothing is said of single calls. -/
def txProof : Proof TxDev TxCall := ⟨Flowing, fun _ _ => True⟩

theorem keeps_call {calls : List TxCall} {s : TxDev} {t : TxCall} (h : Flowing s (t :: calls)) :
    txProof.Keeps calls (s, some t) := ⟨h, fun _ _ => trivial, fun _ _ => trivial⟩

theorem keeps_end {calls : List TxCall} {s : TxDev} (h : Flowing s calls) :
    txProof.Keeps calls (s, none) := ⟨h, fun _ _ => trivial, fun _ _ => trivial⟩

theorem init_flowing : Flowing TxDev.init [] where
  freeCount := by rw [TxDev.init, List.length_range]
  postCount := rfl
  total := by rw [TxDev.init, List.length_range]; rfl
  watched busy := by cases busy

theorem event_flowing {c : TxConfig} {e : TxEvent} {next : TxDev × Option TxCall}
    (h : Flowing c.shared c.threads) (allowed : TxGuard c (.event e))
    (went : txFlow.event c.shared c.threads e = some next) : txProof.Keeps c.threads next := by
  cases e with
  | txdata =>
      simp only [txFlow] at went
      split at went
      · cases went
        exact keeps_call ((flowing_cons rfl (by simp)).mpr h)
      · cases went
        exact keeps_end h
  | complete b =>
      simp only [txFlow] at went
      split at went
      · rename_i member
        cases went
        exact keeps_call (complete_flowing h member)
      · cases went
  | busStart =>
      simp only [txFlow] at went
      split at went
      · cases went
        exact keeps_end h
      · cases went
        have started : Flowing { c.shared with state := .up, busDown := false } c.threads :=
          ⟨h.freeCount, h.postCount, h.total, h.watched⟩
        exact keeps_call ((flowing_cons rfl (by simp)).mpr started)
  | busStop =>
      cases went
      exact keeps_end ⟨h.freeCount, h.postCount, h.total, h.watched⟩
  | suspend =>
      cases went
      exact keeps_end ⟨h.freeCount, h.postCount, h.total, h.watched⟩
  | thread answer =>
      obtain ⟨s', moved, rfl⟩ := Option.map_eq_some_iff.mp went
      exact keeps_end (runThread_flowing h allowed moved)

theorem action_flowing {c : TxConfig} {t : TxCall} {next : TxDev × Option TxCall}
    (h : Flowing c.shared (t :: c.threads.erase t))
    (allowed : TxGuard c (.run t ()))
    (went : txFlow.action c.shared (c.threads.erase t) t () = some next) :
    txProof.Keeps (c.threads.erase t) next := by
  cases t with
  | take =>
      simp only [txFlow] at went
      split at went
      · cases went
        exact keeps_call ((flowing_cons rfl (by simp)).mpr ((flowing_cons rfl (by simp)).mp h))
      · rename_i b rest first
        cases went
        exact keeps_call (dequeueFree_flowing h first)
  | enqueue b =>
      cases went
      exact keeps_call (queuePost_flowing h)
  | signal =>
      cases went
      have alone := (flowing_cons rfl (by simp)).mp h
      have signalled : Flowing { c.shared with trgg := c.shared.trgg + 1 } (c.threads.erase .signal) :=
        ⟨alone.freeCount, alone.postCount, alone.total, alone.watched⟩
      exact keeps_call ((flowing_cons rfl (by simp)).mpr signalled)
  | flowCtrl =>
      cases went
      exact keeps_end (flowCtrl_flowing ((flowing_cons rfl (by simp)).mp h))
  | restore b =>
      cases went
      exact keeps_call (queueFree_flowing h rfl rfl fun _ => .inr (List.mem_cons_self ..))
  | wake =>
      cases went
      exact keeps_end (wake_flowing h)
  | prepare =>
      simp only [txFlow] at went
      have alone := (flowing_cons rfl (by simp)).mp h
      split at went
      · cases went
        exact keeps_end alone
      · cases went
        exact keeps_call ((flowing_cons rfl (by simp)).mpr alone)
  | unpost =>
      simp only [txFlow] at went
      split at went
      · cases went
      · rename_i b rest first
        cases went
        exact keeps_call (unpost_flowing h first)
  | giveBack b =>
      cases went
      apply keeps_call (queueFree_flowing h rfl rfl ?_)
      intro busy
      cases allowed busy with
      | inl away => exact .inl away
      | inr looks =>
          have other : TxCall.wake ∈ c.threads.erase (.giveBack b) :=
            (List.mem_erase_of_ne (by simp)).mpr looks
          exact .inr (List.mem_cons_of_mem _ other)

theorem reachable_flowing {c : TxConfig} (h : Reachable txFlow.step TxGuard ⟨.init, []⟩ c) :
    Flowing c.shared c.threads := by
  apply And.left
  apply txProof.invariant (p := txFlow) Flowing.perm init_flowing ?_ ?_ h
  · intro c e next holds allowed went
    exact event_flowing holds.1 allowed went
  · intro c t choice next holds allowed went
    exact action_flowing holds.1 allowed went

/-- The queues do not stay stopped for ever: while they are stopped and no step is in
    progress, a buffer is on the post list or submitted, and its completion will look at
    the count. When every buffer is free and no completion is about to look, they run. -/
theorem flow_control_live {c : TxConfig} (h : Reachable txFlow.step TxGuard ⟨.init, []⟩ c) :
    (c.shared.tbusy = true → c.shared.state = .up → c.Quiet →
      c.shared.post ≠ [] ∨ c.shared.submitted ≠ []) ∧
    (c.shared.free.length = txUrbs → .wake ∉ c.threads → c.shared.tbusy = false) := by
  have flowing := reachable_flowing h
  constructor
  · intro busy _ quiet
    obtain ⟨alone, idle⟩ := quiet
    have total := flowing.total
    have watched := flowing.watched busy
    have empty : c.shared.thread.held = 0 := by cases idle with | _ point => rw [point]; rfl
    rw [alone] at total watched
    rw [empty, heldBy_nil] at total
    have away : c.shared.free.length < txUrbs := watched.resolve_right List.not_mem_nil
    by_contra none
    obtain ⟨post, submitted⟩ := not_or.mp none
    rw [not_not.mp post, not_not.mp submitted, List.length_nil] at total
    omega
  · intro all none
    by_contra busy
    have watched := flowing.watched (Bool.of_not_eq_false busy)
    rw [all] at watched
    exact watched.elim (Nat.lt_irrefl _) none

/-- A frame is sent, as far as into the post list. -/
def sendFrame (b : Nat) : List TxLabel :=
  [.event .txdata, .run .take (), .run (.enqueue b) (), .run .signal (), .run .flowCtrl ()]

/-- The thread submits a buffer, and `usb_submit_urb` answers. -/
def submitFrame (answer : Answer) : List TxLabel :=
  [.event (.thread answer), .event (.thread answer), .event (.thread answer), .event (.thread answer)]

def startBus : List TxLabel := [.event .busStart, .run .prepare ()]

def wakeThread : List TxLabel := [.event (.thread .ok), .event (.thread .ok)]

instance (c : TxConfig) : DecidablePred (TxGuard c)
  | .event (.thread _) => inferInstanceAs (Decidable (_ → _))
  | .run (.giveBack _) _ => inferInstanceAs (Decidable c.Spare)
  | .event .txdata | .event (.complete _) | .event .busStart | .event .busStop | .event .suspend
  | .run .take _ | .run (.enqueue _) _ | .run .signal _ | .run .flowCtrl _ | .run (.restore _) _
  | .run .wake _ | .run .prepare _ | .run .unpost _ => isTrue trivial

/-- Thirty-nine frames are posted, which stops the queues, and one of them is refused. -/
def stoppedRun : List TxLabel :=
  startBus ++ (List.range 39).flatMap sendFrame ++ wakeThread ++ submitFrame (.failed false) ++
    [.event (.thread .ok)] ++ (List.replicate 38 (submitFrame .ok)).flatten ++ [.event (.thread .ok)]

/-- Thirty-nine frames are posted, and all of them are refused. -/
def wedgedRun : List TxLabel :=
  startBus ++ (List.range 39).flatMap sendFrame ++ wakeThread ++
    (List.replicate 39 (submitFrame (.failed false) ++ [.event (.thread .ok)])).flatten ++
    [.event (.thread .ok)]

instance (c : TxConfig) : Decidable c.Quiet := inferInstanceAs (Decidable (_ ∧ _))

/-- After the first run the queues are stopped, and thirty-eight completions are to come. -/
theorem flow_control_live_stopped : ∃ c : TxConfig, Reachable txFlow.step TxGuard ⟨.init, []⟩ c ∧
    (c.shared.tbusy = true ∧ c.shared.state = .up ∧ c.Quiet) ∧
    (c.shared.post ≠ [] ∨ c.shared.submitted ≠ []) := by
  have facts : ((exec txFlow.step (⟨.init, []⟩ : TxConfig) stoppedRun).map fun c =>
      decide (c.shared.tbusy = true ∧ c.shared.state = .up ∧ TxConfig.Quiet c)) = some true := by
    decide +kernel
  obtain ⟨c, run, stopped⟩ := Option.map_eq_some_iff.mp facts
  have reach : Reachable txFlow.step TxGuard ⟨.init, []⟩ c :=
    Reachable.exec_guarded (fun _ _ => of_decide_eq_true) _ .init run (by decide +kernel)
  obtain ⟨busy, up, quiet⟩ := of_decide_eq_true stopped
  exact ⟨c, reach, ⟨busy, up, quiet⟩, (flow_control_live reach).1 busy up quiet⟩

/-- After the second one they stay stopped, with every buffer free. -/
theorem refused_frames_stop_queues : ∃ c : TxConfig, Reachable txFlow.step Free ⟨.init, []⟩ c ∧
    c.shared.tbusy = true ∧ c.shared.state = .up ∧ c.Quiet ∧
    c.shared.post = [] ∧ c.shared.submitted = [] ∧ c.shared.free.length = txUrbs := by
  have facts : ((exec txFlow.step (⟨.init, []⟩ : TxConfig) wedgedRun).map fun c =>
      decide (c.shared.tbusy = true ∧ c.shared.state = .up ∧ TxConfig.Quiet c ∧
        c.shared.post = [] ∧ c.shared.submitted = [] ∧ c.shared.free.length = txUrbs)) = some true := by
    decide +kernel
  obtain ⟨c, run, wedged⟩ := Option.map_eq_some_iff.mp facts
  exact ⟨c, Reachable.exec _ .init run, of_decide_eq_true wedged⟩

/-! ## The buffers

An operation of the model of the buffers is a run of this one, with nobody in between. -/

/-- The lists of the pool to send, whose post list is `post`, are these. -/
structure TxDev.Lists (s : TxDev) (tx : TxPool) (post : List (Nat × Payload)) : Prop where
  free : s.free = tx.free
  freeCount : s.freeCount = tx.freeCount
  post : s.post = post.map Prod.fst
  postCount : s.postCount = tx.postCount
  submitted : s.submitted.Perm (tx.submitted.map Prod.fst)

/-- Both models have the same buffers in the same lists. -/
structure TxDev.Shows (s : TxDev) (u : UsbDev) : Prop where
  up : s.state = .up ↔ u.up = true
  lists : s.Lists u.tx u.tx.post

abbrev Leads : TxConfig → TxConfig → Prop := Reachable txFlow.step Free

section Operations

variable {s s' : TxDev} {u : UsbDev} {tx : TxPool} {post : List (Nat × Payload)}
  {calls : List TxCall} {c : TxConfig}

theorem Leads.thread (run : Leads c ⟨s, calls⟩) (answer : Answer)
    (ran : s.runThread answer = some s') : Leads c ⟨s', calls⟩ := by
  refine run.next (.event (.thread answer)) trivial ?_
  simp [Program.step, txFlow, ran]

theorem Leads.goes {t t' : TxCall} (run : Leads c ⟨s, t :: calls⟩)
    (ran : txFlow.action s calls t () = some (s', some t')) : Leads c ⟨s', t' :: calls⟩ := by
  refine run.next (.run t ()) trivial ?_
  simp [Program.step, ran]

theorem Leads.ends {t : TxCall} (run : Leads c ⟨s, t :: calls⟩)
    (ran : txFlow.action s calls t () = some (s', none)) : Leads c ⟨s', calls⟩ := by
  refine run.next (.run t ()) trivial ?_
  simp [Program.step, ran]

theorem Leads.event {e : TxEvent} {next : Option TxCall} (run : Leads c ⟨s, calls⟩)
    (ran : txFlow.event s calls e = some (s', next)) : Leads c ⟨s', next.toList ++ calls⟩ := by
  refine run.next (.event e) trivial ?_
  simp [Program.step, ran]

theorem TxDev.Shows.flowCtrl (h : s.Shows u) : s.flowCtrl.Shows u := by
  unfold TxDev.flowCtrl
  split
  · exact ⟨h.up, { h.lists with }⟩
  · exact h

theorem TxDev.Shows.wake (h : s.Shows u) : s.wake.Shows u := by
  unfold TxDev.wake
  split
  · exact ⟨h.up, { h.lists with }⟩
  · exact h

/-- A frame is sent: its buffer is posted, or the call stays with it where there is no memory for
    the copy. -/
theorem TxDev.Shows.busTxdata (h : s.Shows u) (run : Leads c ⟨s, calls⟩) (needCfm allocated : Bool) :
    ∃ s' calls', Leads c ⟨s', calls'⟩ ∧ s'.Shows (u.busTxdata needCfm allocated) ∧
      (calls' = calls ∨ ∃ b, calls' = .enqueue b :: calls) := by
  unfold UsbDev.busTxdata
  by_cases up : u.up = true
  · rw [if_pos up]
    have called : Leads c ⟨s, .take :: calls⟩ := run.event (e := .txdata) (if_pos (h.up.mpr up))
    have lists := h.lists
    cases free : u.tx.free with
    | nil =>
        have none : s.free = [] := lists.free.trans free
        have looks : Leads c ⟨s, .flowCtrl :: calls⟩ := called.goes (by simp [txFlow, none])
        exact ⟨s.flowCtrl, calls, looks.ends rfl, h.flowCtrl, .inl rfl⟩
    | cons b rest =>
        have first : s.free = b :: rest := lists.free.trans free
        have taken : Leads c ⟨s.dequeueFree rest, .enqueue b :: calls⟩ :=
          called.goes (by simp [txFlow, first])
        have count : s.freeCount - 1 = u.tx.freeCount - 1 := by rw [lists.freeCount]
        dsimp only
        split
        · exact ⟨_, _, taken, ⟨h.up, { lists with free := rfl, freeCount := count }⟩, .inr ⟨b, rfl⟩⟩
        · have posted : Leads c ⟨_, .flowCtrl :: calls⟩ := (taken.goes rfl).goes rfl
          refine ⟨_, calls, posted.ends rfl, ?_, .inl rfl⟩
          refine TxDev.Shows.flowCtrl ⟨h.up, ?_⟩
          refine { lists with free := rfl, freeCount := count, post := ?_, postCount := ?_ }
          · show s.post ++ [b] = _
            rw [lists.post, List.map_append]
            rfl
          · show s.postCount + 1 = _
            rw [lists.postCount]
  · rw [if_neg up]
    exact ⟨s, calls, run, h, .inl rfl⟩

theorem TxDev.Shows.txComplete (h : s.Shows u) (run : Leads c ⟨s, calls⟩) {entry : Nat × Payload}
    (member : entry ∈ u.tx.submitted) :
    ∃ s', Leads c ⟨s', calls⟩ ∧ s'.Shows (u.txComplete entry) := by
  have lists := h.lists
  have away : entry.1 ∈ s.submitted :=
    lists.submitted.mem_iff.mpr (List.mem_map_of_mem member)
  have called : Leads c ⟨{ s with submitted := s.submitted.erase entry.1 }, .restore entry.1 :: calls⟩ :=
    run.event (e := .complete entry.1) (if_pos away)
  have rest : (s.submitted.erase entry.1).Perm ((u.tx.submitted.erase entry).map Prod.fst) := by
    have all := (List.perm_cons_erase away).symm.trans lists.submitted
    exact (all.trans ((List.perm_cons_erase member).map Prod.fst)).cons_inv
  refine ⟨_, (called.goes rfl).ends rfl, TxDev.Shows.wake ⟨h.up, ?_⟩⟩
  refine { lists with free := ?_, freeCount := ?_, submitted := rest }
  · show s.free ++ [entry.1] = _
    rw [lists.free]
    rfl
  · show s.freeCount + 1 = _
    rw [lists.freeCount]
    rfl

/-- What is left of the post list is taken off it, one buffer after the other. -/
theorem TxDev.Lists.prepare (h : s.Lists tx post) (run : Leads c ⟨s, .prepare :: calls⟩)
    (l : UsbLedger) :
    ∃ s', Leads c ⟨s', calls⟩ ∧ s'.Lists (tx.prepare l post).1 (tx.prepare l post).1.post ∧
      s'.state = s.state := by
  induction post generalizing tx l s with
  | nil =>
      have none : s.post = [] := h.post
      exact ⟨s, run.ends (by simp [txFlow, none]), { h with }, rfl⟩
  | cons entry rest ih =>
      have first : s.post = entry.1 :: rest.map Prod.fst := h.post
      have looked : Leads c ⟨s, .unpost :: calls⟩ := run.goes (by simp [txFlow, first])
      have taken : Leads c ⟨s.dequeuePost (rest.map Prod.fst), .giveBack entry.1 :: calls⟩ :=
        looked.goes (by simp [txFlow, first])
      have back : Leads c ⟨_, .prepare :: calls⟩ := taken.goes rfl
      refine ih ?_ back _
      refine { h with free := ?_, freeCount := ?_, post := rfl, postCount := ?_ }
      · show s.free ++ [entry.1] = _
        rw [h.free]
        rfl
      · show s.freeCount + 1 = _
        rw [h.freeCount]
        rfl
      · show s.postCount - 1 = _
        rw [h.postCount]
        rfl

/-- The thread goes through the post list, until there is no device any more. -/
theorem TxDev.Lists.process (h : s.Lists tx post) (run : Leads c ⟨s, calls⟩)
    (look : s.thread = .look) (up : s.state = .up) (answers : List Answer) (l : UsbLedger) :
    ∃ s', Leads c ⟨s', calls⟩ ∧
      s'.Lists (tx.process l answers post).1 (tx.process l answers post).1.post ∧
      s'.state = s.state := by
  induction post generalizing tx l s answers with
  | nil =>
      have none : s.post = [] := h.post
      have ran : s.runThread .ok = some (s.setThread .wait) := by
        simp [TxDev.runThread, look, none]
      exact ⟨_, run.thread .ok ran, { h with }, rfl⟩
  | cons entry rest ih =>
      have first : s.post = entry.1 :: rest.map Prod.fst := h.post
      have looked : s.runThread .ok = some (s.setThread .test) := by
        simp [TxDev.runThread, look, first]
      have tested : (s.setThread .test).runThread .ok = some (s.setThread .dequeue) := by
        simp [TxDev.runThread, TxDev.setThread, up]
      have dequeued : (s.setThread .dequeue).runThread .ok =
          some ((s.dequeuePost (rest.map Prod.fst)).setThread (.submit entry.1)) := by
        simp [TxDev.runThread, TxDev.setThread, TxDev.dequeuePost, first]
      have taken := ((run.thread .ok looked).thread .ok tested).thread .ok dequeued
      have count : s.postCount - 1 = tx.postCount - 1 := by rw [h.postCount]
      have more : s.freeCount + 1 = tx.freeCount + 1 := by rw [h.freeCount]
      have back : s.free ++ [entry.1] = tx.free ++ [entry.1] := by rw [h.free]
      unfold TxPool.process
      cases answers.headD .ok with
      | ok =>
          have away : (s.submitted ++ [entry.1]).Perm ((tx.submitted ++ [entry]).map Prod.fst) := by
            rw [List.map_append]
            exact h.submitted.append_right _
          refine ih ?_ (taken.thread .ok rfl) rfl up answers.tail l
          exact { h with post := rfl, postCount := count, submitted := away }
      | failed noDevice =>
          have refused := (taken.thread (.failed noDevice) rfl).thread .ok rfl
          cases noDevice with
          | true =>
              refine ⟨_, refused, ?_, rfl⟩
              exact { h with free := back, freeCount := more, post := rfl, postCount := count }
          | false =>
              refine ih ?_ refused rfl up answers.tail _
              exact { h with free := back, freeCount := more, post := rfl, postCount := count }

/-- What the receive pools do is not seen. -/
theorem TxDev.Shows.rxSubmitAll (h : s.Shows u) (results : List Attempt) :
    s.Shows (u.rxSubmitAll results) := by
  unfold UsbDev.rxSubmitAll
  split
  · exact ⟨h.up, h.lists⟩
  · exact h

theorem TxDev.Shows.msgRxSubmitAll (h : s.Shows u) (results : List Attempt) :
    s.Shows (u.msgRxSubmitAll results) := by
  unfold UsbDev.msgRxSubmitAll
  split
  · exact ⟨h.up, h.lists⟩
  · exact h

theorem TxDev.Shows.rxComplete (h : s.Shows u) (entry : Nat × Payload) (v : Verdict)
    (results : List Attempt) : s.Shows (u.rxComplete entry v results) := by
  have put : s.Shows { u with
      rx := u.rx.put entry, ledger := UsbLedger.dispose u.ledger entry.2 v.disposal } :=
    ⟨h.up, h.lists⟩
  unfold UsbDev.rxComplete
  dsimp only
  split
  · exact put.rxSubmitAll results
  · exact put

theorem TxDev.Shows.msgRxComplete (h : s.Shows u) (entry : Nat × Payload) (v : Verdict)
    (results : List Attempt) : s.Shows (u.msgRxComplete entry v results) := by
  have put : s.Shows { u with
      msgRx := u.msgRx.put entry, ledger := UsbLedger.dispose u.ledger entry.2 v.disposal } :=
    ⟨h.up, h.lists⟩
  cases v with
  | kept => exact ⟨h.up, h.lists⟩
  | queued => exact put.msgRxSubmitAll results
  | dropped resubmits =>
      unfold UsbDev.msgRxComplete
      dsimp only
      split
      · exact put.msgRxSubmitAll results
      · exact put

theorem TxDev.Shows.txProcess (h : s.Shows u) (run : Leads c ⟨s, calls⟩) (look : s.thread = .look)
    (answers : List Answer) : ∃ s', Leads c ⟨s', calls⟩ ∧ s'.Shows (u.txProcess answers) := by
  unfold UsbDev.txProcess
  by_cases up : u.up = true
  · rw [if_pos up]
    obtain ⟨s', led, lists, state⟩ :=
      h.lists.process run look (h.up.mpr up) answers u.ledger
    exact ⟨s', led, state ▸ h.up, lists⟩
  · rw [if_neg up]
    exact ⟨s, run, h⟩

theorem TxDev.Shows.busStart (h : s.Shows u) (run : Leads c ⟨s, calls⟩) (msgInPipe : Bool)
    (results : List Attempt) :
    ∃ s', Leads c ⟨s', calls⟩ ∧ s'.Shows (u.busStart msgInPipe results) := by
  unfold UsbDev.busStart
  by_cases up : u.up = true
  · rw [if_pos up]
    exact ⟨s, run, h⟩
  · rw [if_neg up]
    have started : Leads c ⟨{ s with state := .up, busDown := false }, .prepare :: calls⟩ :=
      run.event (e := .busStart) (if_neg (mt h.up.mp up))
    have lists : TxDev.Lists { s with state := .up, busDown := false } u.tx u.tx.post :=
      { h.lists with }
    obtain ⟨s', led, lists, state⟩ := lists.prepare started u.ledger
    have shows : s'.Shows { u with
        up := true
        tx := (u.tx.prepare u.ledger u.tx.post).1
        ledger := (u.tx.prepare u.ledger u.tx.post).2 } := ⟨iff_of_true state rfl, lists⟩
    refine ⟨s', led, ?_⟩
    dsimp only
    split
    · exact shows.msgRxSubmitAll results
    · exact shows.rxSubmitAll results

theorem TxDev.Shows.busStop (h : s.Shows u) (run : Leads c ⟨s, calls⟩) :
    ∃ s', Leads c ⟨s', calls⟩ ∧ s'.Shows u.busStop :=
  ⟨_, run.event (e := .busStop) rfl, iff_of_false nofun Bool.false_ne_true, { h.lists with }⟩

/-- A step of the buffers is a run here, which may leave one call behind that got no memory for a
    copy. The loop of the thread begins where it looks for something to send. -/
theorem shows_step {e : UsbEvent} {u' : UsbDev} (h : s.Shows u) (taken : usbStep u e = some u')
    (look : ∀ answers, e = .txProcess answers → s.thread = .look) :
    ∃ s' calls', Leads ⟨s, calls⟩ ⟨s', calls'⟩ ∧ s'.Shows u' ∧
      (calls' = calls ∨ ∃ b, calls' = .enqueue b :: calls) := by
  -- the other steps leave no call behind
  have alone (whole : ∃ s', Leads ⟨s, calls⟩ ⟨s', calls⟩ ∧ s'.Shows u') :
      ∃ s' calls', Leads ⟨s, calls⟩ ⟨s', calls'⟩ ∧ s'.Shows u' ∧
        (calls' = calls ∨ ∃ b, calls' = .enqueue b :: calls) := by
    obtain ⟨s', led, shows⟩ := whole
    exact ⟨s', calls, led, shows, .inl rfl⟩
  cases e with
  | rxComplete entry hwReady urb room results =>
      obtain ⟨-, rfl⟩ := Option.ite_none_right_eq_some.mp taken |>.imp_right Option.some.inj
      exact alone ⟨s, .init, h.rxComplete entry _ results⟩
  | msgRxComplete entry urb room results =>
      obtain ⟨-, rfl⟩ := Option.ite_none_right_eq_some.mp taken |>.imp_right Option.some.inj
      exact alone ⟨s, .init, h.msgRxComplete entry _ results⟩
  | rxSubmitAll results =>
      obtain rfl := Option.some.inj taken
      exact alone ⟨s, .init, h.rxSubmitAll results⟩
  | msgRxSubmitAll results =>
      obtain rfl := Option.some.inj taken
      exact alone ⟨s, .init, h.msgRxSubmitAll results⟩
  | busTxdata needCfm allocated =>
      obtain rfl := Option.some.inj taken
      exact h.busTxdata .init needCfm allocated
  | txProcess answers =>
      obtain rfl := Option.some.inj taken
      exact alone (h.txProcess .init (look answers rfl) answers)
  | txComplete entry =>
      obtain ⟨member, rfl⟩ := Option.ite_none_right_eq_some.mp taken |>.imp_right Option.some.inj
      exact alone (h.txComplete .init member)
  | busStart msgInPipe results =>
      obtain rfl := Option.some.inj taken
      exact alone (h.busStart .init msgInPipe results)
  | busStop =>
      obtain rfl := Option.some.inj taken
      exact alone (h.busStop .init)

theorem shows_init : TxDev.init.Shows UsbDev.init := ⟨by decide, rfl, rfl, rfl, rfl, .refl _⟩

end Operations

end Aic8800.Usb
