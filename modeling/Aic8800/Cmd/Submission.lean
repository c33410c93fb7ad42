import Aic8800.Cmd.Callers
import Mathlib.Data.List.Count

/-! # What a submission takes and releases

A call of `rwnx_send_msg` answers for the message it is given, takes a slot and, in the
queue functions, `cmd_mgr->lock`. The threads around it change the manager whenever
the lock is free, so a path of the call is determined by the manager as each of
its sections finds it. The model of a path is the list of what is taken and
released on it, down to the work item that pushes a deferred command and to the
error path of the caller.
-/

namespace Aic8800.Cmd

/-- What is taken or released. A slot is freed while its command is on the list,
    or not. -/
inductive Act where
  | allocMsg (m : LmacMsg)
  | freeMsg (m : LmacMsg)
  | takeSlot (i : Slot)
  | freeSlot (i : Slot) (linked : Bool)
  | lock
  | unlock
  deriving DecidableEq

/-- A path returns, goes on for as long as the lock or the queue is busy, or meets a
    null pointer or a poisoned list entry. -/
inductive Ending where
  | returned (ret : Int)
  | blocked
  | oops
  deriving DecidableEq

structure Path where
  acts : List Act
  ending : Ending
  deriving DecidableEq

namespace Path

def done (ret : Int) : Path := ⟨[], .returned ret⟩

def after (acts : List Act) (p : Path) : Path := ⟨acts ++ p.acts, p.ending⟩

def andThen (p : Path) (next : Int → Path) : Path :=
  match p.ending with
  | .returned ret => .after p.acts (next ret)
  | .blocked => p
  | .oops => p

@[simp] theorem after_mk (a b : List Act) (e : Ending) : after a ⟨b, e⟩ = ⟨a ++ b, e⟩ := rfl

@[simp] theorem after_after (a b : List Act) (p : Path) : after a (after b p) = after (a ++ b) p := by
  simp [after]

@[simp] theorem returned_andThen (a : List Act) (ret : Int) (next : Int → Path) :
    andThen ⟨a, .returned ret⟩ next = after a (next ret) := rfl

@[simp] theorem blocked_andThen (a : List Act) (next : Int → Path) :
    andThen ⟨a, .blocked⟩ next = ⟨a, .blocked⟩ := rfl

@[simp] theorem oops_andThen (a : List Act) (next : Int → Path) :
    andThen ⟨a, .oops⟩ next = ⟨a, .oops⟩ := rfl

@[simp] theorem after_andThen (a : List Act) (p : Path) (next : Int → Path) :
    (after a p).andThen next = after a (p.andThen next) := by
  obtain ⟨acts, ending⟩ := p
  cases ending <;> simp

end Path

/-- A pass of the loop in `cmd_mgr_queue`: whether the manager is crashed before the
    lock is taken, and the manager behind the lock. -/
structure Pass where
  crashed : Bool
  mgr : CmdMgr

/-- What the work item finds at the passes of its loop, and how its wait ends. -/
structure Work where
  passes : List CmdMgr
  timedOut : Bool
  woken : CmdMgr

/-- What the sections of a call find: the manager at the start, at the passes before
    it is queued, after the wait, and when the sender gives its slot back. -/
structure Surroundings where
  start : CmdMgr
  passes : List Pass
  wait : WaitEnd
  woken : CmdMgr
  left : CmdMgr
  work : Work

/-- How `cmd_mgr_queue` comes to its checks: without a result buffer it takes the lock at
    once, and otherwise it polls for an empty queue or a crashed manager. -/
def arrive (polls : Bool) : List Pass → Option (List Act × Pass)
  | [] => none
  | pass :: rest =>
      if !polls then some ([.lock], pass)
      else if pass.crashed then some ([], pass)
      else if pass.mgr.cmds.isEmpty then some ([.lock], pass)
      else (arrive polls rest).map fun arrived => (.lock :: .unlock :: arrived.1, arrived.2)

/-- The list is searched by comparing slots. -/
local instance slot_lawfulBEq : LawfulBEq Slot := inferInstance

/-- `list_del` and `rwnx_cmd_free` of a command that is completed. -/
def dequeue (s : CmdMgr) (i : Slot) : Path :=
  if i ∈ s.cmds then ⟨[.lock, .unlock, .freeSlot i (decide (i ∈ s.cmds.erase i))], .returned 0⟩
  else ⟨[.lock], .oops⟩

/-- `cmd_mgr_task_process`, as far as it concerns one command. -/
def Work.cmdMgrTaskProcess (w : Work) (i : Slot) (msg : LmacMsg) : List CmdMgr → Path
  | [] => .done 0
  | s :: rest =>
      .after [.lock, .unlock] <|
        if s.nextPush = some i then
          .after [.freeMsg msg] <|
            -- nothing unlinks a command that has timed out, or frees its slot
            if w.timedOut then ⟨[.lock, .unlock], .returned 0⟩ else dequeue w.woken i
        else w.cmdMgrTaskProcess i msg rest

namespace Surroundings

variable (env : Surroundings) (call : Call)

/-- The end of `cmd_mgr_queue`: a fatal signal ends the wait as a completion does. -/
def waitFor (i : Slot) : Path :=
  match env.wait with
  | .timeout => ⟨[.lock, .unlock], .returned (-etimedout)⟩
  | .completed | .killed => dequeue env.woken i

/-- The checks of both queue functions and what follows them. -/
def enqueue (s : CmdMgr) (i : Slot) (defers : Bool) : Path :=
  match s.rejection with
  | some ret => ⟨[.unlock], .returned ret⟩
  | none =>
      if i ∈ s.cmds then ⟨[], .oops⟩
      else if defers then .after [.unlock] (env.work.cmdMgrTaskProcess i call.msg env.work.passes)
      else .after [.unlock, .freeMsg call.msg] (env.waitFor i)

def cmdMgrQueue (i : Slot) : Path :=
  match arrive call.cfm.isSome env.passes with
  | none => ⟨[], .blocked⟩
  | some (acts, pass) =>
      let s := pass.mgr.fillCmd i call
      .after acts (env.enqueue call s i (s.defers i))

def cmdMgrQueueForceDefer (i : Slot) : Path :=
  match arrive false env.passes with
  | none => ⟨[], .blocked⟩
  | some (acts, pass) => .after acts (env.enqueue call (pass.mgr.fillCmd i call) i true)

/-- What `rwnx_send_msg` and `rwnx_send_msg1` share. -/
def submit : Path :=
  if !env.start.usbUp then ⟨[.freeMsg call.msg], .returned 0⟩
  else
    match env.start.freeSlot with
    -- the null pointer is written through
    | none => ⟨[], .oops⟩
    | some i =>
        .after [.takeSlot i] <|
          (if call.reqcfm then
            if call.entry = .sendMsg1 true then env.cmdMgrQueueForceDefer call i
            else env.cmdMgrQueue call i
          else .done 0).andThen fun ret =>
            ⟨if !call.reqcfm || ret != 0 then [.freeSlot i (decide (i ∈ env.left.cmds))] else [],
              .returned ret⟩

def rwnxSendMsg : Path := env.submit call

/-- The result of the queue function is dropped. -/
def rwnxSendMsg1 : Path := (env.submit call).andThen fun _ => .done 0

def send : Path := if call.entry = .sendMsg then env.rwnxSendMsg call else env.rwnxSendMsg1 call

/-- A caller from the allocation of its message to its own error path, which frees the
    message or does not. -/
def caller (frees : Bool) : Path :=
  .after [.allocMsg call.msg] <|
    (env.send call).andThen fun ret =>
      ⟨if frees && ret != 0 then [.freeMsg call.msg] else [], .returned ret⟩

end Surroundings

/-! ## Balanced paths -/

namespace Act

def freesSlot (i : Slot) : Act → Bool
  | freeSlot j _ => i == j
  | _ => false

end Act

/-- The slots that are taken are freed, none of them while it is linked, and the lock is
    dropped as often as it is taken. -/
structure Clean (acts : List Act) : Prop where
  slots : ∀ i, acts.countP (Act.freesSlot i) = acts.count (.takeSlot i)
  unlinked : ∀ i, .freeSlot i true ∉ acts
  lock : acts.count .unlock = acts.count .lock

/-- What holds of every path: no slot is freed that was not taken, and no lock is kept. -/
structure Tame (acts : List Act) : Prop where
  slots : ∀ i, acts.countP (Act.freesSlot i) ≤ acts.count (.takeSlot i)
  lock : acts.count .lock ≤ acts.count .unlock

/-- The path comes to its end, is clean, and frees each message that it owes, or
    allocates itself, once. -/
structure Settles (owed : List LmacMsg) (p : Path) : Prop where
  returned : ∃ ret, p.ending = .returned ret
  msgs : ∀ m, p.acts.count (.freeMsg m) = p.acts.count (.allocMsg m) + owed.count m
  clean : Clean p.acts

theorem Tame.append {a b : List Act} (h : Tame a) (k : Tame b) : Tame (a ++ b) := by
  constructor
  · intro i
    rw [List.countP_append, List.count_append]
    exact Nat.add_le_add (h.slots i) (k.slots i)
  · rw [List.count_append, List.count_append]
    exact Nat.add_le_add h.lock k.lock

/-- What one part of a path leaves behind, no other part makes good. -/
theorem Clean.append_iff {a b : List Act} (h : Tame a) (k : Tame b) :
    Clean (a ++ b) ↔ Clean a ∧ Clean b := by
  constructor
  · rintro ⟨slots, unlinked, lock⟩
    simp only [List.countP_append, List.count_append, List.mem_append, not_or] at slots unlinked lock
    have hl := h.lock
    have kl := k.lock
    refine ⟨⟨fun i => ?_, fun i => (unlinked i).1, by omega⟩,
      ⟨fun i => ?_, fun i => (unlinked i).2, by omega⟩⟩
    all_goals
      have both := slots i
      have hs := h.slots i
      have ks := k.slots i
      omega
  · rintro ⟨ha, hb⟩
    constructor
    · intro i
      rw [List.countP_append, List.count_append, ha.slots i, hb.slots i]
    · intro i member
      rcases List.mem_append.mp member with left | right
      · exact ha.unlinked i left
      · exact hb.unlinked i right
    · rw [List.count_append, List.count_append, ha.lock, hb.lock]

/-- Nothing but messages changes hands. -/
theorem tame_of_msgs {acts : List Act}
    (msgs : ∀ a ∈ acts, (∃ m, a = .allocMsg m) ∨ ∃ m, a = .freeMsg m) :
    Tame acts ∧ Clean acts := by
  have absent : ∀ a, (∀ m, a ≠ .allocMsg m) → (∀ m, a ≠ .freeMsg m) → a ∉ acts := by
    intro a alloc free member
    obtain ⟨m, same⟩ | ⟨m, same⟩ := msgs a member
    · exact alloc m same
    · exact free m same
  have slots : ∀ i, acts.countP (Act.freesSlot i) = acts.count (.takeSlot i) := by
    intro i
    rw [List.count_eq_zero.mpr (absent _ (by simp) (by simp)), List.countP_eq_zero]
    intro a member
    obtain ⟨m, rfl⟩ | ⟨m, rfl⟩ := msgs a member
    · simp [Act.freesSlot]
    · simp [Act.freesSlot]
  have lock : acts.count .unlock = acts.count .lock := by
    rw [List.count_eq_zero.mpr (absent _ (by simp) (by simp)),
      List.count_eq_zero.mpr (absent _ (by simp) (by simp))]
  exact ⟨⟨fun i => (slots i).le, lock.ge⟩, ⟨slots, fun i => absent _ (by simp) (by simp), lock⟩⟩

/-- Only the lock changes hands, and is taken `kept` times more than it is dropped. -/
structure Locks (acts : List Act) (kept : Nat) : Prop where
  only : ∀ a ∈ acts, a = .lock ∨ a = .unlock
  count : acts.count .lock = acts.count .unlock + kept

theorem Locks.nil : Locks [] 0 := ⟨fun a member => (by cases member), rfl⟩

theorem Locks.cycle {acts : List Act} {kept : Nat} (h : Locks acts kept) :
    Locks (.lock :: .unlock :: acts) kept := by
  constructor
  · intro a member
    rcases List.mem_cons.mp member with rfl | member
    · exact .inl rfl
    · rcases List.mem_cons.mp member with rfl | member
      · exact .inr rfl
      · exact h.only a member
  · have count := h.count
    simp only [List.count_cons, beq_self_eq_true, if_true]
    simp
    omega

section Locks

variable {acts : List Act} {kept : Nat}

theorem Locks.count_other (h : Locks acts kept) {a : Act} (lock : a ≠ .lock) (unlock : a ≠ .unlock) :
    acts.count a = 0 := by
  apply List.count_eq_zero.mpr
  intro member
  rcases h.only a member with same | same
  · exact lock same
  · exact unlock same

theorem Locks.countP_freesSlot (h : Locks acts kept) (i : Slot) :
    acts.countP (Act.freesSlot i) = 0 := by
  apply List.countP_eq_zero.mpr
  intro a member
  rcases h.only a member with rfl | rfl
  · simp [Act.freesSlot]
  · simp [Act.freesSlot]

theorem Locks.notMem_freeSlot (h : Locks acts kept) (i : Slot) (linked : Bool) :
    .freeSlot i linked ∉ acts := by
  intro member
  rcases h.only _ member with same | same <;> cases same

end Locks

/-- The loop keeps the lock, unless it is left for a crashed manager. -/
theorem arrive_locks {polls : Bool} {passes : List Pass} {acts : List Act} {pass : Pass}
    (arrived : arrive polls passes = some (acts, pass)) :
    Locks acts (if polls && pass.crashed then 0 else 1) := by
  have once : Locks [.lock] 1 := ⟨fun a member => .inl (List.mem_singleton.mp member), rfl⟩
  induction passes generalizing acts with
  | nil => cases arrived
  | cons first rest ih =>
      unfold arrive at arrived
      split at arrived
      · rename_i straight
        obtain ⟨rfl, rfl⟩ := Prod.mk.inj (Option.some.inj arrived)
        rw [if_neg (by simp_all)]
        exact once
      · split at arrived
        · rename_i straight crashed
          obtain ⟨rfl, rfl⟩ := Prod.mk.inj (Option.some.inj arrived)
          rw [if_pos (by simp_all)]
          exact .nil
        · split at arrived
          · rename_i running empty
            obtain ⟨rfl, rfl⟩ := Prod.mk.inj (Option.some.inj arrived)
            rw [if_neg (by simp_all)]
            exact once
          · obtain ⟨next, later, same⟩ := Option.map_eq_some_iff.mp arrived
            obtain ⟨rfl, rfl⟩ := Prod.mk.inj same
            exact (ih later).cycle

/-- The work item pushes the command when it finds it first in the queue. -/
theorem cmdMgrTaskProcess_spec (w : Work) (i : Slot) (msg : LmacMsg) (passes : List CmdMgr) :
    ∃ idle, Locks idle 0 ∧ w.cmdMgrTaskProcess i msg passes =
      if ∃ s ∈ passes, s.nextPush = some i then
        .after (idle ++ [.freeMsg msg])
          (if w.timedOut then ⟨[.lock, .unlock], .returned 0⟩ else dequeue w.woken i)
      else ⟨idle, .returned 0⟩ := by
  induction passes with
  | nil => exact ⟨[], .nil, by simp [Work.cmdMgrTaskProcess, Path.done]⟩
  | cons s rest ih =>
      unfold Work.cmdMgrTaskProcess
      by_cases first : s.nextPush = some i
      · refine ⟨[.lock, .unlock], Locks.nil.cycle, ?_⟩
        have found : ∃ t ∈ s :: rest, t.nextPush = some i := ⟨s, List.mem_cons_self, first⟩
        rw [if_pos first, if_pos found]
        rfl
      · obtain ⟨idle, locks, same⟩ := ih
        refine ⟨.lock :: .unlock :: idle, locks.cycle, ?_⟩
        have more : (∃ t ∈ s :: rest, t.nextPush = some i) ↔ ∃ t ∈ rest, t.nextPush = some i := by
          simp [first]
        rw [if_neg first, same]
        simp only [more]
        split <;> simp [Path.after]

/-! ## The ways through a submission -/

/-- `cmd_mgr_queue` polls for a command with a result buffer. -/
def Call.polls (call : Call) : Bool := decide (call.entry ≠ .sendMsg1 true) && call.cfm.isSome

/-- The push is left to the work item. -/
def Call.deferred (call : Call) (s : CmdMgr) (i : Slot) : Bool :=
  decide (call.entry = .sendMsg1 true) || (s.fillCmd i call).defers i

namespace Surroundings

variable (env : Surroundings) (call : Call)

/-- The pass with which the queue function comes to its checks. -/
def arrival : Option Pass := (arrive call.polls env.passes).map Prod.snd

/-- The work item comes to push the command. -/
def Pushes (i : Slot) : Prop := ∃ s ∈ env.work.passes, s.nextPush = some i

/-- A call that is to be confirmed has its slot, and is at the checks of the queue function. -/
structure Reaches (i : Slot) (acts : List Act) (pass : Pass) : Prop where
  up : env.start.usbUp = true
  slot : env.start.freeSlot = some i
  reqcfm : call.reqcfm = true
  arrives : arrive call.polls env.passes = some (acts, pass)

/-- The queue function links the command. -/
structure Links (i : Slot) (acts : List Act) (pass : Pass) : Prop extends
    env.Reaches call i acts pass where
  accepted : pass.mgr.rejection = none
  unlinked : i ∉ pass.mgr.cmds

/-- The paths of a submission. -/
inductive Course : Path → Prop where
  | busDown : env.start.usbUp = false → Course ⟨[.freeMsg call.msg], .returned 0⟩
  | noSlot : env.start.usbUp = true → env.start.freeSlot = none → Course ⟨[], .oops⟩
  | direct {i linked} : env.start.usbUp = true → env.start.freeSlot = some i →
      call.reqcfm = false → Course ⟨[.takeSlot i, .freeSlot i linked], .returned 0⟩
  | blocked {i} : Course ⟨[.takeSlot i], .blocked⟩
  | rejected {i acts pass ret} : env.Reaches call i acts pass → pass.mgr.rejection = some ret →
      Course ⟨.takeSlot i :: (acts ++ [.unlock, .freeSlot i (decide (i ∈ env.left.cmds))]),
        .returned ret⟩
  | relinked {i acts pass} : env.Reaches call i acts pass → pass.mgr.rejection = none →
      i ∈ pass.mgr.cmds → Course ⟨.takeSlot i :: acts, .oops⟩
  | stranded {i acts pass idle} : env.Links call i acts pass →
      call.deferred pass.mgr i = true → ¬ env.Pushes i → Locks idle 0 →
      Course ⟨.takeSlot i :: (acts ++ .unlock :: idle), .returned 0⟩
  | abandoned {i acts pass idle} : env.Links call i acts pass →
      call.deferred pass.mgr i = true → env.Pushes i → env.work.timedOut = true →
      Locks idle 0 →
      Course ⟨.takeSlot i :: (acts ++ .unlock :: (idle ++ [.freeMsg call.msg, .lock, .unlock])),
        .returned 0⟩
  | worked {i acts pass idle} : env.Links call i acts pass →
      call.deferred pass.mgr i = true → env.Pushes i → env.work.timedOut = false →
      i ∈ env.work.woken.cmds → Locks idle 0 →
      Course ⟨.takeSlot i :: (acts ++ .unlock :: (idle ++ [.freeMsg call.msg, .lock, .unlock,
        .freeSlot i (decide (i ∈ env.work.woken.cmds.erase i))])), .returned 0⟩
  | workedAway {i acts pass idle} : env.Links call i acts pass →
      call.deferred pass.mgr i = true → env.Pushes i → env.work.timedOut = false →
      i ∉ env.work.woken.cmds → Locks idle 0 →
      Course ⟨.takeSlot i :: (acts ++ .unlock :: (idle ++ [.freeMsg call.msg, .lock])), .oops⟩
  | timedOut {i acts pass} : env.Links call i acts pass →
      call.deferred pass.mgr i = false → env.wait = .timeout →
      Course ⟨.takeSlot i :: (acts ++ [.unlock, .freeMsg call.msg, .lock, .unlock,
        .freeSlot i (decide (i ∈ env.left.cmds))]), .returned (-etimedout)⟩
  | completed {i acts pass} : env.Links call i acts pass →
      call.deferred pass.mgr i = false → env.wait ≠ .timeout → i ∈ env.woken.cmds →
      Course ⟨.takeSlot i :: (acts ++ [.unlock, .freeMsg call.msg, .lock, .unlock,
        .freeSlot i (decide (i ∈ env.woken.cmds.erase i))]), .returned 0⟩
  | completedAway {i acts pass} : env.Links call i acts pass →
      call.deferred pass.mgr i = false → env.wait ≠ .timeout → i ∉ env.woken.cmds →
      Course ⟨.takeSlot i :: (acts ++ [.unlock, .freeMsg call.msg, .lock]), .oops⟩

end Surroundings

section Courses

variable {env : Surroundings} {call : Call} {i : Slot} {pass : Pass} {acts : List Act}

namespace Surroundings

/-- Both queue functions, as one. -/
theorem queue_eq : (if call.entry = .sendMsg1 true then env.cmdMgrQueueForceDefer call i
      else env.cmdMgrQueue call i) =
    match arrive call.polls env.passes with
    | none => ⟨[], .blocked⟩
    | some (acts, pass) =>
        .after acts (env.enqueue call (pass.mgr.fillCmd i call) i (call.deferred pass.mgr i)) := by
  by_cases defer : call.entry = .sendMsg1 true
  · rw [if_pos defer]
    simp [cmdMgrQueueForceDefer, Call.polls, Call.deferred, defer]
  · rw [if_neg defer]
    simp [cmdMgrQueue, Call.polls, Call.deferred, defer]

/-- A rejected call returns an error. -/
theorem rejection_ne_zero {s : CmdMgr} {ret : Int} (rejected : s.rejection = some ret) : ret ≠ 0 := by
  unfold CmdMgr.rejection at rejected
  split at rejected
  · obtain rfl := Option.some.inj rejected
    decide
  · split at rejected
    · obtain rfl := Option.some.inj rejected
      decide
    · cases rejected

variable (env call) in
theorem course : env.Course call (env.submit call) := by
  unfold submit
  split
  · rename_i down
    exact .busDown (by simpa using down)
  · rename_i up
    have up : env.start.usbUp = true := by simpa using up
    split
    · exact .noSlot up ‹_›
    · rename_i i slot
      cases reqcfm : call.reqcfm with
      | false => exact .direct up slot reqcfm
      | true =>
          simp only [if_true, queue_eq, Bool.not_true, Bool.false_or]
          split
          · exact .blocked
          · rename_i acts pass arrives
            have reaches : env.Reaches call i acts pass := ⟨up, slot, reqcfm, arrives⟩
            simp only [enqueue]
            cases rejected : (pass.mgr.fillCmd i call).rejection with
            | some ret =>
                have error := rejection_ne_zero rejected
                simpa [error] using Course.rejected reaches rejected
            | none =>
                simp only
                split
                · simpa using Course.relinked reaches rejected ‹_›
                · rename_i new
                  have links : env.Links call i acts pass := ⟨reaches, rejected, new⟩
                  cases defers : call.deferred pass.mgr i with
                  | true =>
                      obtain ⟨idle, locks, same⟩ :=
                        cmdMgrTaskProcess_spec env.work i call.msg env.work.passes
                      rw [if_pos rfl, same]
                      by_cases pushes : ∃ s ∈ env.work.passes, s.nextPush = some i
                      · rw [if_pos pushes]
                        cases tout : env.work.timedOut with
                        | true =>
                            simpa using Course.abandoned links defers pushes tout locks
                        | false =>
                            by_cases there : i ∈ env.work.woken.cmds
                            · simpa [dequeue, there] using
                                Course.worked links defers pushes tout there locks
                            · simpa [dequeue, there] using
                                Course.workedAway links defers pushes tout there locks
                      · rw [if_neg pushes]
                        simpa using Course.stranded links defers pushes locks
                  | false =>
                      rw [if_neg Bool.false_ne_true]
                      by_cases tout : env.wait = .timeout
                      · have error : -etimedout ≠ 0 := by decide
                        simpa [waitFor, tout, error] using Course.timedOut links defers tout
                      · have wakes : env.waitFor i = dequeue env.woken i := by
                          unfold waitFor
                          cases ends : env.wait with
                          | timeout => exact absurd ends tout
                          | completed | killed => rfl
                        rw [wakes]
                        by_cases there : i ∈ env.woken.cmds
                        · simpa [dequeue, there] using Course.completed links defers tout there
                        · simpa [dequeue, there] using Course.completedAway links defers tout there

/-- Which calls release the message, the slot and the lock, when the caller frees the
    message on an error or does not. The bus is down; or there is a slot, the call is to
    be confirmed, and it does not leave the loop for a crashed manager. Then a refused
    command needs `rwnx_send_msg` to report it to a caller that frees the message. A
    command that is accepted is not on the list already. A deferred one is pushed by the
    work item and completed in time, still on the list; another one is completed in time,
    still on the list, or times out when somebody has taken it off the list, and the
    caller does not free its message again. -/
def Releases (env : Surroundings) (call : Call) (frees : Bool) : Prop :=
  env.start.usbUp = false ∨
    ∃ i pass, env.start.freeSlot = some i ∧ call.reqcfm = true ∧ env.arrival call = some pass ∧
      (call.polls && pass.crashed) = false ∧
      if pass.mgr.rejection.isSome then
        (frees = true ∧ call.entry = .sendMsg) ∧ i ∉ env.left.cmds
      else
        i ∉ pass.mgr.cmds ∧
          if call.deferred pass.mgr i then
            env.Pushes i ∧ env.work.timedOut = false ∧ env.work.woken.cmds.count i = 1
          else if env.wait = .timeout then
            ¬ (frees = true ∧ call.entry = .sendMsg) ∧ i ∉ env.left.cmds
          else env.woken.cmds.count i = 1

theorem Reaches.releases_iff {frees : Bool} (h : env.Reaches call i acts pass) :
    env.Releases call frees ↔ (call.polls && pass.crashed) = false ∧
      if pass.mgr.rejection.isSome then
        (frees = true ∧ call.entry = .sendMsg) ∧ i ∉ env.left.cmds
      else
        i ∉ pass.mgr.cmds ∧
          if call.deferred pass.mgr i then
            env.Pushes i ∧ env.work.timedOut = false ∧ env.work.woken.cmds.count i = 1
          else if env.wait = .timeout then
            ¬ (frees = true ∧ call.entry = .sendMsg) ∧ i ∉ env.left.cmds
          else env.woken.cmds.count i = 1 := by
  have arrives : env.arrival call = some pass := by
    unfold arrival
    rw [h.arrives]
    rfl
  constructor
  · rintro (down | ⟨j, other, slot, reqcfm, arrival, rest⟩)
    · cases h.up.symm.trans down
    · obtain rfl := Option.some.inj (h.slot.symm.trans slot)
      obtain rfl := Option.some.inj (arrives.symm.trans arrival)
      exact rest
  · intro rest
    exact .inr ⟨i, pass, h.slot, h.reqcfm, arrives, rest⟩

/-- The part of a path behind the loop has to make up for the slot, and for the lock. -/
theorem clean_iff {tail : List Act} {kept : Nat} (locks : Locks acts kept) :
    Clean (.takeSlot i :: (acts ++ tail)) ↔
      (∀ j, tail.countP (Act.freesSlot j) = tail.count (.takeSlot j) + if j = i then 1 else 0) ∧
        (∀ j, .freeSlot j true ∉ tail) ∧ tail.count .unlock = tail.count .lock + kept := by
  have taken : ∀ j, acts.count (.takeSlot j) = 0 := fun j => locks.count_other (by simp) (by simp)
  have turned : ∀ j, (if i = j then 1 else 0) = if j = i then 1 else 0 := by
    simp only [eq_comm, implies_true]
  have count := locks.count
  constructor
  · rintro ⟨slots, unlinked, lock⟩
    refine ⟨fun j => ?_, fun j member => unlinked j (by simp [member]), ?_⟩
    · have both := slots j
      simp [List.count_cons, locks.countP_freesSlot, taken, Act.freesSlot] at both
      rw [both, turned]
    · simp at lock
      omega
  · rintro ⟨slots, unlinked, lock⟩
    constructor
    · intro j
      simp [List.count_cons, locks.countP_freesSlot, taken, Act.freesSlot, slots j, turned]
    · intro j member
      simp only [List.mem_cons, reduceCtorEq, List.mem_append, false_or] at member
      rcases member with before | behind
      · exact locks.notMem_freeSlot j true before
      · exact unlinked j behind
    · simp
      omega

/-- An entry that is unlinked is off the list when it was there once. -/
theorem notMem_erase_iff {cmds : List Slot} (there : i ∈ cmds) :
    i ∉ cmds.erase i ↔ cmds.count i = 1 := by
  have positive : 0 < cmds.count i := List.count_pos_iff.mpr there
  rw [← List.count_eq_zero, List.count_erase_self]
  omega

/-- Only the message of the call is freed, and on a part of a path behind the loop. -/
theorem count_freeMsg {tail : List Act} {kept : Nat} (locks : Locks acts kept) (m : LmacMsg) :
    (Act.takeSlot i :: (acts ++ tail)).count (.freeMsg m) = tail.count (.freeMsg m) := by
  simp [locks.count_other (a := .freeMsg m) (by simp) (by simp)]

/-- A call that goes through releases everything exactly when it is one of those above. -/
theorem Course.releases_iff {p : Path} (h : env.Course call p) (goes : p.ending ≠ .blocked)
    (frees : Bool) : env.Releases call frees ↔
      ∃ ret, p.ending = .returned ret ∧ Clean p.acts ∧
        p.acts.count (.freeMsg call.msg) +
          (if frees = true ∧ call.entry = .sendMsg ∧ ret ≠ 0 then 1 else 0) = 1 := by
  cases h with
  | busDown down =>
      refine iff_of_true (.inl down) ⟨0, rfl, (tame_of_msgs ?_).2, ?_⟩
      · simp
      · simp
  | noSlot up none =>
      refine iff_of_false ?_ (by simp)
      rintro (down | ⟨i, pass, slot, -⟩)
      · cases up.symm.trans down
      · cases none.symm.trans slot
  | direct up slot reqcfm =>
      refine iff_of_false ?_ ?_
      · rintro (down | ⟨i, pass, -, other, -⟩)
        · cases up.symm.trans down
        · cases reqcfm.symm.trans other
      · rintro ⟨ret, same, clean, once⟩
        obtain rfl := Ending.returned.inj same
        simp at once
  | blocked => exact absurd rfl goes
  | @rejected i acts pass ret reaches rejected =>
      have error := rejection_ne_zero rejected
      have locks := arrive_locks reaches.arrives
      rw [reaches.releases_iff, rejected]
      simp only [clean_iff locks, count_freeMsg locks]
      cases (call.polls && pass.crashed) with
      | true => simp
      | false =>
          simp [error, Act.freesSlot]
          tauto
  | @relinked i acts pass reaches free linked =>
      rw [reaches.releases_iff, free]
      simp [linked]
  | @stranded i acts pass idle links defers waits rest =>
      have locks := arrive_locks links.arrives
      rw [links.releases_iff, links.accepted]
      simp only [clean_iff locks, count_freeMsg locks]
      simp [links.unlinked, defers, waits, rest.count_other]
  | @abandoned i acts pass idle links defers pushes tout rest =>
      have locks := arrive_locks links.arrives
      rw [links.releases_iff, links.accepted]
      simp only [clean_iff locks, count_freeMsg locks]
      simp [links.unlinked, defers, tout, rest.count_other, rest.countP_freesSlot, Act.freesSlot]
  | @worked i acts pass idle links defers pushes intime there rest =>
      have locks := arrive_locks links.arrives
      have balance := rest.count
      rw [links.releases_iff, links.accepted]
      simp only [clean_iff locks, count_freeMsg locks]
      cases (call.polls && pass.crashed) with
      | true =>
          simp
          omega
      | false =>
          simp [links.unlinked, defers, intime, pushes, rest.count_other, rest.countP_freesSlot,
            rest.notMem_freeSlot, Act.freesSlot, notMem_erase_iff there]
          omega
  | @workedAway i acts pass idle links defers pushes intime gone rest =>
      rw [links.releases_iff, links.accepted]
      simp [links.unlinked, defers, intime, List.count_eq_zero.mpr gone]
  | @timedOut i acts pass links pushes tout =>
      have locks := arrive_locks links.arrives
      have error : -etimedout ≠ 0 := by decide
      rw [links.releases_iff, links.accepted]
      simp only [clean_iff locks, count_freeMsg locks]
      cases (call.polls && pass.crashed) with
      | true => simp
      | false =>
          simp [links.unlinked, pushes, tout, error, Act.freesSlot]
          tauto
  | @completed i acts pass links pushes intime there =>
      have locks := arrive_locks links.arrives
      rw [links.releases_iff, links.accepted]
      simp only [clean_iff locks, count_freeMsg locks]
      cases (call.polls && pass.crashed) with
      | true => simp
      | false => simp [links.unlinked, pushes, intime, Act.freesSlot, notMem_erase_iff there]
  | @completedAway i acts pass links pushes intime gone =>
      rw [links.releases_iff, links.accepted]
      simp [links.unlinked, pushes, intime, List.count_eq_zero.mpr gone]

/-- A call that goes through returns an error when the queue function refuses the
    command, or the sender's own wait has timed out. -/
def Fails (env : Surroundings) (call : Call) : Prop :=
  env.start.usbUp = true ∧ call.reqcfm = true ∧
    ∃ i pass, env.start.freeSlot = some i ∧ env.arrival call = some pass ∧
      (pass.mgr.rejection.isSome = true ∨
        call.deferred pass.mgr i = false ∧ env.wait = .timeout)

theorem Reaches.fails_iff (h : env.Reaches call i acts pass) :
    env.Fails call ↔ pass.mgr.rejection.isSome = true ∨
      call.deferred pass.mgr i = false ∧ env.wait = .timeout := by
  have arrives : env.arrival call = some pass := by
    unfold arrival
    rw [h.arrives]
    rfl
  constructor
  · rintro ⟨-, -, j, other, slot, arrival, rest⟩
    obtain rfl := Option.some.inj (h.slot.symm.trans slot)
    obtain rfl := Option.some.inj (arrives.symm.trans arrival)
    exact rest
  · intro rest
    exact ⟨h.up, h.reqcfm, i, pass, h.slot, arrives, rest⟩

theorem Course.fails_iff {p : Path} (h : env.Course call p) {ret : Int}
    (ends : p.ending = .returned ret) : env.Fails call ↔ ret ≠ 0 := by
  cases h with
  | busDown down =>
      obtain rfl := Ending.returned.inj ends
      exact iff_of_false (fun fails => by cases down.symm.trans fails.1) (by simp)
  | direct up slot reqcfm =>
      obtain rfl := Ending.returned.inj ends
      exact iff_of_false (fun fails => by cases reqcfm.symm.trans fails.2.1) (by simp)
  | rejected reaches rejected =>
      obtain rfl := Ending.returned.inj ends
      exact iff_of_true (reaches.fails_iff.mpr (.inl (by rw [rejected]; rfl)))
        (rejection_ne_zero rejected)
  | timedOut links pushes tout =>
      obtain rfl := Ending.returned.inj ends
      exact iff_of_true (links.fails_iff.mpr (.inr ⟨pushes, tout⟩)) (by decide)
  | stranded links defers | abandoned links defers | worked links defers =>
      obtain rfl := Ending.returned.inj ends
      rw [links.fails_iff, links.accepted, defers]
      simp
  | completed links pushes intime =>
      obtain rfl := Ending.returned.inj ends
      rw [links.fails_iff, links.accepted]
      simp [intime]
  | noSlot | blocked | relinked | workedAway | completedAway => cases ends

/-- A submission allocates no message and frees no other one. -/
theorem Course.msgs {p : Path} (h : env.Course call p) (m : LmacMsg) :
    p.acts.count (.allocMsg m) = 0 ∧ (m ≠ call.msg → p.acts.count (.freeMsg m) = 0) := by
  have none : ∀ {acts : List Act} {kept : Nat}, Locks acts kept →
      acts.count (.allocMsg m) = 0 ∧ acts.count (.freeMsg m) = 0 := fun locks =>
    ⟨locks.count_other (by simp) (by simp), locks.count_other (by simp) (by simp)⟩
  have other : m ≠ call.msg → ¬ call.msg = m := fun apart same => apart same.symm
  cases h with
  | busDown => simpa [List.count_cons] using other
  | noSlot | direct | blocked => simp
  | rejected reaches | relinked reaches => simp [none (arrive_locks reaches.arrives)]
  | timedOut links | completed links | completedAway links =>
      simpa [List.count_cons, none (arrive_locks links.arrives)] using other
  | stranded links defers waits rest =>
      simp [none (arrive_locks links.arrives), none rest]
  | abandoned links defers pushes tout rest =>
      simpa [List.count_cons, none (arrive_locks links.arrives), none rest] using other
  | worked links defers pushes intime there rest | workedAway links defers pushes intime there rest =>
      simpa [List.count_cons, none (arrive_locks links.arrives), none rest] using other

/-- The part behind the loop frees no other slot, and drops the lock that the loop keeps. -/
theorem tame_of_tail {tail : List Act} {kept : Nat} (locks : Locks acts kept)
    (slots : ∀ j, tail.countP (Act.freesSlot j) ≤ tail.count (.takeSlot j) + if j = i then 1 else 0)
    (lock : tail.count .lock + kept ≤ tail.count .unlock) :
    Tame (.takeSlot i :: (acts ++ tail)) := by
  have taken : ∀ j, acts.count (.takeSlot j) = 0 := fun j => locks.count_other (by simp) (by simp)
  have turned : ∀ j, (if i = j then 1 else 0) = if j = i then 1 else 0 := by
    simp only [eq_comm, implies_true]
  have count := locks.count
  constructor
  · intro j
    simpa [List.count_cons, locks.countP_freesSlot, taken, Act.freesSlot, turned] using slots j
  · simp
    omega

theorem Reaches.tame {tail : List Act} (h : env.Reaches call i acts pass)
    (slots : ∀ j, tail.countP (Act.freesSlot j) ≤ tail.count (.takeSlot j) + if j = i then 1 else 0)
    (lock : tail.count .lock < tail.count .unlock) : Tame (.takeSlot i :: (acts ++ tail)) := by
  apply tame_of_tail (arrive_locks h.arrives) slots
  split <;> omega

theorem Course.tame {p : Path} (h : env.Course call p) (ends : ∃ ret, p.ending = .returned ret) :
    Tame p.acts := by
  cases h with
  | busDown => exact (tame_of_msgs (by simp)).1
  | direct =>
      apply tame_of_tail Locks.nil
      · simp [Act.freesSlot]
      · simp
  | rejected reaches =>
      apply reaches.tame
      · simp [Act.freesSlot]
      · simp
  | timedOut links | completed links =>
      apply links.tame
      · simp [Act.freesSlot]
      · simp
  | stranded links defers waits rest =>
      have balance := rest.count
      apply links.tame
      · simp [Act.freesSlot, rest.countP_freesSlot]
      · simp
        omega
  | abandoned links defers pushes tout rest =>
      have balance := rest.count
      apply links.tame
      · simp [Act.freesSlot, rest.countP_freesSlot]
      · simp
        omega
  | worked links defers pushes intime there rest =>
      have balance := rest.count
      apply links.tame
      · simp [Act.freesSlot, rest.countP_freesSlot, rest.count_other]
      · simp
        omega
  | noSlot | blocked | relinked | workedAway | completedAway => simp at ends

/-- A path of two parts, the first of which frees only one of the messages. -/
theorem settles_append {a : List Act} {m : LmacMsg} {owed : List LmacMsg} {p : Path}
    (quiet : Tame a) (tame : Tame p.acts)
    (msgs : ∀ n, a.count (.allocMsg n) = 0 ∧ (n ≠ m → a.count (.freeMsg n) = 0)) (new : m ∉ owed) :
    Settles (m :: owed) (.after a p) ↔
      (∃ ret, p.ending = .returned ret) ∧ Clean a ∧
        a.count (.freeMsg m) + p.acts.count (.freeMsg m) = p.acts.count (.allocMsg m) + 1 ∧
          (∀ n, n ≠ m → p.acts.count (.freeMsg n) = p.acts.count (.allocMsg n) + owed.count n) ∧
            Clean p.acts := by
  have none : owed.count m = 0 := List.count_eq_zero.mpr new
  have here : (m :: owed).count m = 1 := by rw [List.count_cons_self, none]
  have other : ∀ n, n ≠ m → (m :: owed).count n = owed.count n := fun n apart =>
    List.count_cons_of_ne apart.symm
  have alloc := (msgs m).1
  constructor
  · rintro ⟨returns, freed, clean⟩
    obtain ⟨first, later⟩ := (Clean.append_iff quiet tame).mp clean
    simp only [Path.after, List.count_append] at freed
    refine ⟨returns, first, ?_, fun n apart => ?_, later⟩
    · have both := freed m
      omega
    · have both := freed n
      have silent := msgs n
      have same := other n apart
      have quiet := silent.2 apart
      omega
  · rintro ⟨returns, first, once, others, later⟩
    refine ⟨returns, fun n => ?_, (Clean.append_iff quiet tame).mpr ⟨first, later⟩⟩
    simp only [Path.after, List.count_append]
    by_cases same : n = m
    · subst same
      omega
    · have rest := others n same
      have silent := msgs n
      have count := other n same
      have quiet := silent.2 same
      omega

/-- The rule for a caller that goes on with `rest` after a message is sent, and after an
    error frees what it owes, with that message if `frees` says so. -/
theorem settles_andThen {owed : List LmacMsg} {rest : Path} {next : Int → Path} {Q : Prop}
    (frees : Bool)
    (goes : ((env.submit call).andThen next).ending ≠ .blocked) (new : call.msg ∉ owed)
    (onward : next 0 = rest)
    (error : ∀ ret, ret ≠ 0 → (∃ err, (next ret).ending = .returned err) ∧
      (next ret).acts.Perm
        (((if frees = true ∧ call.entry = .sendMsg then [call.msg] else []) ++ owed).map .freeMsg))
    (tame : (∃ ret, rest.ending = .returned ret) → Tame rest.acts)
    (apart : rest.acts.count (.freeMsg call.msg) = 0 ∧ rest.acts.count (.allocMsg call.msg) = 0)
    (onwards : rest.ending ≠ .blocked → (Settles owed rest ↔ Q)) :
    Settles (call.msg :: owed) ((env.submit call).andThen next) ↔
      env.Releases call frees ∧ (env.Fails call ∨ Q) := by
  have course := env.course call
  generalize env.submit call = p at course goes ⊢
  obtain ⟨acts, ending⟩ := p
  cases ending with
  | blocked => exact absurd rfl goes
  | oops =>
      rw [course.releases_iff (by simp) frees]
      refine iff_of_false ?_ ?_
      · rintro ⟨⟨ret, ends⟩, -, -⟩
        cases ends
      · rintro ⟨⟨ret, ends, -⟩, -⟩
        cases ends
  | returned ret =>
      have quiet : Tame acts := course.tame ⟨ret, rfl⟩
      have msgs : ∀ m, acts.count (.allocMsg m) = 0 ∧
        (m ≠ call.msg → acts.count (.freeMsg m) = 0) := course.msgs
      have ends : ∀ P : Int → Prop, (∃ r, Ending.returned ret = .returned r ∧ P r) ↔ P ret := by
        simp
      rw [course.releases_iff (by simp) frees, course.fails_iff rfl, Path.returned_andThen, ends]
      by_cases ok : ret = 0
      · subst ok
        have unblocked : rest.ending ≠ .blocked := onward ▸ goes
        rw [onward, ← onwards unblocked]
        simp only [ne_eq, not_true_eq_false, and_false, if_false, false_or, Nat.add_zero]
        constructor
        · intro settles
          obtain ⟨-, clean, once, others, later⟩ :=
            (settles_append quiet (tame settles.returned) msgs new).mp settles
          refine ⟨⟨clean, by omega⟩, settles.returned, fun m => ?_, later⟩
          by_cases same : m = call.msg
          · rw [same, List.count_eq_zero.mpr new, apart.1, apart.2]
          · exact others m same
        · rintro ⟨⟨clean, once⟩, later⟩
          refine (settles_append quiet (tame later.returned) msgs new).mpr ?_
          refine ⟨later.returned, clean, by omega, fun m _ => later.msgs m, later.clean⟩
      · obtain ⟨⟨err, returns⟩, same⟩ := error ret ok
        have onlyMsgs : Tame (next ret).acts ∧ Clean (next ret).acts := tame_of_msgs (by
          intro a member
          obtain ⟨m, -, rfl⟩ := List.mem_map.mp (same.subset member)
          exact .inr ⟨m, rfl⟩)
        have freed : ∀ m, (next ret).acts.count (.freeMsg m) =
            (if frees = true ∧ call.entry = .sendMsg then [call.msg] else []).count m +
              owed.count m := by
          intro m
          rw [same.count_eq, List.count_map_of_injective _ _ (fun _ _ => Act.freeMsg.inj), List.count_append]
        have allocs : ∀ m, (next ret).acts.count (.allocMsg m) = 0 := by
          intro m
          rw [same.count_eq]
          apply List.count_eq_zero.mpr
          simp
        rw [settles_append quiet onlyMsgs.1 msgs new]
        simp only [freed, allocs, List.count_eq_zero.mpr new, ok, ne_eq, not_false_eq_true, and_true,
          true_or, Nat.add_zero, Nat.zero_add]
        constructor
        · rintro ⟨-, clean, once, -, -⟩
          refine ⟨clean, ?_⟩
          split
          · rename_i twice
            simpa [twice] using once
          · rename_i twice
            simpa [twice] using once
        · rintro ⟨clean, once⟩
          refine ⟨⟨err, returns⟩, clean, ?_, fun m apart => ?_, onlyMsgs.2⟩
          · split
            · rename_i twice
              simpa [twice] using once
            · rename_i twice
              simpa [twice] using once
          · split
            · simp [Ne.symm apart]
            · simp

theorem settles_alloc {owed : List LmacMsg} {m : LmacMsg} {p : Path} :
    Settles owed (.after [.allocMsg m] p) ↔ Settles (m :: owed) p := by
  have clean : Clean ([.allocMsg m] ++ p.acts) ↔ Clean p.acts := by
    constructor
    · rintro ⟨slots, unlinked, lock⟩
      exact ⟨by simpa [Act.freesSlot] using slots, by simpa using unlinked, by simpa using lock⟩
    · rintro ⟨slots, unlinked, lock⟩
      exact ⟨by simpa [Act.freesSlot] using slots, by simpa using unlinked, by simpa using lock⟩
  have msgs : (∀ n, ([Act.allocMsg m] ++ p.acts).count (.freeMsg n) =
        ([Act.allocMsg m] ++ p.acts).count (.allocMsg n) + owed.count n) ↔
      ∀ n, p.acts.count (.freeMsg n) = p.acts.count (.allocMsg n) + (m :: owed).count n := by
    apply forall_congr'
    intro n
    rw [List.count_append, List.count_append, List.count_singleton, List.count_singleton,
      List.count_cons]
    simp
    omega
  constructor
  · rintro ⟨returns, freed, balanced⟩
    exact ⟨returns, msgs.mp freed, clean.mp balanced⟩
  · rintro ⟨returns, freed, balanced⟩
    exact ⟨returns, msgs.mpr freed, clean.mpr balanced⟩

/-- What is still owed at the end is not released. -/
theorem not_settles_done {m : LmacMsg} (ret : Int) : ¬ Settles [m] ⟨[], .returned ret⟩ := by
  intro settles
  have freed := settles.msgs m
  simp at freed

theorem settles_done (ret : Int) : Settles [] ⟨[], .returned ret⟩ :=
  ⟨⟨ret, rfl⟩, fun _ => rfl, (tame_of_msgs (List.forall_mem_nil _)).2⟩

/-- What the caller of a message does after the call. -/
theorem caller_eq (frees : Bool) : env.caller call frees =
    .after [.allocMsg call.msg] ((env.submit call).andThen fun ret =>
      if call.entry = .sendMsg then
        ⟨if frees && ret != 0 then [.freeMsg call.msg] else [], .returned ret⟩
      else ⟨[], .returned 0⟩) := by
  unfold caller send rwnxSendMsg rwnxSendMsg1
  congr 1
  by_cases entry : call.entry = .sendMsg
  · simp only [if_pos entry]
  · simp only [if_neg entry]
    obtain ⟨acts, ending⟩ := env.submit call
    cases ending <;> simp [Path.done]

theorem caller_settles (frees : Bool) (goes : (env.caller call frees).ending ≠ .blocked) :
    Settles [] (env.caller call frees) ↔ env.Releases call frees := by
  rw [caller_eq] at goes ⊢
  have settles : Settles [] (if call.entry = .sendMsg then
      ⟨if frees && (0 : Int) != 0 then [.freeMsg call.msg] else [], .returned 0⟩
    else ⟨[], .returned 0⟩) := by
    simpa using settles_done 0
  rw [settles_alloc, settles_andThen (Q := True) frees goes (List.not_mem_nil) rfl]
  · simp only [or_true, and_true]
  · intro ret error
    by_cases entry : call.entry = .sendMsg
    · cases frees with
      | true => simp [entry, error]
      | false => simp [entry]
    · simp [entry]
  · simp [(tame_of_msgs (List.forall_mem_nil _)).1]
  · simp
  · exact fun _ => iff_of_true settles trivial

theorem andThen_tame {p : Path} {next : Int → Path}
    (first : (∃ ret, p.ending = .returned ret) → Tame p.acts)
    (later : ∀ ret, (∃ r, (next ret).ending = .returned r) → Tame (next ret).acts)
    (returns : ∃ ret, (p.andThen next).ending = .returned ret) : Tame (p.andThen next).acts := by
  obtain ⟨acts, ending⟩ := p
  cases ending with
  | returned ret => exact (first ⟨ret, rfl⟩).append (later ret returns)
  | blocked | oops => simp at returns

theorem andThen_count {p : Path} {next : Int → Path} {a : Act} (first : p.acts.count a = 0)
    (later : ∀ ret, (next ret).acts.count a = 0) : (p.andThen next).acts.count a = 0 := by
  obtain ⟨acts, ending⟩ := p
  cases ending with
  | returned ret => simpa [Path.after, List.count_append, later ret] using first
  | blocked | oops => exact first

end Surroundings

end Courses

end Aic8800.Cmd
