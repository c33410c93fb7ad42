import Aic8800.Cmd.Manager
import Aic8800.Lib.Threads

/-! # The threads of the command manager

Any number of threads call `rwnx_send_msg` and `rwnx_send_msg1`, one work item
pushes the commands they have deferred, and confirmations, drains and bus changes
come from outside. A point of a thread is where it takes a lock, touches its slot
or goes to sleep. A crashed manager makes `cmd_mgr_queue` drop a lock that it has
not taken; the sections of other threads are kept atomic all the same.
-/

namespace Aic8800.Cmd

open Lib

/-- Where a thread is, with the call it serves and the slot it holds. -/
inductive Point where
  | enter (call : Call)
  | malloc (call : Call)
  | fill (call : Call) (i : Slot)
  | direct (call : Call) (i : Slot)
  | queue (call : Call) (i : Slot)
  | forceDefer (call : Call) (i : Slot)
  | wake (call : Call) (always : Bool)
  | push (call : Call) (i : Slot)
  | wait (call : Call) (i : Slot)
  | completed (call : Call) (i : Slot)
  | completedFree (call : Call) (i : Slot)
  | completedWake (call : Call)
  | timedOut (call : Call) (i : Slot)
  | errorFree (call : Call) (i : Slot)
  | taskPick
  | taskPush (i : Slot)
  | taskWait (i : Slot)
  | taskCompleted (i : Slot)
  | taskFree (i : Slot)
  | taskTimedOut (i : Slot)
  deriving DecidableEq

/-- How `wait_for_completion_killable_timeout` ends. -/
inductive WaitEnd where
  | completed
  | timeout
  | killed
  deriving DecidableEq

inductive CmdEvent where
  | call (call : Call)
  | startWork
  | msgind (m : E2aMsg)
  | drain
  | bus (up : Bool)

namespace Point

/-- The slot a thread will still use. -/
def slot : Point → Option Slot
  | enter _ | malloc _ | wake _ _ | completedWake _ | taskPick => none
  | fill _ i | direct _ i | queue _ i | forceDefer _ i | push _ i | wait _ i | completed _ i
  | completedFree _ i | timedOut _ i | errorFree _ i => some i
  | taskPush i | taskWait i | taskCompleted i | taskFree i | taskTimedOut i => some i

def isTask : Point → Bool
  | taskPick | taskPush _ | taskWait _ | taskCompleted _ | taskFree _ | taskTimedOut _ => true
  | _ => false

end Point

namespace CmdMgr

def wakeCmdWork (s : CmdMgr) : CmdMgr := { s with cmdWork := true }

/-- The work queue runs one thread. -/
def event (s : CmdMgr) (threads : List Point) (e : CmdEvent) : Option (CmdMgr × Option Point) :=
  if s.oops then none
  else
    match e with
    | .call call => some (s, some (.enter call))
    | .startWork =>
        if s.cmdWork && !threads.any Point.isTask then
          some ({ s with cmdWork := false }, some .taskPick)
        else none
    | .msgind m => some (s.cmdMgrMsgind m, none)
    | .drain => some (s.cmdMgrDrain, none)
    | .bus up => some ({ s with usbUp := up }, none)

/-- `cmd_mgr_queue` from its start to where it drops the lock. -/
def cmdMgrQueue (s : CmdMgr) (call : Call) (i : Slot) : Option (CmdMgr × Option Point) :=
  if s.polls i then none
  else
    match s.rejection with
    | some ret => some (s.modify i fun c => { c with result := ret }, some (.errorFree call i))
    | none =>
        if s.defers i then
          some ((s.linkCmd i true).report i 0 true, some (.wake call false))
        else some (s.linkCmd i false, some (.push call i))

def cmdMgrQueueForceDefer (s : CmdMgr) (call : Call) (i : Slot) : CmdMgr × Option Point :=
  match s.rejection with
  | some ret => (s.modify i fun c => { c with result := ret }, some (.errorFree call i))
  | none => (s.linkCmd i true, some (.wake call true))

/-- A sleeping thread wakes up for the completion, and otherwise for the end of
    its time or, unless it is a kernel thread, for a fatal signal. -/
def waitFor (s : CmdMgr) (i : Slot) (woken timedOut : Point) (killed : Option Point) :
    WaitEnd → Option (CmdMgr × Option Point)
  | .completed =>
      if 0 < (s.array i).complete then
        some (s.modify i fun c => { c with complete := c.complete - 1 }, some woken)
      else none
  | .timeout => if (s.array i).complete = 0 then some (s, some timedOut) else none
  | .killed => if (s.array i).complete = 0 then killed.map fun point => (s, some point) else none

/-- One action of a thread. The functions return where the result is `none`. -/
def action (s : CmdMgr) (_others : List Point) (t : Point) (choice : WaitEnd) :
    Option (CmdMgr × Option Point) :=
  if s.oops then none
  else
    match t with
    | .enter call =>
        if s.usbUp then some (s, some (.malloc call))
        else some ({ s with msgFreed := s.msgFreed ++ [call.msg] }, none)
    | .malloc call =>
        match s.rwnxCmdMalloc with
        | (s, some i) => some (s, some (.fill call i))
        -- the null pointer is written through at once
        | (s, none) => some ({ s with oops := true }, none)
    | .fill call i =>
        some (s.fillCmd i call,
          if call.reqcfm then
            if call.entry = .sendMsg1 true then some (.forceDefer call i) else some (.queue call i)
          else some (.direct call i))
    | .direct call i =>
        -- only `rwnx_send_msg` sends a message that wants no confirmation
        let s := if call.entry = .sendMsg then s.aicwfSetCmdTx (s.array i).a2eMsg else s
        some (s, some (.errorFree call i))
    | .queue call i => s.cmdMgrQueue call i
    | .forceDefer call i => some (s.cmdMgrQueueForceDefer call i)
    | .wake _ always =>
        some (if always || s.queueSz ≤ 1 then s.wakeCmdWork else s, none)
    | .push call i => some (s.pushCmd i, some (.wait call i))
    | .wait call i =>
        s.waitFor i (.completed call i) (.timedOut call i) (some (.completed call i)) choice
    | .completed call i =>
        some ((s.unlinkCmd i).report i 0 false, some (.completedFree call i))
    | .completedFree call i => some (s.rwnxCmdFree i, some (.completedWake call))
    | .completedWake _ =>
        some (if !s.cmds.isEmpty && s.usbUp then s.wakeCmdWork else s, none)
    | .timedOut call i =>
        some ((s.timeoutCmd i).report i (-etimedout) false, some (.errorFree call i))
    | .errorFree _ i => some (s.rwnxCmdFree i, none)
    | .taskPick => some (s, s.nextPush.map .taskPush)
    | .taskPush i =>
        some ((s.modify i fun c => { c with flags := { c.flags with waitPush := false } }).pushCmd i,
          some (.taskWait i))
    | .taskWait i => s.waitFor i (.taskCompleted i) (.taskTimedOut i) none choice
    | .taskCompleted i => some (s.unlinkCmd i, some (.taskFree i))
    | .taskFree i => some (s.rwnxCmdFree i, some .taskPick)
    | .taskTimedOut i => some (s.timeoutCmd i, some .taskPick)

/-- What the action of a thread at a point can do, one case for each way out. -/
inductive Acts (s : CmdMgr) : Point → WaitEnd → CmdMgr → Option Point → Prop where
  | enter {call choice} : s.usbUp = true → Acts s (.enter call) choice s (some (.malloc call))
  | enterDown {call choice} : s.usbUp = false →
      Acts s (.enter call) choice { s with msgFreed := s.msgFreed ++ [call.msg] } none
  | malloc {call choice i} : s.freeSlot = some i →
      Acts s (.malloc call) choice (s.modify i fun c => { c with used := true })
        (some (.fill call i))
  | mallocNull {call choice} : s.freeSlot = none →
      Acts s (.malloc call) choice { s with oops := true } none
  | fillDirect {call i choice} : call.reqcfm = false →
      Acts s (.fill call i) choice (s.fillCmd i call) (some (.direct call i))
  | fillQueue {call i choice} : call.reqcfm = true → call.entry ≠ .sendMsg1 true →
      Acts s (.fill call i) choice (s.fillCmd i call) (some (.queue call i))
  | fillDefer {call i choice} : call.reqcfm = true → call.entry = .sendMsg1 true →
      Acts s (.fill call i) choice (s.fillCmd i call) (some (.forceDefer call i))
  | direct {call i choice} :
      Acts s (.direct call i) choice s (some (.errorFree call i))
  | directSend {call i choice} : call.entry = .sendMsg →
      Acts s (.direct call i) choice (s.aicwfSetCmdTx (s.array i).a2eMsg)
        (some (.errorFree call i))
  | queueReject {call i choice ret} : s.rejection = some ret →
      Acts s (.queue call i) choice (s.modify i fun c => { c with result := ret })
        (some (.errorFree call i))
  | queueDefer {call i choice} : s.polls i = false → s.rejection = none → s.defers i = true →
      Acts s (.queue call i) choice ((s.linkCmd i true).report i 0 true) (some (.wake call false))
  | queuePush {call i choice} : s.polls i = false → s.rejection = none → s.defers i = false →
      Acts s (.queue call i) choice (s.linkCmd i false) (some (.push call i))
  | forceReject {call i choice ret} : s.rejection = some ret →
      Acts s (.forceDefer call i) choice (s.modify i fun c => { c with result := ret })
        (some (.errorFree call i))
  | forceDefer {call i choice} : s.rejection = none →
      Acts s (.forceDefer call i) choice (s.linkCmd i true) (some (.wake call true))
  | wake {call always choice} (work : Bool) :
      Acts s (.wake call always) choice { s with cmdWork := work } none
  | push {call i choice} : Acts s (.push call i) choice (s.pushCmd i) (some (.wait call i))
  | waitCompleted {call i} : 0 < (s.array i).complete →
      Acts s (.wait call i) .completed (s.modify i fun c => { c with complete := c.complete - 1 })
        (some (.completed call i))
  | waitTimeout {call i} : (s.array i).complete = 0 →
      Acts s (.wait call i) .timeout s (some (.timedOut call i))
  | waitKilled {call i} : (s.array i).complete = 0 →
      Acts s (.wait call i) .killed s (some (.completed call i))
  | completed {call i choice} :
      Acts s (.completed call i) choice ((s.unlinkCmd i).report i 0 false)
        (some (.completedFree call i))
  | completedFree {call i choice} :
      Acts s (.completedFree call i) choice (s.rwnxCmdFree i) (some (.completedWake call))
  | completedWake {call choice} (work : Bool) :
      Acts s (.completedWake call) choice { s with cmdWork := work } none
  | timedOut {call i choice} :
      Acts s (.timedOut call i) choice ((s.timeoutCmd i).report i (-etimedout) false)
        (some (.errorFree call i))
  | errorFree {call i choice} : Acts s (.errorFree call i) choice (s.rwnxCmdFree i) none
  | taskIdle {choice} : s.nextPush = none → Acts s .taskPick choice s none
  | taskTake {choice i} : s.nextPush = some i → Acts s .taskPick choice s (some (.taskPush i))
  | taskPush {i choice} :
      Acts s (.taskPush i) choice
        ((s.modify i fun c => { c with flags := { c.flags with waitPush := false } }).pushCmd i)
        (some (.taskWait i))
  | taskWaitCompleted {i} : 0 < (s.array i).complete →
      Acts s (.taskWait i) .completed (s.modify i fun c => { c with complete := c.complete - 1 })
        (some (.taskCompleted i))
  | taskWaitTimeout {i} : (s.array i).complete = 0 →
      Acts s (.taskWait i) .timeout s (some (.taskTimedOut i))
  | taskCompleted {i choice} : Acts s (.taskCompleted i) choice (s.unlinkCmd i) (some (.taskFree i))
  | taskFree {i choice} : Acts s (.taskFree i) choice (s.rwnxCmdFree i) (some .taskPick)
  | taskTimedOut {i choice} : Acts s (.taskTimedOut i) choice (s.timeoutCmd i) (some .taskPick)

/-- A waiting thread moves only as its sleep allows. -/
theorem waitFor_cases {s : CmdMgr} {i : Slot} {woken timedOut : Point} {killed : Option Point}
    {choice : WaitEnd} {next : CmdMgr × Option Point}
    (went : s.waitFor i woken timedOut killed choice = some next) :
    (choice = .completed ∧ 0 < (s.array i).complete ∧
        next = (s.modify i fun c => { c with complete := c.complete - 1 }, some woken)) ∨
      (choice = .timeout ∧ (s.array i).complete = 0 ∧ next = (s, some timedOut)) ∨
      (choice = .killed ∧ (s.array i).complete = 0 ∧ killed.isSome ∧ next = (s, killed)) := by
  cases choice with
  | completed =>
      simp only [waitFor, Option.ite_none_right_eq_some, Option.some.injEq] at went
      exact .inl ⟨rfl, went.1, went.2.symm⟩
  | timeout =>
      simp only [waitFor, Option.ite_none_right_eq_some, Option.some.injEq] at went
      exact .inr (.inl ⟨rfl, went.1, went.2.symm⟩)
  | killed =>
      simp only [waitFor, Option.ite_none_right_eq_some] at went
      obtain ⟨point, found, rfl⟩ := Option.map_eq_some_iff.mp went.2
      exact .inr (.inr ⟨rfl, went.1, by simp [found], by rw [found]⟩)

theorem action_cases {s : CmdMgr} {others : List Point} {t : Point} {choice : WaitEnd}
    {next : CmdMgr × Option Point} (went : s.action others t choice = some next) :
    s.oops = false ∧ Acts s t choice next.1 next.2 := by
  unfold action at went
  split at went
  · cases went
  rename_i running
  refine ⟨by simpa using running, ?_⟩
  cases t with
  | enter call =>
      simp only at went
      split at went
      · obtain rfl := Option.some.inj went
        exact .enter ‹_›
      · obtain rfl := Option.some.inj went
        exact .enterDown (by simpa using ‹¬s.usbUp = true›)
  | malloc call =>
      cases found : s.freeSlot with
      | some i =>
          simp only [rwnxCmdMalloc, found, Option.some.injEq] at went
          obtain rfl := went
          exact .malloc found
      | none =>
          simp only [rwnxCmdMalloc, found, Option.some.injEq] at went
          obtain rfl := went
          exact .mallocNull found
  | fill call i =>
      obtain rfl := Option.some.inj went
      cases wants : call.reqcfm with
      | false => exact .fillDirect wants
      | true =>
          simp only [if_true]
          split
          · exact .fillDefer wants ‹_›
          · exact .fillQueue wants ‹_›
  | direct call i =>
      obtain rfl := Option.some.inj went
      simp only
      split
      · exact .directSend ‹_›
      · exact .direct
  | queue call i =>
      simp only [cmdMgrQueue] at went
      split at went
      · cases went
      · rename_i unpolled
        split at went
        · obtain rfl := Option.some.inj went
          exact .queueReject ‹_›
        · split at went
          · obtain rfl := Option.some.inj went
            exact .queueDefer (by simpa using unpolled) ‹_› ‹_›
          · rename_i pushes
            obtain rfl := Option.some.inj went
            exact .queuePush (by simpa using unpolled) ‹_› (by simpa using pushes)
  | forceDefer call i =>
      simp only [cmdMgrQueueForceDefer] at went
      split at went
      · obtain rfl := Option.some.inj went
        exact .forceReject ‹_›
      · obtain rfl := Option.some.inj went
        exact .forceDefer ‹_›
  | wake call always =>
      obtain rfl := Option.some.inj went
      simp only
      split
      · exact .wake true
      · exact .wake s.cmdWork
  | push call i =>
      obtain rfl := Option.some.inj went
      exact .push
  | wait call i =>
      obtain ⟨rfl, ready, rfl⟩ | ⟨rfl, none, rfl⟩ | ⟨rfl, none, -, rfl⟩ := waitFor_cases went
      · exact .waitCompleted ready
      · exact .waitTimeout none
      · exact .waitKilled none
  | completed call i =>
      obtain rfl := Option.some.inj went
      exact .completed
  | completedFree call i =>
      obtain rfl := Option.some.inj went
      exact .completedFree
  | completedWake call =>
      obtain rfl := Option.some.inj went
      simp only
      split
      · exact .completedWake true
      · exact .completedWake s.cmdWork
  | timedOut call i =>
      obtain rfl := Option.some.inj went
      exact .timedOut
  | errorFree call i =>
      obtain rfl := Option.some.inj went
      exact .errorFree
  | taskPick =>
      obtain rfl := Option.some.inj went
      cases found : s.nextPush with
      | none => exact .taskIdle found
      | some i => exact .taskTake found
  | taskPush i =>
      obtain rfl := Option.some.inj went
      exact .taskPush
  | taskWait i =>
      obtain ⟨rfl, ready, rfl⟩ | ⟨rfl, none, rfl⟩ | ⟨rfl, none, never, rfl⟩ := waitFor_cases went
      · exact .taskWaitCompleted ready
      · exact .taskWaitTimeout none
      · cases never
  | taskCompleted i =>
      obtain rfl := Option.some.inj went
      exact .taskCompleted
  | taskFree i =>
      obtain rfl := Option.some.inj went
      exact .taskFree
  | taskTimedOut i =>
      obtain rfl := Option.some.inj went
      exact .taskTimedOut

def program : Threads.Program CmdMgr Point CmdEvent WaitEnd := ⟨event, action⟩

end CmdMgr

abbrev CmdLabel := Threads.Label CmdEvent Point WaitEnd

/-- A call that wants a confirmation, with message and confirmation identifiers 2 and 3. -/
def sampleCall (cfm : Option Nat) : Call :=
  { entry := .sendMsg, msg := ⟨0, 2⟩, reqcfm := true, reqid := 3, cfm }

/-- A call from its start to its sleep. -/
def callRun (call : Call) (i : Slot) : List CmdLabel :=
  [.event (.call call), .run (.enter call) .completed, .run (.malloc call) .completed,
    .run (.fill call i) .completed, .run (.queue call i) .completed, .run (.push call i) .completed]

end Aic8800.Cmd
