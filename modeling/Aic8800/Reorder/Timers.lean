import Aic8800.Lib.Threads
import Aic8800.Reorder.Window

/-! # Timers and concurrent passes over a block

The receive path, the timer handler, the timeout worker and a flush run on one
block at the same time. Each is cut where it takes or drops `reord_list_lock` or
`stas_reord_lock`, and a flush also where it tests and cancels the timer. What
matters is that a block with pending frames is always about to be looked at.
-/

namespace Aic8800.Reorder

open Lib Lib.Resequencer

/-- Where a call of `reord_process_unit` is. -/
inductive UnitPc where
  | lookup
  | check
  | locked
  | offLocked
  | offAfter
  deriving DecidableEq

inductive FlushPc where
  | lookup
  | check
  | drain
  | testTimer
  | deleteTimer
  | cancelWork
  deriving DecidableEq

inductive Task where
  | unit (f : RecvMsdu) (pc : UnitPc)
  | flush (pc : FlushPc)
  | handler
  | worker
  deriving DecidableEq

namespace Task

def isUnit : Task → Bool
  | .unit _ _ => true
  | _ => false

def isFlush : Task → Bool
  | .flush _ => true
  | _ => false

end Task

/-- What comes from outside: a frame, a flush, the timer running out, and the
    work queue taking the work item up. -/
inductive BlockCall where
  | unit (f : RecvMsdu)
  | flush
  | expire
  | startWork
  deriving DecidableEq

/-- A block, the frames passed to `reord_single_frame_ind` so far, and those freed instead. -/
structure Shared where
  ctrl : ReordCtrl
  handed : List RecvMsdu
  dropped : List RecvMsdu
  deriving DecidableEq

namespace Shared

def init : Shared := ⟨reordInitCtrl, [], []⟩

def pass (s : Shared) (p : Pass) : Shared := ⟨p.ctrl, s.handed ++ p.ind, s.dropped ++ p.drop⟩

/-- The work queue does not run a work item twice at a time. -/
def event (s : Shared) (tasks : List Task) : BlockCall → Option (Shared × Option Task)
  | .unit f => some (s, some (.unit f .lookup))
  | .flush => some (s, some (.flush .lookup))
  | .expire =>
      if s.ctrl.reordTimer then
        some ({ s with ctrl := { s.ctrl with reordTimer := false } }, some .handler)
      else none
  | .startWork =>
      if s.ctrl.reordTimerWork ∧ Task.worker ∉ tasks then
        some ({ s with ctrl := { s.ctrl with reordTimerWork := false } }, some .worker)
      else none

def unitAction (s : Shared) (f : RecvMsdu) : UnitPc → Shared × Option Task
  | .lookup => ({ s with ctrl := reordReenable s.ctrl }, some (.unit f .check))
  | .check =>
      if s.ctrl.enable then (s, some (.unit f .locked))
      else ({ s with ctrl := { s.ctrl with indSn := f.seqNum } }, some (.unit f .offLocked))
  | .locked => (s.pass (reordProcessLocked s.ctrl f), none)
  | .offLocked => ({ s with handed := s.handed ++ [f] }, some (.unit f .offAfter))
  | .offAfter => ({ s with ctrl := { s.ctrl with indSn := (s.ctrl.indSn + 1) % 4096 } }, none)

/-- `del_timer_sync` waits for a running handler, `cancel_work_sync` for a running
    worker. -/
def flushAction (s : Shared) (others : List Task) : FlushPc → Option (Shared × Option Task)
  | .lookup => some (s, some (.flush .check))
  | .check => some (s, if s.ctrl.enable then some (.flush .drain) else none)
  | .drain => some (s.pass (reordFlushLocked s.ctrl), some (.flush .testTimer))
  | .testTimer =>
      some (s, some (.flush (if s.ctrl.reordTimer then .deleteTimer else .cancelWork)))
  | .deleteTimer =>
      if Task.handler ∈ others then none
      else some ({ s with ctrl := { s.ctrl with reordTimer := false } }, some (.flush .cancelWork))
  | .cancelWork =>
      if Task.worker ∈ others then none
      else some ({ s with ctrl := { s.ctrl with reordTimerWork := false } }, none)

def action (s : Shared) (others : List Task) : Task → Unit → Option (Shared × Option Task)
  | .unit f pc, _ => some (s.unitAction f pc)
  | .flush pc, _ => s.flushAction others pc
  | .handler, _ => some ({ s with ctrl := reordTimeoutHandler s.ctrl }, none)
  | .worker, _ => some (s.pass (reordTimeoutWorker s.ctrl), none)

def program : Threads.Program Shared Task BlockCall Unit := ⟨event, action⟩

end Shared

/-- No flush of the block starts during a call of `reord_process_unit`, or the
    other way around. -/
def separate (c : Threads.Config Shared Task) : Threads.Label BlockCall Task Unit → Bool
  | .event (.unit _) => !c.threads.any Task.isFlush
  | .event .flush => !c.threads.any Task.isUnit
  | _ => true

/-- Pending frames wait for the timer, for the work item, or for one of the two
    that is running already. -/
def Armed (c : ReordCtrl) (tasks : List Task) : Prop :=
  c.reordList ≠ [] →
    c.reordTimer = true ∨ c.reordTimerWork = true ∨ Task.handler ∈ tasks ∨ Task.worker ∈ tasks

/-- No call of `reord_process_unit` overlaps a flush. -/
def Apart (tasks : List Task) : Prop :=
  (∀ t ∈ tasks, t.isUnit = false) ∨ ∀ t ∈ tasks, t.isFlush = false

/-- Frames meet an enabled block, and a flush that has drained it finds it empty. -/
def AtPoint (c : ReordCtrl) : Task → Prop
  | .unit _ .lookup => True
  | .unit _ .check | .unit _ .locked => c.enable = true
  | .unit _ _ => False
  | .flush .lookup | .flush .check | .flush .drain => True
  | .flush _ => c.reordList = []
  | .handler | .worker => True

structure Whole (s : Shared) (tasks : List Task) : Prop where
  windowed : Windowed s.ctrl
  armed : Armed s.ctrl tasks
  apart : Apart tasks

def timersProof : Threads.Proof Shared Task := ⟨Whole, fun s t => AtPoint s.ctrl t⟩

theorem AtPoint.mono {c d : ReordCtrl} {t : Task} (h : AtPoint c t)
    (enable : c.enable = true → d.enable = true)
    (list : c.reordList = [] → d.reordList = []) : AtPoint d t := by
  cases t with
  | unit f pc => cases pc <;> first | trivial | exact enable h
  | flush pc => cases pc <;> first | trivial | exact list h
  | handler => trivial
  | worker => trivial

theorem AtPoint.unit {c d : ReordCtrl} {t : Task} (h : AtPoint c t) (noFlush : t.isFlush = false)
    (enable : c.enable = true → d.enable = true) : AtPoint d t := by
  cases t with
  | unit f pc => cases pc <;> first | trivial | exact enable h
  | flush pc => cases noFlush
  | handler => trivial
  | worker => trivial

theorem AtPoint.drained {d : ReordCtrl} {t : Task} (noUnit : t.isUnit = false)
    (list : d.reordList = []) : AtPoint d t := by
  cases t with
  | unit f pc => cases noUnit
  | flush pc => cases pc <;> trivial
  | handler => trivial
  | worker => trivial

/-- A thread that moves stays the kind of thread it is. -/
theorem Apart.moved {t : Task} {next : Option Task} {tasks : List Task} (h : Apart (t :: tasks))
    (unit : ∀ u ∈ next, u.isUnit = t.isUnit) (flush : ∀ u ∈ next, u.isFlush = t.isFlush) :
    Apart (next.toList ++ tasks) := by
  rcases h with none | none
  · refine .inl fun u member => ?_
    rcases List.mem_append.mp member with new | other
    · rw [unit u (Option.mem_toList.mp new)]
      exact none t (by simp)
    · exact none u (by simp [other])
  · refine .inr fun u member => ?_
    rcases List.mem_append.mp member with new | other
    · rw [flush u (Option.mem_toList.mp new)]
      exact none t (by simp)
    · exact none u (by simp [other])

/-- The handler and the worker are neither. -/
theorem Apart.started {u : Task} {tasks : List Task} (h : Apart tasks) (noUnit : u.isUnit = false)
    (noFlush : u.isFlush = false) : Apart (u :: tasks) := by
  rcases h with none | none
  · exact .inl (List.forall_mem_cons.mpr ⟨noUnit, none⟩)
  · exact .inr (List.forall_mem_cons.mpr ⟨noFlush, none⟩)

/-- A step of the receive path or of a flush that leaves the timers and the list. -/
theorem Armed.moved {c d : ReordCtrl} {t : Task} {next : Option Task} {tasks : List Task}
    (h : Armed c (t :: tasks)) (notHandler : t ≠ .handler) (notWorker : t ≠ .worker)
    (timer : d.reordTimer = c.reordTimer) (work : d.reordTimerWork = c.reordTimerWork)
    (list : d.reordList = c.reordList) : Armed d (next.toList ++ tasks) := by
  intro left
  rw [list] at left
  rw [timer, work]
  rcases h left with set | queued | running | running
  · exact .inl set
  · exact .inr (.inl queued)
  · rcases List.mem_cons.mp running with same | other
    · exact absurd same.symm notHandler
    · exact .inr (.inr (.inl (List.mem_append_right _ other)))
  · rcases List.mem_cons.mp running with same | other
    · exact absurd same.symm notWorker
    · exact .inr (.inr (.inr (List.mem_append_right _ other)))

theorem Armed.empty {c : ReordCtrl} (list : c.reordList = []) (tasks : List Task) :
    Armed c tasks := fun left => absurd list left

theorem Armed.mono {c : ReordCtrl} {tasks more : List Task} (h : Armed c tasks)
    (sub : tasks ⊆ more) : Armed c more := by
  intro left
  rcases h left with set | queued | running | running
  · exact .inl set
  · exact .inr (.inl queued)
  · exact .inr (.inr (.inl (sub running)))
  · exact .inr (.inr (.inr (sub running)))

theorem event_keeps (c : Threads.Config Shared Task) (e : BlockCall)
    (next : Shared × Option Task) (h : timersProof.Holds c.shared c.threads)
    (ok : separate c (.event e) = true) (went : Shared.event c.shared c.threads e = some next) :
    timersProof.Keeps c.threads next := by
  obtain ⟨⟨windowed, armed, apart⟩, points⟩ := h
  cases e with
  | unit f =>
      obtain rfl := Option.some.inj went
      have noFlush : ∀ t ∈ c.threads, t.isFlush = false := by simpa [separate] using ok
      refine ⟨⟨windowed, armed.mono (by simp), .inr ?_⟩, ?_, points⟩
      · exact List.forall_mem_cons.mpr ⟨rfl, noFlush⟩
      · rintro t ⟨⟩
        trivial
  | flush =>
      obtain rfl := Option.some.inj went
      have noUnit : ∀ t ∈ c.threads, t.isUnit = false := by simpa [separate] using ok
      refine ⟨⟨windowed, armed.mono (by simp), .inl ?_⟩, ?_, points⟩
      · exact List.forall_mem_cons.mpr ⟨rfl, noUnit⟩
      · rintro t ⟨⟩
        trivial
  | expire =>
      simp only [Shared.event] at went
      split at went
      · obtain rfl := Option.some.inj went
        refine ⟨⟨windowed.timers _ _, fun _ => .inr (.inr (.inl (by simp))),
          apart.started rfl rfl⟩, ?_, fun t member => (points t member).mono id id⟩
        rintro t ⟨⟩
        trivial
      · cases went
  | startWork =>
      simp only [Shared.event] at went
      split at went
      · obtain rfl := Option.some.inj went
        refine ⟨⟨windowed.timers _ _, fun _ => .inr (.inr (.inr (by simp))),
          apart.started rfl rfl⟩, ?_, fun t member => (points t member).mono id id⟩
        rintro t ⟨⟩
        trivial
      · cases went

theorem unit_keeps (s : Shared) (others : List Task) (f : RecvMsdu) (pc : UnitPc)
    (h : timersProof.Holds s (.unit f pc :: others)) :
    timersProof.Keeps others (s.unitAction f pc) := by
  obtain ⟨⟨windowed, armed, apart⟩, points⟩ := h
  have here : AtPoint s.ctrl (.unit f pc) := points _ (by simp)
  have rest : ∀ t ∈ others, AtPoint s.ctrl t := fun t member => points t (by simp [member])
  have noFlush : ∀ t ∈ others, t.isFlush = false := by
    rcases apart with none | none
    · cases none (.unit f pc) (by simp)
    · exact fun t member => none t (by simp [member])
  cases pc with
  | lookup =>
      obtain ⟨again, on⟩ := windowed.reenable
      have same : (reordReenable s.ctrl).reordTimer = s.ctrl.reordTimer ∧
          (reordReenable s.ctrl).reordTimerWork = s.ctrl.reordTimerWork ∧
          (reordReenable s.ctrl).reordList = s.ctrl.reordList := by
        unfold reordReenable
        split <;> exact ⟨rfl, rfl, rfl⟩
      refine ⟨⟨again, ?_, apart.moved (by simp [Shared.unitAction, Task.isUnit])
        (by simp [Shared.unitAction, Task.isFlush])⟩, ?_, ?_⟩
      · exact armed.moved (by simp) (by simp) same.1 same.2.1 same.2.2
      · rintro t ⟨⟩
        exact on
      · exact fun t member => (rest t member).mono (fun _ => on) fun empty => same.2.2.trans empty
  | check =>
      have on : s.ctrl.enable = true := here
      simp only [Shared.unitAction, on, if_true]
      refine ⟨⟨windowed, ?_, apart.moved (by simp [Task.isUnit]) (by simp [Task.isFlush])⟩, ?_, rest⟩
      · exact armed.moved (by simp) (by simp) rfl rfl rfl
      · rintro t ⟨⟩
        exact on
  | locked =>
      have on : s.ctrl.enable = true := here
      refine ⟨⟨windowed.processLocked on f, ?_, .inr noFlush⟩, by simp [Shared.unitAction], ?_⟩
      · rcases windowed.processLocked_armed f with set | ⟨timer, work, list⟩
        · exact fun left => .inl (set left)
        · exact armed.moved (by simp) (by simp) timer work list
      · intro t member
        exact (rest t member).unit (noFlush t member) ((processLocked_enable s.ctrl f).trans ·)
  | offLocked => exact here.elim
  | offAfter => exact here.elim

theorem flush_keeps (s : Shared) (others : List Task) (pc : FlushPc) (next : Shared × Option Task)
    (h : timersProof.Holds s (.flush pc :: others))
    (went : s.flushAction others pc = some next) : timersProof.Keeps others next := by
  obtain ⟨⟨windowed, armed, apart⟩, points⟩ := h
  have here : AtPoint s.ctrl (.flush pc) := points _ (by simp)
  have rest : ∀ t ∈ others, AtPoint s.ctrl t := fun t member => points t (by simp [member])
  have noUnit : ∀ t ∈ others, t.isUnit = false := by
    rcases apart with none | none
    · exact fun t member => none t (by simp [member])
    · cases none (.flush pc) (by simp)
  cases pc with
  | lookup =>
      obtain rfl := Option.some.inj went
      refine ⟨⟨windowed, armed.moved (by simp) (by simp) rfl rfl rfl,
        apart.moved (by simp [Task.isUnit]) (by simp [Task.isFlush])⟩, ?_, rest⟩
      rintro t ⟨⟩
      trivial
  | check =>
      obtain rfl := Option.some.inj went
      refine ⟨⟨windowed, armed.moved (by simp) (by simp) rfl rfl rfl,
        apart.moved (by simp [Task.isUnit]) (by simp [Task.isFlush])⟩, ?_, rest⟩
      intro t member
      simp only [Option.mem_def, Option.ite_none_right_eq_some, Option.some.injEq] at member
      obtain ⟨-, rfl⟩ := member
      trivial
  | drain =>
      obtain rfl := Option.some.inj went
      refine ⟨⟨windowed.flushLocked, .empty rfl _,
        apart.moved (by simp [Task.isUnit]) (by simp [Task.isFlush])⟩, ?_, ?_⟩
      · rintro t ⟨⟩
        rfl
      · exact fun t member => .drained (noUnit t member) rfl
  | testTimer =>
      obtain rfl := Option.some.inj went
      refine ⟨⟨windowed, armed.moved (by simp) (by simp) rfl rfl rfl,
        apart.moved (by simp [Task.isUnit]) (by simp [Task.isFlush])⟩, ?_, rest⟩
      rintro t ⟨⟩
      split <;> exact here
  | deleteTimer =>
      simp only [Shared.flushAction, Option.ite_none_left_eq_some] at went
      obtain ⟨-, went⟩ := went
      obtain rfl := Option.some.inj went
      refine ⟨⟨windowed.timers _ _, fun left => absurd here left,
        apart.moved (by simp [Task.isUnit]) (by simp [Task.isFlush])⟩, ?_,
        fun t member => (rest t member).mono id id⟩
      rintro t ⟨⟩
      exact here
  | cancelWork =>
      simp only [Shared.flushAction, Option.ite_none_left_eq_some] at went
      obtain ⟨-, went⟩ := went
      obtain rfl := Option.some.inj went
      exact ⟨⟨windowed.timers _ _, fun left => absurd here left, .inl noUnit⟩, by simp,
        fun t member => (rest t member).mono id id⟩

theorem action_keeps (s : Shared) (others : List Task) (t : Task) (next : Shared × Option Task)
    (h : timersProof.Holds s (t :: others)) (went : s.action others t () = some next) :
    timersProof.Keeps others next := by
  cases t with
  | unit f pc =>
      obtain rfl := Option.some.inj went
      exact unit_keeps s others f pc h
  | flush pc => exact flush_keeps s others pc next h went
  | handler =>
      obtain rfl := Option.some.inj went
      obtain ⟨⟨windowed, -, apart⟩, points⟩ := h
      refine ⟨⟨windowed.timers _ _, fun _ => .inr (.inl rfl), apart.moved (by simp) (by simp)⟩,
        by simp, fun t member => ?_⟩
      exact (points t (by simp [member])).mono id id
  | worker =>
      obtain rfl := Option.some.inj went
      obtain ⟨⟨windowed, -, apart⟩, points⟩ := h
      refine ⟨⟨windowed.worker, fun left => .inl (windowed.worker_armed left),
        apart.moved (by simp) (by simp)⟩, by simp, fun t member => ?_⟩
      refine (points t (by simp [member])).mono ((timeoutWorker_enable s.ctrl).trans ·) fun empty => ?_
      simp only [Shared.pass, worker_idle empty]
      exact empty

theorem no_stranded_frames {c : Threads.Config Shared Task}
    (run : Run.Reachable Shared.program.step (fun c l => separate c l = true) ⟨.init, []⟩ c)
    (idle : c.threads = []) (pending : c.shared.ctrl.reordList ≠ []) :
    c.shared.ctrl.reordTimer = true ∨ c.shared.ctrl.reordTimerWork = true := by
  have holds : timersProof.Holds c.shared c.threads := by
    apply timersProof.invariant _ _ _ _ run
    · intro s ts us same ⟨windowed, armed, apart⟩
      refine ⟨windowed, armed.mono same.subset, ?_⟩
      exact apart.imp (fun none t member => none t (same.mem_iff.mpr member))
        fun none t member => none t (same.mem_iff.mpr member)
    · exact ⟨.init, .empty rfl _, .inl (by simp)⟩
    · exact event_keeps
    · exact fun c t _ next holds _ went => action_keeps c.shared _ t next holds went
  rcases holds.1.armed pending with set | queued | running | running
  · exact .inl set
  · exact .inr queued
  · simp [idle] at running
  · simp [idle] at running

abbrev BlockLabel := Threads.Label BlockCall Task Unit

/-- A call of `reord_process_unit` from its start to its end. -/
def unitRun (f : RecvMsdu) : List BlockLabel :=
  [.event (.unit f), .run (.unit f .lookup) (), .run (.unit f .check) (), .run (.unit f .locked) ()]

/-- A gap, and the timer that runs out over it. -/
def expireRun : List BlockLabel :=
  unitRun (sampleFrame 0 0) ++ unitRun (sampleFrame 1 2) ++ [.event .expire, .run .handler ()]

theorem no_stranded_frames_expire : ∃ c,
    Run.exec Shared.program.step ⟨.init, []⟩ expireRun = some c ∧
      c.shared.ctrl.reordList = [sampleFrame 1 2] ∧
      (c.shared.ctrl.reordTimer = true ∨ c.shared.ctrl.reordTimerWork = true) :=
  ⟨_, rfl, rfl, no_stranded_frames
    (.exec_guarded (fun _ _ ok => ok) expireRun .init rfl (by decide)) rfl (by decide)⟩

/-- A flush that has drained the block cancels the timer that the receive path
    has armed since. -/
def lateCancel : List BlockLabel :=
  unitRun (sampleFrame 0 0) ++
    [.event .flush, .run (.flush .lookup) (), .run (.flush .check) (), .run (.flush .drain) ()] ++
    unitRun (sampleFrame 1 5) ++ unitRun (sampleFrame 2 9) ++
    [.run (.flush .testTimer) (), .run (.flush .deleteTimer) (), .run (.flush .cancelWork) ()]

theorem late_cancel_strands : ¬ ∀ c : Threads.Config Shared Task,
    Run.Reachable Shared.program.step Run.Free ⟨.init, []⟩ c → c.threads = [] →
      c.shared.ctrl.reordList ≠ [] →
      c.shared.ctrl.reordTimer = true ∨ c.shared.ctrl.reordTimerWork = true := by
  intro never
  have armed := never _ (.exec lateCancel .init rfl) rfl (by decide)
  exact absurd armed (by decide)

end Aic8800.Reorder
