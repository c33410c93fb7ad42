import Aic8800.Reorder.Refinement
import Aic8800.Reorder.Stations

/-! # The receive window

Every block of the station table is fresh or tracks a resequencing buffer, after
any run of frames, timeouts and flushes. What the ring-level window promises is
read off the buffer.
-/

namespace Aic8800.Reorder

open Lib Lib.Resequencer

/-- The pending numbers increase around the ring, differ, and lie in the 63
    numbers after `ind_sn`. -/
structure WindowInv (c : ReordCtrl) : Prop where
  increasing : (c.reordList.map (·.seqNum.val)).Pairwise fun a b => snLess a b = true
  distinct : (c.reordList.map (·.seqNum.val)).Nodup
  inside : ∀ f ∈ c.reordList,
    1 ≤ ((f.seqNum.val : Int) - c.indSn) % 4096 ∧ ((f.seqNum.val : Int) - c.indSn) % 4096 ≤ 63
  few : c.reordList.length ≤ 63
  notNext : ∀ f ∈ c.reordList, f.seqNum.val ≠ c.indSn

/-- A block is fresh or tracks some buffer, and holds nothing while disabled. -/
structure Windowed (c : ReordCtrl) : Prop where
  block : Fresh c ∨ ∃ b, Tracks c b
  disabled : c.enable = false → c.reordList = []

theorem AllAt.numbers {fs : List RecvMsdu} {ps : List Int} (all : AllAt fs ps) :
    fs.map (·.seqNum.val) = ps.map fun p => (p % 4096).toNat := by
  induction all with
  | nil => rfl
  | cons here _ ih =>
      simp only [At] at here
      rw [List.map_cons, List.map_cons, ih, ← here, Int.toNat_natCast]

theorem AllAt.mem {fs : List RecvMsdu} {ps : List Int} {f : RecvMsdu} (all : AllAt fs ps)
    (member : f ∈ fs) : ∃ p ∈ ps, At f p := by
  induction all with
  | nil => cases member
  | @cons g q fs ps here _ ih =>
      rcases List.mem_cons.mp member with rfl | later
      · exact ⟨q, by simp, here⟩
      · obtain ⟨p, inside, there⟩ := ih later
        exact ⟨p, List.mem_cons_of_mem _ inside, there⟩

theorem Tracks.window {c : ReordCtrl} {b : Buffer 64} (t : Tracks c b) : WindowInv c := by
  have close : ∀ {p q : Int}, p ∈ b.held → q ∈ b.held → p < q → q - p < 64 := by
    intro p q low high _
    have first := b.ahead p low
    have last := b.ahead q high
    omega
  constructor
  · rw [t.held.numbers, List.pairwise_map]
    refine b.sorted.imp_of_mem fun {p q} low high before => ?_
    have near := close low high before
    rw [snLess_of_close (p := p) (q := q) (by omega) (by omega) (by omega) (by omega)]
    simpa using before
  · rw [t.held.numbers, List.Nodup, List.pairwise_map]
    refine b.sorted.imp_of_mem fun {p q} low high before => ?_
    have near := close low high before
    omega
  · intro f member
    obtain ⟨p, inside, here⟩ := t.held.mem member
    have between := b.ahead p inside
    have start := t.indSn
    simp only [At] at here
    omega
  · have count := b.length_lt (by omega)
    rw [← t.held.length_eq] at count
    omega
  · intro f member
    obtain ⟨p, inside, here⟩ := t.held.mem member
    have between := b.ahead p inside
    have start := t.indSn
    simp only [At] at here
    omega

theorem Fresh.window {c : ReordCtrl} (new : Fresh c) : WindowInv c := by
  have none := new.empty
  constructor <;> simp [none]

/-- The position a number stands for, seen from the start of a window. -/
theorem Tracks.located {c : ReordCtrl} {b : Buffer 64} (_ : Tracks c b) (f : RecvMsdu) :
    ∃ p, At f p ∧ b.start - 2048 ≤ p ∧ p < b.start + 2048 := by
  have range := Serial.locate_range (by omega : (0 : Int) < 4096) b.start f.seqNum.val
  have number := Serial.locate_mod 4096 b.start f.seqNum.val
  refine ⟨_, ?_, range⟩
  have bound := f.seqNum.isLt
  simp only [At]
  omega

/-- A frame that is classified late is behind the start. -/
theorem Tracks.behind {c : ReordCtrl} {b : Buffer 64} {f : RecvMsdu} (t : Tracks c b)
    (late : (reordNeedCheck c f.seqNum).2 = true) :
    ∃ p, At f p ∧ b.start - 2048 ≤ p ∧ p < b.start := by
  obtain ⟨p, here, low, high⟩ := t.located f
  refine ⟨p, here, low, ?_⟩
  by_contra ahead
  obtain ⟨n, checked, -⟩ := t.needCheck_window here (by omega) high
  simp [checked] at late

theorem Fresh.onTime {c : ReordCtrl} (new : Fresh c) (f : RecvMsdu) :
    (reordNeedCheck c f.seqNum).2 = false := by
  have here : At f f.seqNum.val := by
    simp only [At]
    omega
  obtain ⟨n, checked, -⟩ := (new.tracks here).needCheck_window here (le_refl _)
    (by simp [Buffer.empty])
  rw [new.needCheck f, checked]

/-- A frame that arrives at an enabled block leaves it tracking a buffer. -/
theorem Tracks.process {c : ReordCtrl} {b : Buffer 64} (t : Tracks c b) (f : RecvMsdu) :
    ∃ b', Tracks (reordProcessLocked c f).ctrl b' := by
  obtain ⟨p, here, low, high⟩ := t.located f
  by_cases behind : p < b.start
  · refine ⟨b, ?_⟩
    rw [t.late here low behind]
    split <;> exact t
  by_cases held : p ∈ b.held
  · rw [t.duplicate here held]
    exact ⟨b, t⟩
  · exact ⟨_, (t.accept here (by omega) high held).1⟩

namespace Windowed

variable {c : ReordCtrl}

theorem init : Windowed reordInitCtrl := ⟨.inl .init, fun _ => rfl⟩

theorem window (w : Windowed c) : WindowInv c := by
  rcases w.block with new | ⟨b, t⟩
  · exact new.window
  · exact t.window

theorem reenable (w : Windowed c) :
    Windowed (reordReenable c) ∧ (reordReenable c).enable = true := by
  unfold reordReenable
  split
  · exact ⟨w, ‹_›⟩
  · have none := w.disabled (by simp_all)
    exact ⟨⟨.inl ⟨rfl, rfl, none⟩, fun _ => none⟩, rfl⟩

theorem processLocked (w : Windowed c) (on : c.enable = true) (f : RecvMsdu) :
    Windowed (reordProcessLocked c f).ctrl := by
  refine ⟨.inr ?_, fun off => ?_⟩
  · rcases w.block with new | ⟨b, t⟩
    · obtain ⟨b, t⟩ := (new.tracks (f := f) (p := f.seqNum.val) (by simp only [At]; omega)).process f
      rw [new.process f]
      exact ⟨b, t⟩
    · exact t.process f
  · rw [processLocked_enable, on] at off
    cases off

/-- A frame leaves the timer running over pending frames, or leaves the timer,
    the work item and the list alone. -/
theorem processLocked_armed (w : Windowed c) (f : RecvMsdu) :
    ((reordProcessLocked c f).ctrl.reordList ≠ [] →
        (reordProcessLocked c f).ctrl.reordTimer = true) ∨
      ((reordProcessLocked c f).ctrl.reordTimer = c.reordTimer ∧
        (reordProcessLocked c f).ctrl.reordTimerWork = c.reordTimerWork ∧
        (reordProcessLocked c f).ctrl.reordList = c.reordList) := by
  have tracked : ∀ {c b}, Tracks c b → ((reordProcessLocked c f).ctrl.reordList ≠ [] →
        (reordProcessLocked c f).ctrl.reordTimer = true) ∨
      (reordProcessLocked c f).ctrl = c := by
    intro c b t
    obtain ⟨p, here, low, high⟩ := t.located f
    by_cases behind : p < b.start
    · rw [t.late here low behind]
      split <;> exact .inr rfl
    by_cases held : p ∈ b.held
    · rw [t.duplicate here held]
      exact .inr rfl
    · exact .inl (t.accept here (by omega) high held).2.2.2.mpr
  rcases w.block with new | ⟨b, t⟩
  · have here : At f f.seqNum.val := by
      simp only [At]
      omega
    rw [new.process f]
    rcases tracked (new.tracks here) with armed | same
    · exact .inl armed
    · rw [same]
      exact .inr ⟨rfl, rfl, rfl⟩
  · rcases tracked t with armed | same
    · exact .inl armed
    · rw [same]
      exact .inr ⟨rfl, rfl, rfl⟩

theorem worker_armed (w : Windowed c) (left : (reordTimeoutWorker c).ctrl.reordList ≠ []) :
    (reordTimeoutWorker c).ctrl.reordTimer = true := by
  rcases w.block with new | ⟨b, t⟩
  · rw [worker_idle new.empty] at left
    exact absurd new.empty left
  · exact t.expire.2.2.2 left

theorem process (w : Windowed c) (f : RecvMsdu) : Windowed (reordProcessCtrl c f).ctrl := by
  obtain ⟨again, on⟩ := w.reenable
  simp only [reordProcessCtrl, on, if_true]
  exact again.processLocked on f

theorem worker (w : Windowed c) : Windowed (reordTimeoutWorker c).ctrl := by
  constructor
  · rcases w.block with new | ⟨b, t⟩
    · rw [worker_idle new.empty]
      exact .inl new
    · exact .inr ⟨_, t.expire.1⟩
  · intro off
    rw [timeoutWorker_enable] at off
    have idle := worker_idle (w.disabled off)
    rw [idle]
    exact w.disabled off

theorem timers (w : Windowed c) (timer work : Bool) :
    Windowed { c with reordTimer := timer, reordTimerWork := work } := by
  refine ⟨?_, w.disabled⟩
  rcases w.block with new | ⟨b, t⟩
  · exact .inl ⟨new.indSn, new.wsizeB, new.empty⟩
  · exact .inr ⟨b, t.indSn, t.wsizeB, t.held⟩

theorem flushLocked (w : Windowed c) : Windowed (reordFlushLocked c).ctrl := by
  refine ⟨?_, fun _ => rfl⟩
  rcases w.block with new | ⟨b, t⟩
  · exact .inl ⟨new.indSn, new.wsizeB, rfl⟩
  · exact .inr ⟨Buffer.empty 64 b.start, t.indSn, t.wsizeB, .nil⟩

theorem flush (w : Windowed c) : Windowed (reordFlushCtrl c).ctrl := by
  unfold reordFlushCtrl
  split
  · exact w.flushLocked.timers false false
  · exact w

end Windowed

/-- Every block of every station keeps the window, whatever arrives. -/
theorem reorder_window {rx : RxPriv} (run : Run.Reachable rxStep Run.Free ⟨[]⟩ rx) :
    ∀ info ∈ rx.stasReordList, ∀ tid, WindowInv (info.preorderCtrl tid) := by
  have all : AllCtrl Windowed rx.stasReordList := by
    apply run.invariant fun rx => AllCtrl Windowed rx.stasReordList
    · intro info member
      cases member
    · intro rx event rx' good _ taken
      exact good.step .init (fun c f w => w.process f) (fun c w => w.worker) (fun c w => w.flush)
        taken
  intro info member tid
  exact (all info member tid).window

/-- Three frames with a gap, the timeout that gives up on it, and a new gap. -/
def gapRun : List RxEvent :=
  [.unit (sampleUnit 4095), .unit (sampleUnit 2), .unit (sampleUnit 1), .timeout sampleMac sampleTid,
    .unit (sampleUnit 5)]

theorem reorder_window_gap : ∃ rx, Run.exec rxStep ⟨[]⟩ gapRun = some rx ∧
    rx.stasReordList.map (fun info => (info.preorderCtrl sampleTid).reordList.map (·.seqNum.val)) =
      [[5]] ∧
    ∀ info ∈ rx.stasReordList, ∀ tid, WindowInv (info.preorderCtrl tid) :=
  ⟨_, rfl, rfl, reorder_window (.exec gapRun .init rfl)⟩

end Aic8800.Reorder
