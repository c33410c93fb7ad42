import Aic8800.Reorder.Delivery

/-! # Second copies of a frame

A sender counts its frames without wrapping, and the count of a frame is what
its number is the residue of. Runs below keep every count less than half a ring
away from the window start, counted the same way. A second copy of a pending
frame is discarded. A second copy of a frame that has left the window is late,
and the late branch passes it to `reord_single_frame_ind` unless it looks like RTP.
-/

namespace Aic8800.Reorder

open Lib Lib.Resequencer

/-- One enabled period of a block, with its window start counted on the line. -/
structure Period where
  log : Delivery
  start : Option Int
  deriving DecidableEq

namespace Period

def init : Period := ⟨Delivery.start, none⟩

/-- How far a 12-bit window start moves forward. -/
def moved (before after : Nat) : Int := ((after : Int) - before) % 4096

section

variable (amsdu : Skb → List Skb) (pos : RecvMsdu → Int)

/-- The first frame of a block fixes where the count of its window starts. -/
def startAfter (s : Period) (after : ReordCtrl) : BlockEvent → Option Int
  | .frame f =>
      match s.start with
      | none => some (pos f + moved f.seqNum after.indSn)
      | some w => some (w + moved s.log.ctrl.indSn after.indSn)
  | .timeout => s.start.map (· + moved s.log.ctrl.indSn after.indSn)

def step (s : Period) (e : BlockEvent) : Option Period :=
  (Delivery.step amsdu s.log e).map fun log => ⟨log, startAfter pos s log.ctrl e⟩

/-- A frame carries the residue of its count, which is near the window start. -/
def Near (s : Period) : BlockEvent → Prop
  | .frame f => At f (pos f) ∧ ∀ w ∈ s.start, -2048 < pos f - w ∧ pos f - w < 2048
  | .timeout => True

instance (s : Period) : (e : BlockEvent) → Decidable (Near pos s e)
  | .frame _ => inferInstanceAs (Decidable ((_ = _) ∧ _))
  | .timeout => inferInstanceAs (Decidable True)

end

theorem moved_eq {n m : Nat} {x y : Int} (before : (n : Int) = x % 4096)
    (after : (m : Int) = y % 4096) (low : x ≤ y) (high : y < x + 4096) : x + moved n m = y := by
  simp only [moved]
  omega

variable {amsdu : Skb → List Skb} {pos : RecvMsdu → Int}

/-- The positions of frames are their counts when both lie within a ring. -/
theorem positions {fs : List RecvMsdu} {ps : List Int} (all : AllAt fs ps)
    (own : ∀ f ∈ fs, At f (pos f))
    (close : ∀ f ∈ fs, ∀ p ∈ ps, -4096 < pos f - p ∧ pos f - p < 4096) : fs.map pos = ps := by
  induction all with
  | nil => rfl
  | @cons f p fs ps here _ ih =>
      have counted := own f (by simp)
      have near := close f (by simp) p (by simp)
      have same : pos f = p := by
        apply (Serial.mod_eq_iff_of_close (n := 4096) (by omega) (by omega)).mp
        exact counted.symm.trans here
      rw [List.map_cons, same, ih fun g member => own g (by simp [member])]
      intro g member q other
      exact close g (by simp [member]) q (by simp [other])

/-- A block that tracks a buffer of counts, and the counts it has indicated. -/
structure Counted (pos : RecvMsdu → Int) (c : ReordCtrl) (b : Buffer 64) (out : List RecvMsdu) :
    Prop where
  tracks : Tracks c b
  own : ∀ f ∈ c.reordList, At f (pos f)
  held : c.reordList.map pos = b.held
  past : History 2048 b (out.map pos)

namespace Counted

variable {c : ReordCtrl} {b : Buffer 64} {out : List RecvMsdu} {f : RecvMsdu}

/-- What leaves and what stays can be told apart by their counts. -/
theorem split {ind left : List RecvMsdu} {ps qs : List Int} (popped : AllAt ind ps)
    (kept : AllAt left qs) (own : ∀ g ∈ ind ++ left, At g (pos g) ∧ pos g ∈ ps ++ qs)
    (narrow : ∀ p ∈ ps ++ qs, ∀ q ∈ ps ++ qs, p - q < 4096) :
    ind.map pos = ps ∧ left.map pos = qs := by
  have whole : (ind ++ left).map pos = ps ++ qs := by
    apply positions (List.rel_append popped kept) (fun g member => (own g member).1)
    intro g member q inside
    have forth := narrow _ (own g member).2 q inside
    have back := narrow q inside _ (own g member).2
    omega
  rw [List.map_append] at whole
  exact List.append_inj whole (by rw [List.length_map, popped.length_eq])

theorem accept (h : Counted pos c b out) (here : At f (pos f)) (low : b.start ≤ pos f)
    (high : pos f < b.start + 2048) (new : pos f ∉ b.held) :
    Counted pos (reordProcessLocked c f).ctrl (b.accept (pos f) new)
      (out ++ (reordProcessLocked c f).ind) := by
  obtain ⟨tracks, ind, drop, -⟩ := h.tracks.accept here low high new
  obtain ⟨n, checked, -⟩ := h.tracks.needCheck_window here low high
  have whole : ((reordProcessLocked c f).ind ++ (reordProcessLocked c f).ctrl.reordList).Perm
      (f :: c.reordList) := by
    rcases processLocked_conserve (c := c) (f := f) (by rw [checked]) with ⟨-, all⟩ | ⟨full, -⟩
    · exact all
    · simp [drop] at full
  have placed := Buffer.accepted_append_held new
  have own : ∀ g ∈ f :: c.reordList, At g (pos g) ∧ pos g ∈ place (pos f) b.held := by
    intro g member
    rcases List.mem_cons.mp member with rfl | pending
    · exact ⟨here, by simp⟩
    · refine ⟨h.own g pending, mem_place.mpr (.inr ?_)⟩
      rw [← h.held]
      exact List.mem_map_of_mem pending
  have inside : ∀ p ∈ place (pos f) b.held, b.start ≤ p ∧ p < b.start + 2048 := by
    intro p member
    rcases mem_place.mp member with rfl | pending
    · exact ⟨low, high⟩
    · have := b.ahead p pending
      omega
  obtain ⟨gone, left⟩ := split ind tracks.held
    (fun g member => placed ▸ own g (whole.mem_iff.mp member)) (by
      rw [placed]
      intro p first q second
      have := inside p first
      have := inside q second
      omega)
  refine ⟨tracks, fun g member => ?_, left, ?_⟩
  · exact (own g (whole.mem_iff.mp (List.mem_append_right _ member))).1
  · rw [List.map_append, gone]
    exact h.past.accept new low high (by omega) (by omega)

theorem expire (h : Counted pos c b out) :
    Counted pos (reordTimeoutWorker c).ctrl b.expire (out ++ (reordTimeoutWorker c).ind) := by
  obtain ⟨tracks, ind, -⟩ := h.tracks.expire
  have whole := timeoutWorker_append c
  have placed := b.expired_append_held
  obtain ⟨gone, left⟩ := split ind tracks.held (fun g member => by
      rw [whole] at member
      rw [placed, ← h.held]
      exact ⟨h.own g member, List.mem_map_of_mem member⟩) (by
      rw [placed]
      intro p first q second
      have := b.ahead p first
      have := b.ahead q second
      omega)
  refine ⟨tracks, fun g member => ?_, left, ?_⟩
  · exact h.own g (whole ▸ List.mem_append_right _ member)
  · rw [List.map_append, gone]
    exact h.past.expire

end Counted

/-- A period has not begun, or its block tracks a buffer whose start it counts. -/
structure Followed (pos : RecvMsdu → Int) (s : Period) : Prop where
  enabled : s.log.ctrl.enable = true
  begun : (s.start = none ∧ Fresh s.log.ctrl ∧ s.log.indicated = [] ∧ s.log.late = []) ∨
    ∃ b, s.start = some b.start ∧ Counted pos s.log.ctrl b s.log.indicated ∧
      ∀ f ∈ s.log.late, pos f < b.start
  lateInd : s.log.lateInd = s.log.late.filter (!isRtp ·)

namespace Followed

variable {s t : Period} {c : ReordCtrl} {b : Buffer 64} {f : RecvMsdu}

theorem init : Followed pos init := ⟨rfl, .inl ⟨rfl, .init, rfl, rfl⟩, rfl⟩

theorem timeout (h : Followed pos s) (taken : step amsdu pos s .timeout = some t) :
    Followed pos t := by
  obtain ⟨log, logged, rfl⟩ := Option.map_eq_some_iff.mp taken
  obtain rfl := Option.some.inj logged
  refine ⟨(timeoutWorker_enable _).trans h.enabled, ?_, h.lateInd⟩
  rcases h.begun with ⟨unset, new, none, nobody⟩ | ⟨b, start, counted, late⟩
  · refine .inl ?_
    simp only [worker_idle new.empty, startAfter, unset, none, nobody, List.append_nil]
    exact ⟨rfl, new, trivial, trivial⟩
  · have after := counted.expire
    obtain ⟨low, high⟩ := b.expire_start (by omega)
    refine .inr ⟨b.expire, ?_, after, fun f member => lt_of_lt_of_le (late f member) low⟩
    simp only [startAfter, start, Option.map_some]
    rw [moved_eq counted.tracks.indSn after.tracks.indSn low (by omega)]

/-- A frame that is not late: pending already, or accepted. -/
theorem inTime {out : List RecvMsdu} (counted : Counted pos c b out) (here : At f (pos f))
    (low : b.start ≤ pos f) (high : pos f < b.start + 2048) :
    ∃ b', Counted pos (reordProcessLocked c f).ctrl b' (out ++ (reordProcessLocked c f).ind) ∧
      b.start ≤ b'.start ∧
      b.start + moved c.indSn (reordProcessLocked c f).ctrl.indSn = b'.start := by
  by_cases held : pos f ∈ b.held
  · rw [counted.tracks.duplicate here held]
    refine ⟨b, by simpa using counted, le_refl _, ?_⟩
    exact moved_eq counted.tracks.indSn counted.tracks.indSn (le_refl _) (by omega)
  · have after := counted.accept here low high held
    obtain ⟨onward, short⟩ := Buffer.accept_start held (by omega)
    refine ⟨_, after, onward, moved_eq counted.tracks.indSn after.tracks.indSn onward ?_⟩
    simp only [Buffer.target] at short
    omega

theorem frame (h : Followed pos s) (near : Near pos s (.frame f))
    (taken : step amsdu pos s (.frame f) = some t) : Followed pos t := by
  obtain ⟨log, logged, rfl⟩ := Option.map_eq_some_iff.mp taken
  obtain ⟨here, close⟩ := near
  have on := h.enabled
  have kept := (processLocked_enable s.log.ctrl f).trans on
  simp only [Delivery.step, Delivery.isLate, processCtrl_enabled on, reenable_enabled on] at logged
  rcases h.begun with ⟨unset, new, none, nobody⟩ | ⟨b, start, counted, late⟩
  · simp only [new.onTime f, Bool.false_eq_true, if_false] at logged
    obtain rfl := Option.some.inj logged
    have first : Counted pos { s.log.ctrl with indSn := f.seqNum } (Buffer.empty 64 (pos f))
        s.log.indicated :=
      ⟨new.tracks here, by simp [new.empty], by simp [new.empty, Buffer.empty],
        by simpa [none] using History.empty 64 2048 (pos f)⟩
    obtain ⟨b', after, -, start⟩ := inTime first here (le_refl _) (by simp [Buffer.empty])
    rw [← new.process f] at after start
    refine ⟨kept, .inr ⟨b', ?_, after, by simp [nobody]⟩, h.lateInd⟩
    simp only [startAfter, unset]
    exact congrArg some start
  · obtain ⟨back, forth⟩ := close b.start start
    by_cases behind : pos f < b.start
    · have pass := counted.tracks.late here (by omega) behind
      have same : (reordProcessLocked s.log.ctrl f).ctrl = s.log.ctrl := by
        rw [pass]
        split <;> rfl
      simp only [counted.tracks.needCheck_late here (by omega) behind, if_true] at logged
      obtain rfl := Option.some.inj logged
      refine ⟨kept, .inr ⟨b, ?_, ?_, ?_⟩, ?_⟩
      · simp only [startAfter, start, same]
        rw [moved_eq counted.tracks.indSn counted.tracks.indSn (le_refl _) (by omega)]
      · simp only [same]
        exact counted
      · intro g member
        rcases List.mem_append.mp member with old | last
        · exact late g old
        · obtain rfl := List.mem_singleton.mp last
          exact behind
      · simp only [h.lateInd, List.filter_append, pass]
        cases rtp : isRtp f with
        | true => simp [rtp]
        | false => simp [rtp]
    · obtain ⟨n, checked, -⟩ := counted.tracks.needCheck_window here (by omega) (by omega)
      simp only [checked, Bool.false_eq_true, if_false] at logged
      obtain rfl := Option.some.inj logged
      obtain ⟨b', after, onward, moves⟩ := inTime counted here (by omega) (by omega)
      refine ⟨kept, .inr ⟨b', ?_, after, fun g member => lt_of_lt_of_le (late g member) onward⟩,
        h.lateInd⟩
      simp only [startAfter, start]
      exact congrArg some moves

theorem step (h : Followed pos s) {e : BlockEvent} (near : Near pos s e)
    (taken : Period.step amsdu pos s e = some t) : Followed pos t := by
  cases e with
  | timeout => exact h.timeout taken
  | frame f => exact h.frame near taken

/-- Counts indicated in time are distinct. -/
theorem indicated_nodup (h : Followed pos s) : (s.log.indicated.map pos).Nodup := by
  rcases h.begun with ⟨-, -, none, -⟩ | ⟨b, -, counted, -⟩
  · simp [none]
  · exact (List.pairwise_append.mp counted.past.sorted).1.imp ne_of_lt

/-- A copy of a pending frame is discarded, and a copy of one that has left is late. -/
theorem copy (h : Followed pos s) (near : Near pos s (.frame f)) :
    (pos f ∈ s.log.ctrl.reordList.map pos →
        reordProcessCtrl s.log.ctrl f = ⟨s.log.ctrl, [], [f]⟩) ∧
      (pos f ∈ (s.log.indicated ++ s.log.late).map pos → reordProcessCtrl s.log.ctrl f =
        if isRtp f then ⟨s.log.ctrl, [], [f]⟩ else ⟨s.log.ctrl, [f], []⟩) := by
  obtain ⟨here, close⟩ := near
  rw [processCtrl_enabled h.enabled]
  rcases h.begun with ⟨-, new, none, nobody⟩ | ⟨b, start, counted, late⟩
  · simp [new.empty, none, nobody]
  obtain ⟨back, forth⟩ := close b.start start
  constructor
  · intro pending
    exact counted.tracks.duplicate here (counted.held ▸ pending)
  · intro gone
    apply counted.tracks.late here (by omega)
    rw [List.map_append] at gone
    rcases List.mem_append.mp gone with released | passed
    · exact counted.past.behind _ released
    · obtain ⟨g, member, same⟩ := List.mem_map.mp passed
      exact same ▸ late g member

end Followed

/-- What a period promises about copies: frames in time are indicated once for
    each count, a copy of a pending frame is discarded, and a copy of a frame that
    has left the window is indicated again exactly when it does not look like RTP. -/
structure Deduplicated (pos : RecvMsdu → Int) (s : Period) : Prop where
  inTime : (s.log.indicated.map pos).Nodup
  lateInd : s.log.lateInd = s.log.late.filter (!isRtp ·)
  allRtp : (∀ f ∈ s.log.late, isRtp f = true) → ((s.log.indicated ++ s.log.lateInd).map pos).Nodup
  pending : ∀ f, Near pos s (.frame f) → pos f ∈ s.log.ctrl.reordList.map pos →
    reordProcessCtrl s.log.ctrl f = ⟨s.log.ctrl, [], [f]⟩
  passed : ∀ f, Near pos s (.frame f) → pos f ∈ (s.log.indicated ++ s.log.late).map pos →
    reordProcessCtrl s.log.ctrl f =
      if isRtp f then ⟨s.log.ctrl, [], [f]⟩ else ⟨s.log.ctrl, [f], []⟩

theorem no_second_copy_in_time {s : Period}
    (run : Run.Reachable (step amsdu pos) (Near pos) Period.init s) : Deduplicated pos s := by
  have followed : Followed pos s :=
    run.invariant _ .init fun s e t good near taken => good.step near taken
  refine ⟨followed.indicated_nodup, followed.lateInd, fun rtp => ?_,
    fun f near => (followed.copy near).1, fun f near => (followed.copy near).2⟩
  have none : s.log.lateInd = [] := by
    rw [followed.lateInd, List.filter_eq_nil_iff]
    intro f member
    simp [rtp f member]
  rw [none, List.append_nil]
  exact followed.indicated_nodup

/-- A gap that a timeout skips, and copies of a pending and of a released frame. -/
def copiesRun : List BlockEvent :=
  [.frame (sampleFrame 0 4095), .frame (sampleFrame 1 1), .frame (sampleFrame 2 1), .timeout,
    .frame (sampleFrame 3 1)]

/-- The count of a frame in a run that starts at 4095 and wraps. -/
def wrapped (f : RecvMsdu) : Int := if f.seqNum.val = 4095 then 4095 else f.seqNum.val + 4096

theorem no_second_copy_in_time_wrap : ∃ s,
    Run.exec (step (fun _ => []) wrapped) Period.init copiesRun = some s ∧
      (s.log.indicated ++ s.log.lateInd).map wrapped = [4095, 4097, 4097] ∧
      Deduplicated wrapped s :=
  ⟨_, rfl, rfl, @no_second_copy_in_time (fun _ => []) _ _
    (.exec_guarded (fun _ _ ok => of_decide_eq_true ok) copiesRun .init rfl (by decide))⟩

/-- Two copies of one frame, both of them plain. -/
def plainCopies : List BlockEvent := [.frame (sampleFrame 0 0), .frame (sampleFrame 1 0)]

theorem second_copy_handed_up : ¬ ∀ (amsdu : Skb → List Skb) (pos : RecvMsdu → Int) (s : Period),
    Run.Reachable (step amsdu pos) (Near pos) Period.init s →
      ((s.log.indicated ++ s.log.lateInd).map pos).Nodup := by
  intro never
  have twice := never (fun _ => []) (fun f => f.seqNum.val) _
    (.exec_guarded (fun s e ok => of_decide_eq_true ok) plainCopies .init rfl (by decide))
  exact absurd twice (by decide)

end Period

end Aic8800.Reorder
