import Aic8800.Cmd.Callers

/-! # Who holds a slot

A slot that a thread will still use is held by no other thread and is marked
used; a thread that has not queued its command yet, or has unlinked it, holds a
slot that is not on the list. This is kept as long as `rwnx_cmd_malloc` hands out
no slot that is still linked.
-/

namespace Aic8800.Cmd

open Lib

namespace Point

/-- Points whose slot is not on the list. -/
def detached : Point → Bool
  | fill _ _ | direct _ _ | queue _ _ | forceDefer _ _ | completedFree _ _ | taskFree _ => true
  | _ => false

/-- The one point whose command still has `WAIT_PUSH`. -/
def isTaskPush : Point → Bool
  | taskPush _ => true
  | _ => false

end Point

/-- Flags that no call sets, and no push left over in an unused slot. -/
structure Sane (c : RwnxCmd) : Prop where
  nonblock : c.flags.nonblock = false
  waitAck : c.flags.waitAck = false
  unused : c.used = false → c.flags.waitPush = false

structure Owns (s : CmdMgr) (t : Point) : Prop where
  used : ∀ i ∈ t.slot, (s.array i).used = true
  plain : ∀ i ∈ t.slot, t.isTaskPush = false → (s.array i).flags.waitPush = false
  detached : ∀ i ∈ t.slot, t.detached = true → i ∉ s.cmds

structure Owned (s : CmdMgr) (threads : List Point) : Prop where
  nodup : s.cmds.Nodup
  apart : (threads.filterMap Point.slot).Nodup
  oneTask : threads.countP Point.isTask ≤ 1
  sane : ∀ i, Sane (s.array i)

def ownership : Threads.Proof CmdMgr Point := ⟨Owned, Owns⟩

theorem Owns.idle {s : CmdMgr} {t : Point} (h : t.slot = none) : Owns s t := by
  constructor <;> simp [h]

theorem Owns.held {s : CmdMgr} {t : Point} {i : Slot} (held : t.slot = some i)
    (used : (s.array i).used = true)
    (plain : t.isTaskPush = false → (s.array i).flags.waitPush = false)
    (detached : t.detached = true → i ∉ s.cmds) : Owns s t := by
  constructor
  · intro j other
    rwa [← Option.some.inj (held.symm.trans other)]
  · intro j other
    rwa [← Option.some.inj (held.symm.trans other)]
  · intro j other
    rwa [← Option.some.inj (held.symm.trans other)]

theorem Owns.frame {s s' : CmdMgr} {i : Slot} {t : Point} (h : Owns s t) (l : CmdMgr.Local i s s')
    (apart : t.slot ≠ some i) : Owns s' t := by
  have other : ∀ j ∈ t.slot, j ≠ i := fun j held same => apart (same ▸ held)
  constructor
  · intro j held
    rw [l.array j (other j held)]
    exact h.used j held
  · intro j held
    rw [l.array j (other j held)]
    exact h.plain j held
  · intro j held detached member
    exact h.detached j held detached (l.cmds j (other j held) member)

/-- Steps that touch neither `used` nor `WAIT_PUSH`. -/
theorem Owns.soft {s s' : CmdMgr} {t : Point} (h : Owns s t)
    (used : ∀ i, (s'.array i).used = (s.array i).used)
    (waitPush : ∀ i, (s'.array i).flags.waitPush = (s.array i).flags.waitPush)
    (cmds : ∀ i ∈ s'.cmds, i ∈ s.cmds) : Owns s' t := by
  constructor
  · intro i held
    rw [used]
    exact h.used i held
  · intro i held
    rw [waitPush]
    exact h.plain i held
  · exact fun i held detached member => h.detached i held detached (cmds i member)

namespace Owned

variable {s s' : CmdMgr} {t : Point} {others : List Point}

theorem held_apart (h : Owned s (t :: others)) {i : Slot} (held : t.slot = some i) :
    ∀ u ∈ others, u.slot ≠ some i := by
  intro u member same
  have apart := h.apart
  rw [List.filterMap_cons_some held, List.nodup_cons] at apart
  exact apart.1 (List.mem_filterMap.mpr ⟨u, member, same⟩)

theorem rest_apart (h : Owned s (t :: others)) : (others.filterMap Point.slot).Nodup := by
  have apart := h.apart
  cases held : t.slot with
  | none => rwa [List.filterMap_cons_none held] at apart
  | some i =>
      rw [List.filterMap_cons_some held] at apart
      exact (List.nodup_cons.mp apart).2

/-- A thread may keep its slot, drop it, or take one that nobody holds. -/
theorem moved_apart (h : Owned s (t :: others)) {next : Option Point}
    (free : ∀ u ∈ next, ∀ i ∈ u.slot, ∀ v ∈ others, v.slot ≠ some i) :
    ((next.toList ++ others).filterMap Point.slot).Nodup := by
  have rest := h.rest_apart
  cases next with
  | none => exact rest
  | some u =>
      simp only [Option.toList_some, List.cons_append, List.nil_append]
      cases held : u.slot with
      | none => rwa [List.filterMap_cons_none held]
      | some i =>
          rw [List.filterMap_cons_some held, List.nodup_cons]
          refine ⟨fun member => ?_, rest⟩
          obtain ⟨v, other, same⟩ := List.mem_filterMap.mp member
          exact free u rfl i held v other same

theorem moved_oneTask (h : Owned s (t :: others)) {next : Option Point}
    (task : ∀ u ∈ next, u.isTask = true → t.isTask = true) :
    (next.toList ++ others).countP Point.isTask ≤ 1 := by
  have one := h.oneTask
  rw [List.countP_cons] at one
  cases next with
  | none =>
      simp only [Option.toList_none, List.nil_append]
      omega
  | some u =>
      have same := task u rfl
      simp only [Option.toList_some, List.cons_append, List.nil_append, List.countP_cons]
      cases isTask : u.isTask with
      | false =>
          simp only [Bool.false_eq_true, if_false]
          omega
      | true =>
          rw [same isTask] at one
          exact one

/-- An action on the slot that the thread holds. -/
theorem keeps_slot (h : ownership.Holds s (t :: others)) {next : Option Point} {i : Slot}
    (held : t.slot = some i) (l : CmdMgr.Local i s s') (nodup : s'.cmds.Nodup)
    (sane : Sane (s'.array i)) (slot : ∀ u ∈ next, u.slot = some i ∨ u.slot = none)
    (task : ∀ u ∈ next, u.isTask = true → t.isTask = true) (owns : ∀ u ∈ next, Owns s' u) :
    ownership.Keeps others (s', next) := by
  obtain ⟨owned, points⟩ := h
  have apart := owned.held_apart held
  refine ⟨⟨nodup, owned.moved_apart ?_, owned.moved_oneTask task, fun j => ?_⟩, owns, ?_⟩
  · intro u new j own v other
    rcases slot u new with same | none
    · rw [show j = i from Option.some.inj (own.symm.trans same)]
      exact apart v other
    · cases none.symm.trans own
  · by_cases here : j = i
    · exact here ▸ sane
    · rw [l.array j here]
      exact owned.sane j
  · exact fun u other => (points u (by simp [other])).frame l (apart u other)

/-- An action that touches no slot and takes none. -/
theorem keeps_same (h : ownership.Holds s (t :: others)) {next : Option Point}
    (array : s'.array = s.array) (cmds : s'.cmds = s.cmds)
    (slot : ∀ u ∈ next, u.slot = t.slot ∨ u.slot = none)
    (task : ∀ u ∈ next, u.isTask = true → t.isTask = true) (owns : ∀ u ∈ next, Owns s u) :
    ownership.Keeps others (s', next) := by
  obtain ⟨owned, points⟩ := h
  have soft : ∀ u, Owns s u → Owns s' u := fun u own =>
    own.soft (fun j => by rw [array]) (fun j => by rw [array]) (fun j => by rw [cmds]; exact id)
  refine ⟨⟨cmds ▸ owned.nodup, owned.moved_apart ?_, owned.moved_oneTask task, fun j => ?_⟩,
    fun u new => soft u (owns u new), fun u other => soft u (points u (by simp [other]))⟩
  · intro u new j own v other
    rcases slot u new with same | none
    · exact owned.held_apart (same ▸ own) v other
    · cases none.symm.trans own
  · rw [array]
    exact owned.sane j

end Owned

/-- A change that keeps the mark and the flags that matter here. -/
theorem Sane.congr {c d : RwnxCmd} (h : Sane c) (nonblock : d.flags.nonblock = c.flags.nonblock)
    (ack : d.flags.waitAck = false) (push : d.flags.waitPush = c.flags.waitPush)
    (used : d.used = c.used) : Sane d :=
  ⟨nonblock.trans h.nonblock, ack, fun unused => push.trans (h.unused (used ▸ unused))⟩

/-- An action that keeps the mark and the push flag of the slot, and the list. -/
theorem Owned.keeps_calm {s s' : CmdMgr} {t : Point} {others : List Point} {next : Option Point}
    {i : Slot} (h : ownership.Holds s (t :: others)) (held : t.slot = some i)
    (notPush : t.isTaskPush = false) (l : CmdMgr.Local i s s') (cmds : s'.cmds = s.cmds)
    (nonblock : (s'.array i).flags.nonblock = (s.array i).flags.nonblock)
    (ack : (s'.array i).flags.waitAck = false)
    (push : (s'.array i).flags.waitPush = (s.array i).flags.waitPush)
    (used : (s'.array i).used = (s.array i).used)
    (moved : ∀ u ∈ next, (u.slot = some i ∨ u.slot = none) ∧
      (u.isTask = true → t.isTask = true) ∧ (u.detached = true → t.detached = true)) :
    ownership.Keeps others (s', next) := by
  have owned : Owned s (t :: others) := h.1
  have own : Owns s t := h.2 t (by simp)
  refine keeps_slot h held l (cmds ▸ owned.nodup) ((owned.sane i).congr nonblock ack push used)
    (fun u new => (moved u new).1) (fun u new => (moved u new).2.1) fun u new => ?_
  rcases (moved u new).1 with same | none
  · refine .held same (used.trans (own.used i held)) (fun _ => push.trans (own.plain i held notPush))
      fun detached => ?_
    rw [cmds]
    exact own.detached i held ((moved u new).2.2 detached)
  · exact .idle none

/-- A slot that is unlinked is not on the list any more. -/
theorem unlinkCmd_notMem {s : CmdMgr} {i : Slot} (nodup : s.cmds.Nodup) :
    i ∉ (s.unlinkCmd i).cmds := by
  unfold CmdMgr.unlinkCmd
  split
  · exact nodup.not_mem_erase
  · assumption

theorem unlinkCmd_nodup {s : CmdMgr} {i : Slot} (nodup : s.cmds.Nodup) :
    (s.unlinkCmd i).cmds.Nodup := by
  unfold CmdMgr.unlinkCmd
  split
  · exact nodup.erase i
  · exact nodup

/-- A slot that is linked stays sane, and is on the list once. -/
theorem linkCmd_sane {s : CmdMgr} {threads : List Point} {i : Slot} (owned : Owned s threads)
    (new : i ∉ s.cmds) (used : (s.array i).used = true) (deferred : Bool) :
    (s.linkCmd i deferred).cmds.Nodup ∧ Sane ((s.linkCmd i deferred).array i) := by
  have linked := s.linkCmd_of_notMem new deferred
  rw [linked.1, linked.2, Function.update_self]
  refine ⟨owned.nodup.append (List.nodup_singleton i) (by simpa using new), ?_⟩
  exact ⟨(owned.sane i).nonblock, (owned.sane i).waitAck, by simp [used]⟩

/-- A slot that is given back is not marked to be pushed. -/
theorem Owned.keeps_free {s : CmdMgr} {t : Point} {others : List Point} {next : Option Point}
    {i : Slot} (h : ownership.Holds s (t :: others)) (held : t.slot = some i)
    (notPush : t.isTaskPush = false) (slot : ∀ u ∈ next, u.slot = none)
    (task : ∀ u ∈ next, u.isTask = true → t.isTask = true) :
    ownership.Keeps others (s.rwnxCmdFree i, next) := by
  have owned : Owned s (t :: others) := h.1
  have own : Owns s t := h.2 t (by simp)
  refine keeps_slot h held (s.modify_local i _) owned.nodup ?_ (fun u new => .inr (slot u new)) task
    fun u new => .idle (slot u new)
  simp only [CmdMgr.rwnxCmdFree, CmdMgr.modify_self]
  exact ⟨(owned.sane i).nonblock, (owned.sane i).waitAck, fun _ => own.plain i held notPush⟩

theorem nextPush_spec {s : CmdMgr} {i : Slot} (found : s.nextPush = some i) :
    s.cmds.head? = some i ∧ (s.array i).flags.waitPush = true := by
  obtain ⟨first, waits⟩ := Option.filter_eq_some_iff.mp found
  exact ⟨first, waits⟩

section

variable {s s' : CmdMgr} {others : List Point} {t : Point} {choice : WaitEnd} {next : Option Point}

/-- Nobody has the slot that is given out. -/
theorem ownership_malloc {call : Call} {i : Slot} (h : ownership.Holds s (.malloc call :: others))
    (found : s.freeSlot = some i) (unlinked : i ∉ s.cmds) :
    ownership.Keeps others (s.modify i fun c => { c with used := true }, some (.fill call i)) := by
  have owned : Owned s (.malloc call :: others) := h.1
  have unused := CmdMgr.freeSlot_unused found
  have fresh := (owned.sane i).unused unused
  have nobody : ∀ u ∈ others, u.slot ≠ some i := by
    intro u other held
    have used := (h.2 u (by simp [other])).used i held
    simp [unused] at used
  refine ⟨⟨owned.nodup, owned.moved_apart ?_, owned.moved_oneTask (by simp [Point.isTask]),
    fun j => ?_⟩, ?_, ?_⟩
  · rintro u ⟨⟩ j ⟨⟩
    exact nobody
  · by_cases here : j = i
    · subst here
      have sane := owned.sane j
      simp only [CmdMgr.modify_self]
      exact ⟨sane.nonblock, sane.waitAck, by simp⟩
    · rw [s.modify_other i _ here]
      exact owned.sane j
  · rintro u ⟨⟩
    exact .held rfl (by simp) (fun _ => by simpa using fresh) fun _ => unlinked
  · intro u other
    exact (h.2 u (by simp [other])).frame (s.modify_local i fun c => { c with used := true })
      (nobody u other)

/-- The worker is the only one to push, and nobody else has the slot. -/
theorem ownership_taskTake {i : Slot} (h : ownership.Holds s (.taskPick :: others))
    (found : s.nextPush = some i) : ownership.Keeps others (s, some (.taskPush i)) := by
  have owned : Owned s (.taskPick :: others) := h.1
  obtain ⟨first, waits⟩ := nextPush_spec found
  have alone : ∀ u ∈ others, u.isTask = false := by
    have one := owned.oneTask
    simp only [List.countP_cons, Point.isTask, if_true] at one
    simpa using List.countP_eq_zero.mp (by omega : others.countP Point.isTask = 0)
  have nobody : ∀ u ∈ others, u.slot ≠ some i := by
    intro u other held
    have pushing : u.isTaskPush = false := by
      have notTask := alone u other
      cases u <;> first | rfl | cases notTask
    have plain := (h.2 u (by simp [other])).plain i held pushing
    simp [waits] at plain
  refine ⟨⟨owned.nodup, owned.moved_apart ?_, owned.moved_oneTask (by simp [Point.isTask]),
    owned.sane⟩, ?_, fun u other => h.2 u (by simp [other])⟩
  · rintro u ⟨⟩ j ⟨⟩
    exact nobody
  · rintro u ⟨⟩
    refine .held rfl ?_ (by simp [Point.isTaskPush]) (by simp [Point.detached])
    by_contra unused
    have none := (owned.sane i).unused (by simpa using unused)
    simp [waits] at none

theorem ownership_keeps (h : ownership.Holds s (t :: others)) (acts : CmdMgr.Acts s t choice s' next)
    (unlinked : ∀ call, t = .malloc call → ∀ i, s.freeSlot = some i → i ∉ s.cmds) :
    ownership.Keeps others (s', next) := by
  have owned : Owned s (t :: others) := h.1
  have own : Owns s t := h.2 t (by simp)
  cases acts with
  | enter up =>
      exact Owned.keeps_same h rfl rfl (by simp [Point.slot]) (by simp [Point.isTask])
        (fun u new => by cases new; exact .idle rfl)
  | enterDown down => exact Owned.keeps_same h rfl rfl (by simp) (by simp) (by simp)
  | @malloc call choice i found =>
      exact ownership_malloc h found (unlinked call rfl i found)
  | mallocNull full => exact Owned.keeps_same h rfl rfl (by simp) (by simp) (by simp)
  | fillDirect wants =>
      exact Owned.keeps_calm h rfl rfl (s.modify_local _ _) rfl (by simp [CmdMgr.fillCmd])
        (by simp [CmdMgr.fillCmd, (owned.sane _).waitAck]) (by simp [CmdMgr.fillCmd])
        (by simp [CmdMgr.fillCmd]) (by simp [Point.slot, Point.isTask, Point.detached])
  | fillQueue wants entry =>
      exact Owned.keeps_calm h rfl rfl (s.modify_local _ _) rfl (by simp [CmdMgr.fillCmd])
        (by simp [CmdMgr.fillCmd, (owned.sane _).waitAck]) (by simp [CmdMgr.fillCmd])
        (by simp [CmdMgr.fillCmd]) (by simp [Point.slot, Point.isTask, Point.detached])
  | fillDefer wants entry =>
      exact Owned.keeps_calm h rfl rfl (s.modify_local _ _) rfl (by simp [CmdMgr.fillCmd])
        (by simp [CmdMgr.fillCmd, (owned.sane _).waitAck]) (by simp [CmdMgr.fillCmd])
        (by simp [CmdMgr.fillCmd]) (by simp [Point.slot, Point.isTask, Point.detached])
  | direct =>
      exact Owned.keeps_calm h rfl rfl (.refl _ s) rfl rfl (owned.sane _).waitAck rfl rfl
        (by simp [Point.slot, Point.isTask, Point.detached])
  | directSend entry =>
      exact Owned.keeps_same h (s.aicwfSetCmdTx_array _) (s.aicwfSetCmdTx_cmds _)
        (by simp [Point.slot]) (by simp [Point.isTask])
        (fun u new => by
          cases new
          exact .held rfl (own.used _ rfl) (fun _ => own.plain _ rfl rfl) (by simp [Point.detached]))
  | queueReject rejected =>
      exact Owned.keeps_calm h rfl rfl (s.modify_local _ _) rfl (by simp)
        (by simp [(owned.sane _).waitAck]) (by simp) (by simp)
        (by simp [Point.slot, Point.isTask, Point.detached])
  | forceReject rejected =>
      exact Owned.keeps_calm h rfl rfl (s.modify_local _ _) rfl (by simp)
        (by simp [(owned.sane _).waitAck]) (by simp) (by simp)
        (by simp [Point.slot, Point.isTask, Point.detached])
  | @queueDefer call i choice unpolled free defers =>
      obtain ⟨nodup, sane⟩ := linkCmd_sane owned (own.detached i rfl rfl) (own.used i rfl) true
      refine Owned.keeps_slot h rfl ((s.linkCmd_local i true).trans (CmdMgr.report_local _ i 0 _)) ?_ ?_
        (by simp [Point.slot]) (by simp [Point.isTask])
        (fun u new => by cases new; exact .idle rfl)
      · rw [CmdMgr.report_cmds]
        exact nodup
      · rw [CmdMgr.report_array]
        exact sane
  | @queuePush call i choice unpolled free pushes =>
      have new := own.detached i rfl rfl
      have linked := s.linkCmd_of_notMem new false
      obtain ⟨nodup, sane⟩ := linkCmd_sane owned new (own.used i rfl) false
      refine Owned.keeps_slot h rfl (s.linkCmd_local i false) nodup sane
        (by simp [Point.slot]) (by simp [Point.isTask]) ?_
      rintro u ⟨⟩
      refine .held rfl ?_ ?_ (by simp [Point.detached])
      · rw [linked.2, Function.update_self]
        exact own.used i rfl
      · rw [linked.2, Function.update_self]
        simp [own.plain i rfl rfl]
  | @forceDefer call i choice free =>
      obtain ⟨nodup, sane⟩ := linkCmd_sane owned (own.detached i rfl rfl) (own.used i rfl) true
      exact Owned.keeps_slot h rfl (s.linkCmd_local i true) nodup sane
        (by simp [Point.slot]) (by simp [Point.isTask])
        (fun u new => by cases new; exact .idle rfl)
  | wake work => exact Owned.keeps_same h rfl rfl (by simp) (by simp) (by simp)
  | push =>
      exact Owned.keeps_same h (s.pushCmd_array _) (s.pushCmd_cmds _)
        (by simp [Point.slot]) (by simp [Point.isTask])
        (fun u new => by
          cases new
          exact .held rfl (own.used _ rfl) (fun _ => own.plain _ rfl rfl) (by simp [Point.detached]))
  | waitCompleted ready =>
      exact Owned.keeps_calm h rfl rfl (s.modify_local _ _) rfl (by simp)
        (by simp [(owned.sane _).waitAck]) (by simp) (by simp)
        (by simp [Point.slot, Point.isTask, Point.detached])
  | waitTimeout none =>
      exact Owned.keeps_calm h rfl rfl (.refl _ s) rfl rfl (owned.sane _).waitAck rfl rfl
        (by simp [Point.slot, Point.isTask, Point.detached])
  | waitKilled none =>
      exact Owned.keeps_calm h rfl rfl (.refl _ s) rfl rfl (owned.sane _).waitAck rfl rfl
        (by simp [Point.slot, Point.isTask, Point.detached])
  | @completed call i choice =>
      refine Owned.keeps_slot h rfl ((s.unlinkCmd_local i).trans (CmdMgr.report_local _ i 0 _)) ?_ ?_
        (by simp [Point.slot]) (by simp [Point.isTask]) ?_
      · rw [CmdMgr.report_cmds]
        exact unlinkCmd_nodup owned.nodup
      · rw [CmdMgr.report_array, CmdMgr.unlinkCmd_array]
        exact owned.sane i
      · rintro u ⟨⟩
        refine .held rfl ?_ ?_ fun _ => ?_
        · rw [CmdMgr.report_array, CmdMgr.unlinkCmd_array]
          exact own.used i rfl
        · rw [CmdMgr.report_array, CmdMgr.unlinkCmd_array]
          exact fun _ => own.plain i rfl rfl
        · rw [CmdMgr.report_cmds]
          exact unlinkCmd_notMem owned.nodup
  | @completedFree call i choice =>
      exact Owned.keeps_free h rfl rfl (by simp [Point.slot]) (by simp [Point.isTask])
  | completedWake work => exact Owned.keeps_same h rfl rfl (by simp) (by simp) (by simp)
  | @timedOut call i choice =>
      obtain ⟨cmds, result, complete, self⟩ := s.timeoutCmd_self i (owned.sane i).nonblock
      exact Owned.keeps_calm h rfl rfl ((s.timeoutCmd_local i).trans (CmdMgr.report_local _ i _ _))
        ((CmdMgr.report_cmds ..).trans cmds) (by simp [self]) (by simp [self, (owned.sane i).waitAck])
        (by simp [self]) (by simp [self])
        (by simp [Point.slot, Point.isTask, Point.detached])
  | @errorFree call i choice =>
      exact Owned.keeps_free h rfl rfl (by simp) (by simp)
  | taskIdle none => exact Owned.keeps_same h rfl rfl (by simp) (by simp) (by simp)
  | @taskTake choice i found =>
      exact ownership_taskTake h found
  | @taskPush i choice =>
      have cleared := s.modify_local i fun c =>
        { c with flags := { c.flags with waitPush := false } }
      refine Owned.keeps_slot h rfl (cleared.trans (CmdMgr.pushCmd_local _ i)) ?_ ?_
        (by simp [Point.slot]) (by simp [Point.isTask]) ?_
      · rw [CmdMgr.pushCmd_cmds]
        exact owned.nodup
      · simp only [CmdMgr.pushCmd_array, CmdMgr.modify_self]
        exact ⟨(owned.sane i).nonblock, (owned.sane i).waitAck, fun _ => rfl⟩
      · rintro u ⟨⟩
        refine .held rfl ?_ ?_ (by simp [Point.detached])
        · simpa using own.used i rfl
        · simp
  | taskWaitCompleted ready =>
      exact Owned.keeps_calm h rfl rfl (s.modify_local _ _) rfl (by simp)
        (by simp [(owned.sane _).waitAck]) (by simp) (by simp)
        (by simp [Point.slot, Point.isTask, Point.detached])
  | taskWaitTimeout none =>
      exact Owned.keeps_calm h rfl rfl (.refl _ s) rfl rfl (owned.sane _).waitAck rfl rfl
        (by simp [Point.slot, Point.isTask, Point.detached])
  | @taskCompleted i choice =>
      refine Owned.keeps_slot h rfl (s.unlinkCmd_local i) (unlinkCmd_nodup owned.nodup) ?_
        (by simp [Point.slot]) (by simp [Point.isTask]) ?_
      · rw [CmdMgr.unlinkCmd_array]
        exact owned.sane i
      · rintro u ⟨⟩
        refine .held rfl ?_ ?_ fun _ => unlinkCmd_notMem owned.nodup
        · simpa using own.used i rfl
        · simpa using fun _ => own.plain i rfl rfl
  | @taskFree i choice =>
      exact Owned.keeps_free h rfl rfl (by simp [Point.slot]) (by simp [Point.isTask])
  | @taskTimedOut i choice =>
      obtain ⟨cmds, result, complete, self⟩ := s.timeoutCmd_self i (owned.sane i).nonblock
      exact Owned.keeps_calm h rfl rfl (s.timeoutCmd_local i) cmds (by simp [self])
        (by simp [self, (owned.sane i).waitAck]) (by simp [self]) (by simp [self])
        (by simp [Point.slot, Point.isTask, Point.detached])

/-- An event that starts no task, and touches neither marks nor push flags. -/
theorem ownership_soft {threads : List Point} (h : ownership.Holds s threads)
    (start : ∀ u ∈ next, u.slot = none ∧ u.isTask = false) (nodup : s'.cmds.Nodup)
    (cmds : ∀ i ∈ s'.cmds, i ∈ s.cmds) (used : ∀ i, (s'.array i).used = (s.array i).used)
    (waitPush : ∀ i, (s'.array i).flags.waitPush = (s.array i).flags.waitPush)
    (nonblock : ∀ i, (s'.array i).flags.nonblock = (s.array i).flags.nonblock)
    (waitAck : ∀ i, (s'.array i).flags.waitAck = (s.array i).flags.waitAck) :
    ownership.Keeps threads (s', next) := by
  obtain ⟨owned, points⟩ := h
  have sane : ∀ i, Sane (s'.array i) := fun i =>
    (owned.sane i).congr (nonblock i) ((waitAck i).trans (owned.sane i).waitAck) (waitPush i) (used i)
  have rest : ∀ u ∈ threads, Owns s' u := fun u member => (points u member).soft used waitPush cmds
  cases next with
  | none => exact ⟨⟨nodup, owned.apart, owned.oneTask, sane⟩, by simp, rest⟩
  | some u =>
      obtain ⟨slotless, notTask⟩ := start u rfl
      refine ⟨⟨nodup, ?_, ?_, sane⟩, ?_, rest⟩
      · simp only [Option.toList_some, List.cons_append, List.nil_append]
        rw [List.filterMap_cons_none slotless]
        exact owned.apart
      · simpa [List.countP_cons, notTask] using owned.oneTask
      · intro v new
        cases new
        exact .idle slotless

theorem ownership_event {threads : List Point} {e : CmdEvent} {after : CmdMgr × Option Point}
    (h : ownership.Holds s threads) (went : s.event threads e = some after) :
    ownership.Keeps threads after := by
  have owned : Owned s threads := h.1
  unfold CmdMgr.event at went
  split at went
  · cases went
  cases e with
  | call call =>
      obtain rfl := Option.some.inj went
      exact ownership_soft h (by simp [Point.slot, Point.isTask]) owned.nodup (fun _ => id)
        (fun _ => rfl) (fun _ => rfl) (fun _ => rfl) fun _ => rfl
  | startWork =>
      simp only [Option.ite_none_right_eq_some, Option.some.injEq, Bool.and_eq_true] at went
      obtain ⟨⟨-, noTask⟩, rfl⟩ := went
      have count : threads.countP Point.isTask = 0 := by
        apply List.countP_eq_zero.mpr
        simpa using noTask
      obtain ⟨⟨nodup, apart, -, sane⟩, points⟩ := h
      refine ⟨⟨nodup, apart, ?_, sane⟩, ?_, fun u member => (points u member).soft (fun _ => rfl)
        (fun _ => rfl) fun _ => id⟩
      · rw [Option.toList_some, List.cons_append, List.countP_cons, List.nil_append, count]
        exact le_refl 1
      · intro u new
        cases new
        exact .idle rfl
  | msgind m =>
      obtain rfl := Option.some.inj went
      simp only [CmdMgr.cmdMgrMsgind]
      split
      · exact ownership_soft h (by simp) owned.nodup (fun _ => id) (fun _ => rfl) (fun _ => rfl)
          (fun _ => rfl) fun _ => rfl
      · rename_i i found
        obtain ⟨cmds, array⟩ := CmdMgr.confirmCmd_self
          { s with copies := s.copies ++ (s.copyTarget m).toList } i (owned.sane i).nonblock
          (owned.sane i).waitAck
        refine ownership_soft h (by simp) (by rw [cmds]; exact owned.nodup)
          (fun j => by rw [cmds]; exact id)
          (fun j => ?_) (fun j => ?_) (fun j => ?_) fun j => ?_
        all_goals
          rw [array]
          by_cases here : j = i
          · subst here
            rw [Function.update_self]
          · rw [Function.update_of_ne here]
  | drain =>
      obtain rfl := Option.some.inj went
      refine ownership_soft h (by simp) .nil (by simp [CmdMgr.cmdMgrDrain]) (fun j => ?_)
        (fun j => ?_) (fun j => ?_) fun j => ?_
      all_goals
        simp only [CmdMgr.cmdMgrDrain]
        split <;> rfl
  | bus up =>
      obtain rfl := Option.some.inj went
      exact ownership_soft h (by simp) owned.nodup (fun _ => id) (fun _ => rfl) (fun _ => rfl)
        (fun _ => rfl) fun _ => rfl

theorem Owned.perm {us ts : List Point} (same : List.Perm ts us) (h : Owned s ts) : Owned s us :=
  ⟨h.nodup, (same.filterMap Point.slot).nodup_iff.mp h.apart,
    (same.countP_eq Point.isTask) ▸ h.oneTask, h.sane⟩

theorem owned_init : Owned rwnxCmdMgrInit [] :=
  ⟨.nil, .nil, by simp, fun _ => ⟨rfl, rfl, fun _ => rfl⟩⟩

end

end Aic8800.Cmd
