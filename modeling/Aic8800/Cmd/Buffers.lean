import Aic8800.Cmd.Ownership

/-! # Result buffers and freed slots

A confirmation is copied through the slot of the command it is for. The buffer is
the caller's, so the copy is safe only while the caller is still in
`cmd_mgr_queue`, and the slot must not be on the list once it has been freed. A
wait that times out breaks both: the command stays linked, and the caller frees
its slot and returns.
-/

namespace Aic8800.Cmd

open Lib

namespace Point

/-- The slot and the result buffer of a thread between queueing its command and
    the return of `cmd_mgr_queue`. -/
def queueing : Point → Option (Slot × Option Nat)
  | push call i | wait call i | completed call i | timedOut call i => some (i, call.cfm)
  | _ => none

theorem slot_of_queueing {t : Point} {i : Slot} {buf : Option Nat}
    (h : t.queueing = some (i, buf)) : t.slot = some i := by
  cases t <;> simp_all [queueing, slot]

end Point

/-- A copy goes to a caller that waits, and no linked slot is free. -/
structure CompletionSafe (c : Threads.Config CmdMgr Point) : Prop where
  copies : ∀ m i buf, c.shared.copyTarget m = some (i, buf) →
    ∃ t ∈ c.threads, t.queueing = some (i, some buf)
  freed : ∀ i ∈ c.shared.cmds, (c.shared.array i).used = true

/-- A call with a result buffer is never deferred: only a command that is not
    queued behind another, not forced and not of the two special kinds. -/
def Call.Waits (call : Call) : Prop :=
  call.cfm.isSome = true → call.entry ≠ .sendMsg1 true ∧ call.msg.id ≠ meTrafficIndReq ∧
    call.msg.id ≠ mmSetArpoffloadReq

instance (call : Call) : Decidable call.Waits := inferInstanceAs (Decidable (_ → _))

/-- No wait of a caller times out, and a call with a result buffer waits. -/
def noStray (_ : Threads.Config CmdMgr Point) : Threads.Label CmdEvent Point WaitEnd → Bool
  | .run (.wait _ _) .timeout => false
  | .event (.call call) => decide call.Waits
  | _ => true

structure Buffered (s : CmdMgr) (threads : List Point) : Prop where
  used : ∀ i ∈ s.cmds, (s.array i).used = true
  buffers : ∀ i ∈ s.cmds, ∀ buf, (s.array i).e2aMsg = some buf →
    ∃ t ∈ threads, t.queueing = some (i, some buf)

/-- Before a command is queued its slot holds what the call said; no thread has
    timed out, and one that gives up has nothing on the list. -/
def Prepared (s : CmdMgr) : Point → Prop
  | .enter call | .malloc call | .fill call _ => call.Waits
  | .queue call i => call.Waits ∧ (s.array i).e2aMsg = call.cfm ∧ (s.array i).a2eMsg = call.msg
  | .forceDefer _ i => (s.array i).e2aMsg = none
  | .timedOut _ _ => False
  | .errorFree _ i => i ∉ s.cmds
  | _ => True

def buffering : Threads.Proof CmdMgr Point := ⟨Buffered, Prepared⟩

theorem Prepared.frame {s s' : CmdMgr} {i : Slot} {t : Point} (h : Prepared s t)
    (l : CmdMgr.Local i s s') (apart : t.slot ≠ some i) : Prepared s' t := by
  cases t with
  | queue call j =>
      have other : j ≠ i := fun same => apart (congrArg some same)
      simpa only [Prepared, l.array j other] using h
  | forceDefer call j =>
      have other : j ≠ i := fun same => apart (congrArg some same)
      simpa only [Prepared, l.array j other] using h
  | errorFree call j =>
      have other : j ≠ i := fun same => apart (congrArg some same)
      exact fun member => h (l.cmds j other member)
  | _ => exact h

/-- Steps that change neither what a slot says of its message nor its mark. -/
theorem Prepared.soft {s s' : CmdMgr} {t : Point} (h : Prepared s t)
    (buf : ∀ i, (s'.array i).e2aMsg = (s.array i).e2aMsg)
    (msg : ∀ i, (s'.array i).a2eMsg = (s.array i).a2eMsg) (cmds : ∀ i ∈ s'.cmds, i ∈ s.cmds) :
    Prepared s' t := by
  cases t with
  | queue call j => simpa only [Prepared, buf, msg] using h
  | forceDefer call j => simpa only [Prepared, buf] using h
  | errorFree call j => exact fun member => h (cmds j member)
  | _ => exact h

/-- A command with a result buffer is pushed by its own caller. -/
theorem Call.Waits.not_defers {s : CmdMgr} {i : Slot} {call : Call} {buf : Nat} (h : call.Waits)
    (e2a : (s.array i).e2aMsg = call.cfm) (a2e : (s.array i).a2eMsg = call.msg)
    (unpolled : s.polls i = false) (free : s.rejection = none) (some : call.cfm = some buf) :
    s.defers i = false := by
  obtain ⟨-, traffic, offload⟩ := h (by simp [some])
  have running : s.state = .inited := by
    cases state : s.state with
    | inited => rfl
    | crashed => simp [CmdMgr.rejection, state] at free
  have empty : s.cmds = [] := by simpa [CmdMgr.polls, e2a, some, running] using unpolled
  simp [CmdMgr.defers, empty, a2e, traffic, offload]

namespace Buffered

variable {s s' : CmdMgr} {t : Point} {others : List Point} {next : Option Point} {i : Slot}

/-- Only the thread that holds a linked slot can be the one its buffer is for. -/
theorem own_buffer (owned : Owned s (t :: others)) (h : Buffered s (t :: others))
    (held : t.slot = some i) (linked : i ∈ s.cmds) {buf : Nat}
    (e2a : (s.array i).e2aMsg = some buf) : t.queueing = some (i, some buf) := by
  obtain ⟨u, member, serves⟩ := h.buffers i linked buf e2a
  rcases List.mem_cons.mp member with rfl | other
  · exact serves
  · exact absurd (Point.slot_of_queueing serves) (owned.held_apart held u other)

/-- An action on the slot that the thread holds. -/
theorem keeps_slot (owned : Owned s (t :: others)) (h : buffering.Holds s (t :: others))
    (held : t.slot = some i) (l : CmdMgr.Local i s s')
    (here : i ∈ s'.cmds → (s'.array i).used = true ∧ ∀ buf, (s'.array i).e2aMsg = some buf →
      ∃ u ∈ next, u.queueing = some (i, some buf))
    (prepared : ∀ u ∈ next, Prepared s' u) : buffering.Keeps others (s', next) := by
  obtain ⟨buffered, points⟩ := h
  refine ⟨⟨fun j linked => ?_, fun j linked buf e2a => ?_⟩, prepared, fun u other => ?_⟩
  · by_cases same : j = i
    · subst same
      exact (here linked).1
    · rw [l.array j same]
      exact buffered.used j (l.cmds j same linked)
  · by_cases same : j = i
    · subst same
      obtain ⟨u, new, serves⟩ := (here linked).2 buf e2a
      exact ⟨u, List.mem_append_left _ (Option.mem_toList.mpr new), serves⟩
    · rw [l.array j same] at e2a
      obtain ⟨u, member, serves⟩ := buffered.buffers j (l.cmds j same linked) buf e2a
      rcases List.mem_cons.mp member with rfl | other
      · have slot := Point.slot_of_queueing serves
        exact absurd (Option.some.inj (slot.symm.trans held)) same
      · exact ⟨u, List.mem_append_right _ other, serves⟩
  · exact (points u (by simp [other])).frame l (owned.held_apart held u other)

/-- An action that leaves the slot linked and its message alone moves its caller
    from one point of `cmd_mgr_queue` to another. -/
theorem keeps_linked (owned : Owned s (t :: others)) (h : buffering.Holds s (t :: others))
    (held : t.slot = some i) (l : CmdMgr.Local i s s') (cmds : i ∈ s'.cmds → i ∈ s.cmds)
    (used : (s'.array i).used = (s.array i).used)
    (e2a : (s'.array i).e2aMsg = (s.array i).e2aMsg)
    (serves : ∀ buf, t.queueing = some (i, some buf) →
      ∃ u ∈ next, u.queueing = some (i, some buf))
    (prepared : ∀ u ∈ next, Prepared s' u) : buffering.Keeps others (s', next) := by
  refine keeps_slot owned h held l (fun linked => ⟨?_, fun buf found => ?_⟩) prepared
  · exact used.trans (h.1.used i (cmds linked))
  · exact serves buf (own_buffer owned h.1 held (cmds linked) (e2a ▸ found))

/-- An action of a thread that holds no slot. -/
theorem keeps_same (h : buffering.Holds s (t :: others)) (none : t.slot = none)
    (array : s'.array = s.array) (cmds : s'.cmds = s.cmds) (prepared : ∀ u ∈ next, Prepared s u) :
    buffering.Keeps others (s', next) := by
  obtain ⟨buffered, points⟩ := h
  have soft : ∀ u, Prepared s u → Prepared s' u := fun u ok =>
    ok.soft (fun j => by rw [array]) (fun j => by rw [array]) fun j => by rw [cmds]; exact id
  refine ⟨⟨fun j linked => ?_, fun j linked buf e2a => ?_⟩, fun u new => soft u (prepared u new),
    fun u other => soft u (points u (by simp [other]))⟩
  · rw [array]
    exact buffered.used j (cmds ▸ linked)
  · rw [array] at e2a
    obtain ⟨u, member, serves⟩ := buffered.buffers j (cmds ▸ linked) buf e2a
    rcases List.mem_cons.mp member with rfl | other
    · cases none.symm.trans (Point.slot_of_queueing serves)
    · exact ⟨u, List.mem_append_right _ other, serves⟩

end Buffered

section

variable {s s' : CmdMgr} {t : Point} {others : List Point} {choice : WaitEnd} {next : Option Point}

/-- The slot that is given out is not on the list, and nobody has it. -/
theorem buffering_malloc {call : Call} {i : Slot} (owns : ownership.Holds s (.malloc call :: others))
    (h : buffering.Holds s (.malloc call :: others)) (found : s.freeSlot = some i) :
    buffering.Keeps others (s.modify i fun c => { c with used := true }, some (.fill call i)) := by
  have unused := CmdMgr.freeSlot_unused found
  have unlinked : i ∉ s.cmds := fun linked => by simp [h.1.used i linked] at unused
  have nobody : ∀ u ∈ others, u.slot ≠ some i := by
    intro u other held
    simp [(owns.2 u (by simp [other])).used i held] at unused
  refine ⟨⟨fun j linked => ?_, fun j linked buf e2a => ?_⟩, ?_, fun u other => ?_⟩
  · have apart : j ≠ i := fun same => unlinked (same ▸ linked)
    rw [s.modify_other i _ apart]
    exact h.1.used j linked
  · have apart : j ≠ i := fun same => unlinked (same ▸ linked)
    rw [s.modify_other i _ apart] at e2a
    obtain ⟨u, member, serves⟩ := h.1.buffers j linked buf e2a
    rcases List.mem_cons.mp member with rfl | other
    · cases Point.slot_of_queueing serves
    · exact ⟨u, List.mem_append_right _ other, serves⟩
  · rintro u ⟨⟩
    exact h.2 (.malloc call) (by simp)
  · exact (h.2 u (by simp [other])).frame (s.modify_local i fun c => { c with used := true })
      (nobody u other)

theorem buffering_keeps (owns : ownership.Holds s (t :: others))
    (h : buffering.Holds s (t :: others)) (acts : CmdMgr.Acts s t choice s' next)
    (noTimeout : ∀ call i, t = .wait call i → choice ≠ .timeout) :
    buffering.Keeps others (s', next) := by
  have owned : Owned s (t :: others) := owns.1
  have own : Owns s t := owns.2 t (by simp)
  have here : Prepared s t := h.2 t (by simp)
  cases acts with
  | enter up => exact Buffered.keeps_same h rfl rfl rfl (Threads.moves here)
  | enterDown down => exact Buffered.keeps_same h rfl rfl rfl (by simp)
  | @malloc call choice i found =>
      exact buffering_malloc owns h found
  | mallocNull full => exact Buffered.keeps_same h rfl rfl rfl (by simp)
  | @fillDirect call i choice wants =>
      refine Buffered.keeps_slot owned h rfl (s.modify_local i _)
        (fun linked => absurd linked (own.detached i rfl rfl)) ?_
      rintro u ⟨⟩
      trivial
  | @fillQueue call i choice wants entry =>
      refine Buffered.keeps_slot owned h rfl (s.modify_local i _)
        (fun linked => absurd linked (own.detached i rfl rfl)) ?_
      rintro u ⟨⟩
      exact ⟨here, by simp [CmdMgr.fillCmd], by simp [CmdMgr.fillCmd]⟩
  | @fillDefer call i choice wants entry =>
      refine Buffered.keeps_slot owned h rfl (s.modify_local i _)
        (fun linked => absurd linked (own.detached i rfl rfl)) ?_
      rintro u ⟨⟩
      cases cfm : call.cfm with
      | none => simp [Prepared, CmdMgr.fillCmd, cfm]
      | some buf => exact absurd entry (here (by simp [cfm])).1
  | @direct call i choice =>
      refine Buffered.keeps_slot owned h rfl (.refl i s)
        (fun linked => absurd linked (own.detached i rfl rfl)) ?_
      rintro u ⟨⟩
      exact own.detached i rfl rfl
  | @directSend call i choice entry =>
      refine Buffered.keeps_linked owned h rfl ⟨fun j _ => ?_, fun j _ => ?_⟩ ?_ ?_ ?_ (by
        simp [Point.queueing]) ?_
      · rw [CmdMgr.aicwfSetCmdTx_array]
      · rw [CmdMgr.aicwfSetCmdTx_cmds]
        exact id
      · rw [CmdMgr.aicwfSetCmdTx_cmds]
        exact id
      · rw [CmdMgr.aicwfSetCmdTx_array]
      · rw [CmdMgr.aicwfSetCmdTx_array]
      · rintro u ⟨⟩
        simp only [Prepared, CmdMgr.aicwfSetCmdTx_cmds]
        exact own.detached i rfl rfl
  | @queueReject call i choice ret rejected =>
      refine Buffered.keeps_slot owned h rfl (s.modify_local i _)
        (fun linked => absurd linked (own.detached i rfl rfl)) ?_
      rintro u ⟨⟩
      exact own.detached i rfl rfl
  | @forceReject call i choice ret rejected =>
      refine Buffered.keeps_slot owned h rfl (s.modify_local i _)
        (fun linked => absurd linked (own.detached i rfl rfl)) ?_
      rintro u ⟨⟩
      exact own.detached i rfl rfl
  | @queueDefer call i choice unpolled free defers =>
      obtain ⟨waits, e2a, a2e⟩ := here
      have linked := s.linkCmd_of_notMem (own.detached i rfl rfl) true
      refine Buffered.keeps_slot owned h rfl
        ((s.linkCmd_local i true).trans (CmdMgr.report_local _ i 0 _)) (fun _ => ?_)
        (Threads.moves trivial)
      rw [CmdMgr.report_array, linked.2, Function.update_self]
      refine ⟨own.used i rfl, fun buf found => ?_⟩
      have pushes := waits.not_defers e2a a2e unpolled free (e2a ▸ found)
      simp [defers] at pushes
  | @queuePush call i choice unpolled free pushes =>
      obtain ⟨waits, e2a, a2e⟩ := here
      have linked := s.linkCmd_of_notMem (own.detached i rfl rfl) false
      refine Buffered.keeps_slot owned h rfl (s.linkCmd_local i false) (fun _ => ?_)
        (Threads.moves trivial)
      rw [linked.2, Function.update_self]
      refine ⟨own.used i rfl, fun buf found => ⟨_, rfl, ?_⟩⟩
      simp only [Point.queueing, ← e2a]
      rw [show (s.array i).e2aMsg = some buf from found]
  | @forceDefer call i choice free =>
      have linked := s.linkCmd_of_notMem (own.detached i rfl rfl) true
      refine Buffered.keeps_slot owned h rfl (s.linkCmd_local i true) (fun _ => ?_)
        (Threads.moves trivial)
      rw [linked.2, Function.update_self]
      refine ⟨own.used i rfl, fun buf found => ?_⟩
      cases (show (s.array i).e2aMsg = none from here).symm.trans found
  | wake work => exact Buffered.keeps_same h rfl rfl rfl (by simp)
  | @push call i choice =>
      refine Buffered.keeps_linked owned h rfl (s.pushCmd_local i) ?_ ?_ ?_ (fun buf serves =>
        ⟨_, rfl, serves⟩) (Threads.moves trivial)
      · rw [CmdMgr.pushCmd_cmds]
        exact id
      · rw [CmdMgr.pushCmd_array]
      · rw [CmdMgr.pushCmd_array]
  | @waitCompleted call i ready =>
      exact Buffered.keeps_linked owned h rfl (s.modify_local i _) id (by simp) (by simp)
        (fun buf serves => ⟨_, rfl, serves⟩) (Threads.moves trivial)
  | @waitTimeout call i none => exact absurd rfl (noTimeout call i rfl)
  | @waitKilled call i none =>
      exact Buffered.keeps_linked owned h rfl (.refl i s) id rfl rfl
        (fun buf serves => ⟨_, rfl, serves⟩) (Threads.moves trivial)
  | @completed call i choice =>
      refine Buffered.keeps_slot owned h rfl
        ((s.unlinkCmd_local i).trans (CmdMgr.report_local _ i 0 _)) (fun linked => ?_)
        (Threads.moves trivial)
      rw [CmdMgr.report_cmds] at linked
      exact absurd linked (unlinkCmd_notMem owned.nodup)
  | @completedFree call i choice =>
      exact Buffered.keeps_slot owned h rfl (s.modify_local i _)
        (fun linked => absurd linked (own.detached i rfl rfl)) (Threads.moves trivial)
  | completedWake work => exact Buffered.keeps_same h rfl rfl rfl (by simp)
  | timedOut => exact here.elim
  | @errorFree call i choice =>
      exact Buffered.keeps_slot owned h rfl (s.modify_local i _) (fun linked => absurd linked here)
        (by simp)
  | taskIdle none => exact Buffered.keeps_same h rfl rfl rfl (by simp)
  | taskTake found => exact Buffered.keeps_same h rfl rfl rfl (Threads.moves trivial)
  | @taskPush i choice =>
      have cleared := s.modify_local i fun c =>
        { c with flags := { c.flags with waitPush := false } }
      refine Buffered.keeps_linked owned h rfl (cleared.trans (CmdMgr.pushCmd_local _ i)) ?_ ?_ ?_
        (by simp [Point.queueing]) (Threads.moves trivial)
      · rw [CmdMgr.pushCmd_cmds]
        exact id
      · rw [CmdMgr.pushCmd_array, CmdMgr.modify_self]
      · rw [CmdMgr.pushCmd_array, CmdMgr.modify_self]
  | @taskWaitCompleted i ready =>
      exact Buffered.keeps_linked owned h rfl (s.modify_local i _) id (by simp) (by simp)
        (by simp [Point.queueing]) (Threads.moves trivial)
  | @taskWaitTimeout i none =>
      exact Buffered.keeps_linked owned h rfl (.refl i s) id rfl rfl (by simp [Point.queueing])
        (Threads.moves trivial)
  | @taskCompleted i choice =>
      exact Buffered.keeps_slot owned h rfl (s.unlinkCmd_local i)
        (fun linked => absurd linked (unlinkCmd_notMem owned.nodup)) (Threads.moves trivial)
  | @taskFree i choice =>
      exact Buffered.keeps_slot owned h rfl (s.modify_local i _)
        (fun linked => absurd linked (own.detached i rfl rfl)) (Threads.moves trivial)
  | @taskTimedOut i choice =>
      obtain ⟨cmds, result, complete, self⟩ := s.timeoutCmd_self i (owned.sane i).nonblock
      refine Buffered.keeps_linked owned h rfl (s.timeoutCmd_local i) ?_ ?_ ?_
        (by simp [Point.queueing]) (Threads.moves trivial)
      · rw [cmds]
        exact id
      · rw [self]
      · rw [self]

/-- An event that leaves the slots' messages and marks, and starts no waiting thread. -/
theorem Buffered.keeps_soft {threads : List Point} (h : buffering.Holds s threads)
    (used : ∀ i, (s'.array i).used = (s.array i).used)
    (buf : ∀ i, (s'.array i).e2aMsg = (s.array i).e2aMsg)
    (msg : ∀ i, (s'.array i).a2eMsg = (s.array i).a2eMsg) (cmds : ∀ i ∈ s'.cmds, i ∈ s.cmds)
    (prepared : ∀ u ∈ next, Prepared s' u) : buffering.Keeps threads (s', next) := by
  obtain ⟨buffered, points⟩ := h
  refine ⟨⟨fun i linked => ?_, fun i linked b e2a => ?_⟩, prepared,
    fun u member => (points u member).soft buf msg cmds⟩
  · exact (used i).trans (buffered.used i (cmds i linked))
  · obtain ⟨u, member, serves⟩ := buffered.buffers i (cmds i linked) b (buf i ▸ e2a)
    exact ⟨u, List.mem_append_right _ member, serves⟩

theorem buffering_event {threads : List Point} {e : CmdEvent} {after : CmdMgr × Option Point}
    (owned : Owned s threads) (h : buffering.Holds s threads)
    (waits : ∀ call, e = .call call → call.Waits) (went : s.event threads e = some after) :
    buffering.Keeps threads after := by
  unfold CmdMgr.event at went
  split at went
  · cases went
  cases e with
  | call call =>
      obtain rfl := Option.some.inj went
      exact Buffered.keeps_soft h (fun _ => rfl) (fun _ => rfl) (fun _ => rfl) (fun _ => id)
        (Threads.moves (waits call rfl))
  | startWork =>
      simp only [Option.ite_none_right_eq_some, Option.some.injEq] at went
      obtain ⟨-, rfl⟩ := went
      exact Buffered.keeps_soft h (fun _ => rfl) (fun _ => rfl) (fun _ => rfl) (fun _ => id)
        (Threads.moves trivial)
  | msgind m =>
      obtain rfl := Option.some.inj went
      simp only [CmdMgr.cmdMgrMsgind]
      split
      · exact Buffered.keeps_soft h (fun _ => rfl) (fun _ => rfl) (fun _ => rfl) (fun _ => id)
          (by simp)
      · rename_i i found
        obtain ⟨cmds, array⟩ := CmdMgr.confirmCmd_self
          { s with copies := s.copies ++ (s.copyTarget m).toList } i (owned.sane i).nonblock
          (owned.sane i).waitAck
        refine Buffered.keeps_soft h (fun j => ?_) (fun j => ?_) (fun j => ?_)
          (fun j => by rw [cmds]; exact id) (by simp)
        all_goals
          rw [array]
          by_cases here : j = i
          · subst here
            rw [Function.update_self]
          · rw [Function.update_of_ne here]
  | drain =>
      obtain rfl := Option.some.inj went
      refine Buffered.keeps_soft h (fun j => ?_) (fun j => ?_) (fun j => ?_)
        (by simp [CmdMgr.cmdMgrDrain]) (by simp)
      all_goals
        simp only [CmdMgr.cmdMgrDrain]
        split <;> rfl
  | bus up =>
      obtain rfl := Option.some.inj went
      exact Buffered.keeps_soft h (fun _ => rfl) (fun _ => rfl) (fun _ => rfl) (fun _ => id)
        (by simp)

end

/-- As long as no wait of a caller times out, copies go to callers that wait and
    the list holds no freed slot. -/
theorem completion_safe {c : Threads.Config CmdMgr Point}
    (run : Run.Reachable CmdMgr.program.step (fun c l => noStray c l = true)
      ⟨rwnxCmdMgrInit, []⟩ c) : CompletionSafe c := by
  have holds : (ownership.and buffering).Holds c.shared c.threads := by
    apply (ownership.and buffering).invariant _ _ _ _ run
    · intro s ts us same ⟨owned, buffered⟩
      refine ⟨owned.perm same, buffered.used, fun i linked buf e2a => ?_⟩
      obtain ⟨u, member, serves⟩ := buffered.buffers i linked buf e2a
      exact ⟨u, same.mem_iff.mp member, serves⟩
    · exact ⟨owned_init, by simp [rwnxCmdMgrInit], by simp [rwnxCmdMgrInit]⟩
    · intro c e after holds ok went
      refine (ownership_event holds.left went).and ?_
      refine buffering_event holds.left.1 holds.right (fun call same => ?_) went
      subst same
      simpa [noStray] using ok
    · intro c t choice after holds ok went
      have acts : CmdMgr.Acts c.shared t choice after.1 after.2 :=
        (CmdMgr.action_cases
          (show c.shared.action (c.threads.erase t) t choice = some after from went)).2
      refine (ownership_keeps holds.left acts fun call _ i found linked => ?_).and ?_
      · have unused := CmdMgr.freeSlot_unused found
        simp [holds.right.1.used i linked] at unused
      · refine buffering_keeps holds.left holds.right acts fun call i same timeout => ?_
        subst same timeout
        simp [noStray] at ok
  refine ⟨fun m i buf target => ?_, holds.right.1.used⟩
  obtain ⟨j, found, copies⟩ := Option.bind_eq_some_iff.mp target
  split at copies
  · cases copies
  · obtain ⟨b, e2a, same⟩ := Option.map_eq_some_iff.mp copies
    obtain ⟨rfl, rfl⟩ := Prod.mk.inj same
    exact holds.right.1.buffers j (List.mem_of_find?_eq_some found) b e2a

def sampleCfm : E2aMsg := ⟨3, 4, fun _ => true⟩

theorem completion_safe_confirmed : ∃ c,
    Run.exec CmdMgr.program.step ⟨rwnxCmdMgrInit, []⟩ (callRun (sampleCall (some 7)) (slot 0)) =
        some c ∧
      c.shared.copyTarget sampleCfm = some (slot 0, 7) ∧ CompletionSafe c :=
  ⟨_, rfl, rfl, completion_safe (.exec_guarded (fun _ _ ok => ok)
    (callRun (sampleCall (some 7)) (slot 0)) .init rfl (by decide))⟩

/-- A call that waits in vain and gives up. -/
def timeoutRun (call : Call) (i : Slot) : List CmdLabel :=
  callRun call i ++ [.run (.wait call i) .timeout, .run (.timedOut call i) .completed,
    .run (.errorFree call i) .completed]

theorem timeout_leaves_buffer : ¬ ∀ c : Threads.Config CmdMgr Point,
    Run.Reachable CmdMgr.program.step Run.Free ⟨rwnxCmdMgrInit, []⟩ c → CompletionSafe c := by
  intro safe
  have late := safe _ (.exec (timeoutRun (sampleCall (some 7)) (slot 0)) .init rfl)
  obtain ⟨t, member, -⟩ := late.copies sampleCfm (slot 0) 7 rfl
  cases member

end Aic8800.Cmd
