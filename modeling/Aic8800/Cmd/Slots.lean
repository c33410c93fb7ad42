import Aic8800.Cmd.Ownership

/-! # Slots used again

`rwnx_send_msg` adds to the flags of the slot it is given and never clears them,
since `nonblock` is always zero. A slot that has been queued once keeps `DONE` or
`WAIT_CFM` for good, so the flags are clean exactly at the first use. What
`cmd_mgr_queue` returns does not depend on the leftover, and is right unless the
wait is cut short by a signal or the confirmation comes between the end of the
wait and the lock.
-/

namespace Aic8800.Cmd

open Lib

/-- No flag of an earlier use. -/
def CmdFlags.Clean (f : CmdFlags) : Prop :=
  f.done = false ∧ f.waitPush = false ∧ f.waitAck = false ∧ f.waitCfm = false

/-- Success means confirmed, and a timeout means not. -/
def Report.Exact (r : Report) : Prop :=
  (r.ret = 0 ↔ r.confirmed = true) ∧ (r.ret = -etimedout ↔ r.confirmed = false)

namespace Point

/-- The slot a thread is about to hand to `cmd_mgr_queue`. -/
def handed : Point → Option Slot
  | queue _ i | forceDefer _ i => some i
  | _ => none

/-- The slot of a command that a thread has queued or picked. -/
def queued : Point → Option Slot
  | push _ i | wait _ i | completed _ i | timedOut _ i => some i
  | taskPush i | taskWait i | taskCompleted i | taskTimedOut i => some i
  | _ => none

/-- The slot of a command whose wait has ended without a completion. -/
def givesUp : Point → Option Slot
  | timedOut _ i => some i
  | _ => none

end Point

/-- Calls get clean slots, report what happened, and fail where no slot is left. -/
structure Hygienic (c : Threads.Config CmdMgr Point) : Prop where
  clean : ∀ t ∈ c.threads, ∀ i, t.handed = some i → (c.shared.array i).flags.Clean
  reports : ∀ r ∈ c.shared.reports, r.Exact
  full : c.shared.freeSlot = none → ∀ others call choice after,
    c.shared.action others (.malloc call) choice = some after →
      after.1.oops = false ∧ after.1.array = c.shared.array

/-! ## The flags of a slot -/

structure Marked (s : CmdMgr) : Prop where
  nonblock : ∀ i, (s.array i).flags.nonblock = false
  waitAck : ∀ i, (s.array i).flags.waitAck = false
  listed : ∀ i ∈ s.cmds, i ∈ s.linked
  stale : ∀ i ∈ s.linked, (s.array i).flags.waitCfm = true ∨ (s.array i).flags.done = true
  clean : ∀ i, i ∉ s.linked → (s.array i).flags.Clean

structure Handled (s : CmdMgr) (t : Point) : Prop where
  handed : ∀ i ∈ t.handed, (s.array i).flags.reqCfm = true
  queued : ∀ i ∈ t.queued, i ∈ s.linked

def marks : Threads.Proof CmdMgr Point := ⟨fun s _ => Marked s, Handled⟩

theorem Marked.not_clean {s : CmdMgr} (h : Marked s) {i : Slot} :
    (s.array i).flags.Clean ↔ i ∉ s.linked := by
  constructor
  · intro clean linked
    obtain ⟨done, -, -, cfm⟩ := clean
    cases h.stale i linked with
    | inl waits => cases cfm.symm.trans waits
    | inr finished => cases done.symm.trans finished
  · exact h.clean i

theorem Handled.idle {s : CmdMgr} {t : Point} (handed : t.handed = none)
    (queued : t.queued = none) : Handled s t := by
  constructor
  · simp [handed]
  · simp [queued]

theorem Handled.mono {s s' : CmdMgr} {t : Point} (h : Handled s t)
    (reqCfm : ∀ i, (s.array i).flags.reqCfm = true → (s'.array i).flags.reqCfm = true)
    (linked : ∀ i ∈ s.linked, i ∈ s'.linked) : Handled s' t :=
  ⟨fun i held => reqCfm i (h.handed i held), fun i held => linked i (h.queued i held)⟩

/-- A step that changes no flag and links nothing. -/
structure Calm (s s' : CmdMgr) : Prop where
  flags : ∀ i, (s'.array i).flags = (s.array i).flags
  cmds : ∀ i ∈ s'.cmds, i ∈ s.cmds
  linked : s'.linked = s.linked

namespace Calm

theorem refl (s : CmdMgr) : Calm s s := ⟨fun _ => rfl, fun _ => id, rfl⟩

theorem trans {s t u : CmdMgr} (h : Calm s t) (k : Calm t u) : Calm s u :=
  ⟨fun i => (k.flags i).trans (h.flags i), fun i member => h.cmds i (k.cmds i member),
    k.linked.trans h.linked⟩

theorem modify (s : CmdMgr) (i : Slot) (f : RwnxCmd → RwnxCmd)
    (same : (f (s.array i)).flags = (s.array i).flags) : Calm s (s.modify i f) :=
  ⟨(s.modify_local i f).same (by rwa [CmdMgr.modify_self]), fun _ => id, rfl⟩

theorem report (s : CmdMgr) (i : Slot) (ret : Int) (deferred : Bool) :
    Calm s (s.report i ret deferred) := by
  unfold CmdMgr.report
  split
  · exact .refl s
  · exact ⟨fun _ => rfl, fun _ => id, rfl⟩

theorem unlink (s : CmdMgr) (i : Slot) : Calm s (s.unlinkCmd i) := by
  unfold CmdMgr.unlinkCmd
  split
  · exact ⟨fun _ => rfl, fun _ => List.mem_of_mem_erase, rfl⟩
  · exact ⟨fun _ => rfl, fun _ => id, rfl⟩

theorem cmdTx (s : CmdMgr) (msg : LmacMsg) : Calm s (s.aicwfSetCmdTx msg) := by
  unfold CmdMgr.aicwfSetCmdTx
  split
  · exact ⟨fun _ => rfl, fun _ => id, rfl⟩
  · exact .refl s

theorem push (s : CmdMgr) (i : Slot) : Calm s (s.pushCmd i) := by
  have sent := cmdTx s (s.array i).a2eMsg
  exact ⟨sent.flags, sent.cmds, sent.linked⟩

end Calm

section

variable {s s' : CmdMgr} {t : Point} {threads others : List Point} {choice : WaitEnd}
  {next : Option Point} {i : Slot}

theorem Calm.marked (calm : Calm s s') (h : Marked s) : Marked s' := by
  constructor
  · exact fun j => by rw [calm.flags]; exact h.nonblock j
  · exact fun j => by rw [calm.flags]; exact h.waitAck j
  · exact fun j member => calm.linked ▸ h.listed j (calm.cmds j member)
  · exact fun j member => by rw [calm.flags]; exact h.stale j (calm.linked ▸ member)
  · exact fun j missing => by rw [calm.flags]; exact h.clean j (calm.linked ▸ missing)

theorem Calm.handled (calm : Calm s s') (h : Handled s t) : Handled s' t :=
  h.mono (fun j => by rw [calm.flags]; exact id) (fun j => by rw [calm.linked]; exact id)

theorem Calm.keeps (calm : Calm s s') (h : marks.Holds s threads)
    (member : ∀ u ∈ others, u ∈ threads) (moved : ∀ u ∈ next, Handled s u) :
    marks.Keeps others (s', next) :=
  ⟨calm.marked h.1, fun u new => calm.handled (moved u new),
    fun u other => calm.handled (h.2 u (member u other))⟩

/-- A step that works on the flags of one slot. -/
theorem Marked.on_slot (h : Marked s) (l : CmdMgr.Local i s s')
    (linked : ∀ j ∈ s.linked, j ∈ s'.linked) (only : ∀ j ∈ s'.linked, j = i ∨ j ∈ s.linked)
    (listed : i ∈ s'.cmds → i ∈ s'.linked) (nonblock : (s'.array i).flags.nonblock = false)
    (waitAck : (s'.array i).flags.waitAck = false)
    (stale : i ∈ s'.linked →
      (s'.array i).flags.waitCfm = true ∨ (s'.array i).flags.done = true)
    (clean : i ∉ s'.linked → (s'.array i).flags.Clean) : Marked s' := by
  constructor
  · intro j
    by_cases here : j = i
    · exact here ▸ nonblock
    · rw [l.array j here]
      exact h.nonblock j
  · intro j
    by_cases here : j = i
    · exact here ▸ waitAck
    · rw [l.array j here]
      exact h.waitAck j
  · intro j member
    by_cases here : j = i
    · subst here
      exact listed member
    · exact linked j (h.listed j (l.cmds j here member))
  · intro j member
    by_cases here : j = i
    · subst here
      exact stale member
    · rw [l.array j here]
      exact h.stale j ((only j member).resolve_left here)
  · intro j missing
    by_cases here : j = i
    · subst here
      exact clean missing
    · rw [l.array j here]
      exact h.clean j fun member => missing (linked j member)

theorem Marked.fill (h : Marked s) (call : Call) : Marked (s.fillCmd i call) := by
  apply h.on_slot (s.modify_local i _) (fun _ => id) (fun _ => .inr) (h.listed i)
  · rw [CmdMgr.modify_self]
    exact h.nonblock i
  · simp [h.waitAck i]
  · rw [CmdMgr.modify_self]
    exact h.stale i
  · intro missing
    obtain ⟨done, push, -, cfm⟩ := h.clean i missing
    rw [CmdMgr.modify_self]
    exact ⟨done, push, by simp [h.waitAck i], cfm⟩

theorem fillCmd_reqCfm (call : Call) {j : Slot} (req : (s.array j).flags.reqCfm = true) :
    ((s.fillCmd i call).array j).flags.reqCfm = true := by
  by_cases here : j = i
  · subst here
    simp [CmdMgr.fillCmd, req]
  · rwa [CmdMgr.fillCmd, s.modify_other i _ here]

/-- Filling keeps every command, and asks for the confirmation the call wants. -/
theorem fill_keeps (h : marks.Holds s (t :: others)) (call : Call)
    (moved : ∀ u ∈ next, u.queued = none ∧ ∀ j ∈ u.handed, j = i ∧ call.reqcfm = true) :
    marks.Keeps others (s.fillCmd i call, next) := by
  refine ⟨h.1.fill call, fun u new => ⟨fun j held => ?_, fun j held => ?_⟩, fun u other => ?_⟩
  · obtain ⟨rfl, wants⟩ := (moved u new).2 j held
    simp [CmdMgr.fillCmd, wants]
  · rw [(moved u new).1] at held
    cases held
  · exact (h.2 u (by simp [other])).mono (fun _ => fillCmd_reqCfm call) fun _ => id

/-- A queued slot waits for its confirmation, whatever it was used for before. -/
theorem Marked.link (h : Marked s) (req : (s.array i).flags.reqCfm = true) (waitPush : Bool) :
    Marked (s.linkCmd i waitPush) ∧ i ∈ (s.linkCmd i waitPush).linked ∧
      (∀ j ∈ s.linked, j ∈ (s.linkCmd i waitPush).linked) ∧
      ∀ j, (s.array j).flags.reqCfm = true →
        ((s.linkCmd i waitPush).array j).flags.reqCfm = true := by
  by_cases twice : i ∈ s.cmds
  · simp only [CmdMgr.linkCmd, if_pos twice]
    have same : Calm s { s with oops := true } := ⟨fun _ => rfl, fun _ => id, rfl⟩
    exact ⟨same.marked h, h.listed i twice, fun _ => id, fun _ => id⟩
  · have linked : (s.linkCmd i waitPush).linked = s.linked ++ [i] := by
      simp only [CmdMgr.linkCmd, if_neg twice]
    have self := congrFun (s.linkCmd_of_notMem twice waitPush).2 i
    rw [Function.update_self] at self
    have member : i ∈ (s.linkCmd i waitPush).linked := by simp [linked]
    refine ⟨?_, member, fun j old => by simp [linked, old], fun j req' => ?_⟩
    · apply h.on_slot (s.linkCmd_local i waitPush)
      · intro j old
        simp [linked, old]
      · intro j new
        rw [linked, List.mem_append, List.mem_singleton] at new
        exact new.symm
      · exact fun _ => member
      · rw [self]
        exact h.nonblock i
      · rw [self]
        exact h.waitAck i
      · rw [self]
        simp [req]
      · exact fun missing => absurd member missing
    · by_cases here : j = i
      · subst here
        rw [self]
        exact req'
      · rwa [(s.linkCmd_local i waitPush).array j here]

theorem link_keeps (h : marks.Holds s (t :: others)) (req : (s.array i).flags.reqCfm = true)
    (waitPush : Bool) (calm : Calm (s.linkCmd i waitPush) s')
    (moved : ∀ u ∈ next, u.handed = none ∧ ∀ j ∈ u.queued, j = i) :
    marks.Keeps others (s', next) := by
  obtain ⟨marked, member, linked, reqs⟩ := h.1.link req waitPush
  refine ⟨calm.marked marked, fun u new => calm.handled ⟨?_, fun j held => ?_⟩, fun u other => ?_⟩
  · simp [(moved u new).1]
  · rw [(moved u new).2 j held]
    exact member
  · exact calm.handled ((h.2 u (by simp [other])).mono reqs linked)

/-- A step on the flags of one slot that leaves it waiting or done, if it was. -/
structure Advances (i : Slot) (s s' : CmdMgr) : Prop where
  elsewhere : CmdMgr.Local i s s'
  linked : s'.linked = s.linked
  nonblock : (s'.array i).flags.nonblock = (s.array i).flags.nonblock
  waitAck : (s'.array i).flags.waitAck = (s.array i).flags.waitAck
  reqCfm : (s'.array i).flags.reqCfm = (s.array i).flags.reqCfm
  stale : (s.array i).flags.waitCfm = true ∨ (s.array i).flags.done = true →
    (s'.array i).flags.waitCfm = true ∨ (s'.array i).flags.done = true

namespace Advances

theorem timeout (blocking : (s.array i).flags.nonblock = false) :
    Advances i s (s.timeoutCmd i) := by
  obtain ⟨cmds, result, complete, self⟩ := s.timeoutCmd_self i blocking
  constructor
  · exact s.timeoutCmd_local i
  · simp only [CmdMgr.timeoutCmd]
    split
    · rfl
    · rfl
  · rw [self]
  · rw [self]
  · rw [self]
  · rw [self]
    exact fun _ => .inr rfl

theorem confirm (blocking : (s.array i).flags.nonblock = false)
    (noAck : (s.array i).flags.waitAck = false) : Advances i s (s.confirmCmd i) := by
  obtain ⟨cmds, array⟩ := s.confirmCmd_self i blocking noAck
  have self := congrFun array i
  rw [Function.update_self] at self
  constructor
  · exact ⟨fun j other => by rw [array, Function.update_of_ne other], fun j _ => cmds ▸ id⟩
  · simp only [CmdMgr.confirmCmd]
    split
    · rfl
    · rfl
  · rw [self]
  · rw [self]
  · rw [self]
  · rw [self]
    exact fun _ => .inr rfl

theorem clearPush (s : CmdMgr) (i : Slot) :
    Advances i s (s.modify i fun c => { c with flags := { c.flags with waitPush := false } }) := by
  constructor
  · exact s.modify_local i _
  · rfl
  · rw [CmdMgr.modify_self]
  · rw [CmdMgr.modify_self]
  · rw [CmdMgr.modify_self]
  · rw [CmdMgr.modify_self]
    exact id

theorem marked (advances : Advances i s s') (h : Marked s) (known : i ∈ s.linked) :
    Marked s' := by
  obtain ⟨elsewhere, linked, nonblock, waitAck, -, stale⟩ := advances
  have member : i ∈ s'.linked := linked ▸ known
  apply h.on_slot elsewhere
  · exact fun j => linked ▸ id
  · exact fun j => linked ▸ .inr
  · exact fun _ => member
  · exact nonblock.trans (h.nonblock i)
  · exact waitAck.trans (h.waitAck i)
  · exact fun _ => stale (h.stale i known)
  · exact fun missing => absurd member missing

theorem handled (advances : Advances i s s') {u : Point} (ok : Handled s u) : Handled s' u := by
  apply ok.mono
  · exact fun j req =>
      (advances.elsewhere.same (g := (·.flags.reqCfm)) advances.reqCfm j).trans req
  · exact fun j => advances.linked ▸ id

end Advances

theorem marks_keeps (h : marks.Holds s (t :: others)) (acts : CmdMgr.Acts s t choice s' next) :
    marks.Keeps others (s', next) := by
  have marked : Marked s := h.1
  have here : Handled s t := h.2 t (by simp)
  have rest : ∀ u ∈ others, u ∈ t :: others := fun u => List.mem_cons_of_mem t
  cases acts with
  | enter up => exact (Calm.refl s).keeps h rest (Threads.moves (.idle rfl rfl))
  | enterDown down =>
      exact Calm.keeps (s := s) ⟨fun _ => rfl, fun _ => id, rfl⟩ h rest (by simp)
  | malloc found =>
      exact (Calm.modify s _ _ rfl).keeps h rest (Threads.moves (.idle rfl rfl))
  | mallocNull full =>
      exact Calm.keeps (s := s) ⟨fun _ => rfl, fun _ => id, rfl⟩ h rest (by simp)
  | fillDirect wants => exact fill_keeps h _ (Threads.moves (by simp [Point.queued, Point.handed]))
  | fillQueue wants entry =>
      exact fill_keeps h _ (Threads.moves (by simp [Point.queued, Point.handed, wants]))
  | fillDefer wants entry =>
      exact fill_keeps h _ (Threads.moves (by simp [Point.queued, Point.handed, wants]))
  | direct => exact (Calm.refl s).keeps h rest (Threads.moves (.idle rfl rfl))
  | directSend entry => exact (Calm.cmdTx s _).keeps h rest (Threads.moves (.idle rfl rfl))
  | queueReject rejected =>
      exact (Calm.modify s _ _ rfl).keeps h rest (Threads.moves (.idle rfl rfl))
  | forceReject rejected =>
      exact (Calm.modify s _ _ rfl).keeps h rest (Threads.moves (.idle rfl rfl))
  | @queueDefer call i choice unpolled free defers =>
      exact link_keeps h (here.handed i rfl) true (.report _ i 0 true)
        (Threads.moves (by simp [Point.queued, Point.handed]))
  | @queuePush call i choice unpolled free pushes =>
      exact link_keeps h (here.handed i rfl) false (.refl _)
        (Threads.moves (by simp [Point.queued, Point.handed]))
  | @forceDefer call i choice free =>
      exact link_keeps h (here.handed i rfl) true (.refl _)
        (Threads.moves (by simp [Point.queued, Point.handed]))
  | wake work => exact Calm.keeps (s := s) ⟨fun _ => rfl, fun _ => id, rfl⟩ h rest (by simp)
  | push => exact (Calm.push s _).keeps h rest (Threads.moves ⟨by simp [Point.handed], here.queued⟩)
  | waitCompleted ready =>
      exact (Calm.modify s _ _ rfl).keeps h rest
        (Threads.moves ⟨by simp [Point.handed], here.queued⟩)
  | waitTimeout none =>
      exact (Calm.refl s).keeps h rest (Threads.moves ⟨by simp [Point.handed], here.queued⟩)
  | waitKilled none =>
      exact (Calm.refl s).keeps h rest (Threads.moves ⟨by simp [Point.handed], here.queued⟩)
  | completed =>
      exact ((Calm.unlink s _).trans (.report _ _ 0 false)).keeps h rest
        (Threads.moves (.idle rfl rfl))
  | completedFree =>
      exact (Calm.modify s _ _ rfl).keeps h rest (Threads.moves (.idle rfl rfl))
  | completedWake work => exact Calm.keeps (s := s) ⟨fun _ => rfl, fun _ => id, rfl⟩ h rest (by simp)
  | @timedOut call i choice =>
      have advances := Advances.timeout (marked.nonblock i)
      have calm := Calm.report (s.timeoutCmd i) i (-etimedout) false
      exact ⟨calm.marked (advances.marked marked (here.queued i rfl)),
        Threads.moves (.idle rfl rfl),
        fun u other => calm.handled (advances.handled (h.2 u (rest u other)))⟩
  | errorFree => exact (Calm.modify s _ _ rfl).keeps h rest (by simp)
  | taskIdle none => exact (Calm.refl s).keeps h rest (by simp)
  | @taskTake choice i found =>
      refine (Calm.refl s).keeps h rest ?_
      rintro u ⟨⟩
      have linked := marked.listed i (List.mem_of_mem_head? (nextPush_spec found).1)
      exact ⟨by simp [Point.handed], by rintro j ⟨⟩; exact linked⟩
  | @taskPush i choice =>
      have advances := Advances.clearPush s i
      have calm := Calm.push (s.modify i fun c =>
        { c with flags := { c.flags with waitPush := false } }) i
      exact ⟨calm.marked (advances.marked marked (here.queued i rfl)),
        Threads.moves (calm.handled (advances.handled ⟨by simp [Point.handed], here.queued⟩)),
        fun u other => calm.handled (advances.handled (h.2 u (rest u other)))⟩
  | taskWaitCompleted ready =>
      exact (Calm.modify s _ _ rfl).keeps h rest
        (Threads.moves ⟨by simp [Point.handed], here.queued⟩)
  | taskWaitTimeout none =>
      exact (Calm.refl s).keeps h rest (Threads.moves ⟨by simp [Point.handed], here.queued⟩)
  | taskCompleted => exact (Calm.unlink s _).keeps h rest (Threads.moves (.idle rfl rfl))
  | taskFree => exact (Calm.modify s _ _ rfl).keeps h rest (Threads.moves (.idle rfl rfl))
  | @taskTimedOut i choice =>
      have advances := Advances.timeout (marked.nonblock i)
      exact ⟨advances.marked marked (here.queued i rfl), Threads.moves (.idle rfl rfl),
        fun u other => advances.handled (h.2 u (rest u other))⟩

theorem marks_event {e : CmdEvent} {after : CmdMgr × Option Point} (h : marks.Holds s threads)
    (went : s.event threads e = some after) : marks.Keeps threads after := by
  have marked : Marked s := h.1
  unfold CmdMgr.event at went
  split at went
  · cases went
  cases e with
  | call call =>
      obtain rfl := Option.some.inj went
      exact (Calm.refl s).keeps h (fun _ => id) (Threads.moves (.idle rfl rfl))
  | startWork =>
      simp only [Option.ite_none_right_eq_some, Option.some.injEq] at went
      obtain ⟨-, rfl⟩ := went
      exact Calm.keeps (s := s) ⟨fun _ => rfl, fun _ => id, rfl⟩ h (fun _ => id)
        (Threads.moves (.idle rfl rfl))
  | msgind m =>
      obtain rfl := Option.some.inj went
      simp only [CmdMgr.cmdMgrMsgind]
      split
      · exact (Calm.refl s).keeps h (fun _ => id) (by simp)
      · rename_i i found
        have copied : Calm s { s with copies := s.copies ++ (s.copyTarget m).toList } :=
          ⟨fun _ => rfl, fun _ => id, rfl⟩
        have advances := Advances.confirm ((copied.marked marked).nonblock i)
          ((copied.marked marked).waitAck i)
        exact ⟨advances.marked (copied.marked marked)
            (marked.listed i (List.mem_of_find?_eq_some found)), by simp,
          fun u member => advances.handled (copied.handled (h.2 u member))⟩
  | drain =>
      obtain rfl := Option.some.inj went
      refine Calm.keeps (s := s) ⟨fun j => ?_, by simp [CmdMgr.cmdMgrDrain], rfl⟩ h (fun _ => id)
        (by simp)
      simp only [CmdMgr.cmdMgrDrain]
      split <;> rfl
  | bus up =>
      obtain rfl := Option.some.inj went
      exact Calm.keeps (s := s) ⟨fun _ => rfl, fun _ => id, rfl⟩ h (fun _ => id) (by simp)

end

theorem marked_init : Marked rwnxCmdMgrInit := by
  constructor
  · exact fun _ => rfl
  · exact fun _ => rfl
  · simp [rwnxCmdMgrInit]
  · simp [rwnxCmdMgrInit]
  · exact fun _ _ => ⟨rfl, rfl, rfl, rfl⟩

/-! ## What a call returns -/

structure Reporting (s : CmdMgr) : Prop where
  listed : ∀ i ∈ s.cmds, i ∈ s.linked
  fresh : ∀ i ∈ s.linked, (s.array i).tkn < s.nextTkn
  apart : ∀ i ∈ s.linked, ∀ j ∈ s.linked, (s.array i).tkn = (s.array j).tkn → i = j
  old : ∀ k ∈ s.confirmed, k < s.nextTkn
  exact : ∀ r ∈ s.reports, r.Exact ↔ r.deferred = false

/-- What a waiting thread can tell from its completion. -/
def Told (s : CmdMgr) : Point → Prop
  | .push _ i | .wait _ i =>
      i ∈ s.linked ∧ (0 < (s.array i).complete ↔ i ∉ s.cmds ∨ (s.array i).tkn ∈ s.confirmed)
  | .completed _ i => i ∈ s.linked ∧ (i ∈ s.cmds → (s.array i).tkn ∈ s.confirmed)
  | .timedOut _ i => i ∈ s.linked ∧ (s.array i).tkn ∉ s.confirmed
  | _ => True

def reporting : Threads.Proof CmdMgr Point := ⟨fun s _ => Reporting s, Told⟩

/-- A step that neither confirms nor reports, and renumbers no queued command. -/
structure Unheard (s s' : CmdMgr) : Prop where
  tkn : ∀ i, (s'.array i).tkn = (s.array i).tkn
  cmds : ∀ i ∈ s'.cmds, i ∈ s.cmds
  linked : s'.linked = s.linked
  nextTkn : s'.nextTkn = s.nextTkn
  confirmed : s'.confirmed = s.confirmed
  reports : s'.reports = s.reports

/-- The slot is as it was for the thread that waits on it. -/
structure SameFor (s s' : CmdMgr) (i : Slot) : Prop where
  tkn : (s'.array i).tkn = (s.array i).tkn
  complete : (s'.array i).complete = (s.array i).complete
  cmds : i ∈ s'.cmds ↔ i ∈ s.cmds

theorem Told.frame {s s' : CmdMgr} {t : Point} (h : Told s t)
    (same : ∀ i, t.slot = some i → SameFor s s' i) (linked : ∀ i ∈ s.linked, i ∈ s'.linked)
    (confirmed : s'.confirmed = s.confirmed) : Told s' t := by
  cases t with
  | push call i =>
      obtain ⟨tkn, complete, cmds⟩ := same i rfl
      refine ⟨linked i h.1, ?_⟩
      rw [tkn, complete, cmds, confirmed]
      exact h.2
  | wait call i =>
      obtain ⟨tkn, complete, cmds⟩ := same i rfl
      refine ⟨linked i h.1, ?_⟩
      rw [tkn, complete, cmds, confirmed]
      exact h.2
  | completed call i =>
      obtain ⟨tkn, complete, cmds⟩ := same i rfl
      refine ⟨linked i h.1, ?_⟩
      rw [tkn, cmds, confirmed]
      exact h.2
  | timedOut call i =>
      obtain ⟨tkn, complete, cmds⟩ := same i rfl
      refine ⟨linked i h.1, ?_⟩
      rw [tkn, confirmed]
      exact h.2
  | _ => trivial

namespace Unheard

theorem refl (s : CmdMgr) : Unheard s s := ⟨fun _ => rfl, fun _ => id, rfl, rfl, rfl, rfl⟩

theorem trans {s t u : CmdMgr} (h : Unheard s t) (k : Unheard t u) : Unheard s u :=
  ⟨fun i => (k.tkn i).trans (h.tkn i), fun i member => h.cmds i (k.cmds i member),
    k.linked.trans h.linked, k.nextTkn.trans h.nextTkn, k.confirmed.trans h.confirmed,
    k.reports.trans h.reports⟩

theorem modify (s : CmdMgr) (i : Slot) (f : RwnxCmd → RwnxCmd)
    (same : (f (s.array i)).tkn = (s.array i).tkn) : Unheard s (s.modify i f) :=
  ⟨(s.modify_local i f).same (by rwa [CmdMgr.modify_self]), fun _ => id, rfl, rfl, rfl, rfl⟩

theorem unlink (s : CmdMgr) (i : Slot) : Unheard s (s.unlinkCmd i) := by
  unfold CmdMgr.unlinkCmd
  split
  · exact ⟨fun _ => rfl, fun _ => List.mem_of_mem_erase, rfl, rfl, rfl, rfl⟩
  · exact ⟨fun _ => rfl, fun _ => id, rfl, rfl, rfl, rfl⟩

theorem cmdTx (s : CmdMgr) (msg : LmacMsg) : Unheard s (s.aicwfSetCmdTx msg) := by
  unfold CmdMgr.aicwfSetCmdTx
  split
  · exact ⟨fun _ => rfl, fun _ => id, rfl, rfl, rfl, rfl⟩
  · exact .refl s

theorem push (s : CmdMgr) (i : Slot) : Unheard s (s.pushCmd i) := by
  obtain ⟨tkn, cmds, linked, nextTkn, confirmed, reports⟩ := cmdTx s (s.array i).a2eMsg
  exact ⟨tkn, cmds, linked, nextTkn, confirmed, reports⟩

theorem timeout (s : CmdMgr) (i : Slot) : Unheard s (s.timeoutCmd i) := by
  simp only [CmdMgr.timeoutCmd]
  split
  · exact ⟨fun _ => rfl, fun _ => id, rfl, rfl, rfl, rfl⟩
  · have first := modify { s with state := .crashed } i (fun c => { c with result := -etimedout }) rfl
    refine ⟨fun j => ?_, fun _ => id, rfl, rfl, rfl, rfl⟩
    rw [← first.tkn j, CmdMgr.cmdComplete]
    apply Unheard.tkn (Unheard.modify _ i _ ?_) j
    simp only
    split
    · rfl
    · split <;> rfl

end Unheard

section

variable {s s' : CmdMgr} {t : Point} {threads others : List Point} {choice : WaitEnd}
  {next : Option Point} {i : Slot}

theorem Reporting.unheard (h : Reporting s) (u : Unheard s s') : Reporting s' := by
  obtain ⟨tkn, cmds, linked, nextTkn, confirmed, reports⟩ := u
  constructor
  · exact fun i member => linked ▸ h.listed i (cmds i member)
  · intro i member
    rw [tkn, nextTkn]
    exact h.fresh i (linked ▸ member)
  · intro i first j second
    rw [tkn, tkn]
    exact h.apart i (linked ▸ first) j (linked ▸ second)
  · rw [confirmed, nextTkn]
    exact h.old
  · rw [reports]
    exact h.exact

/-- A thread that has met a bad pointer reports nothing, so a report must be
    right only where there is none. -/
theorem Reporting.report (h : Reporting s) (ret : Int) (deferred : Bool)
    (right : s.oops = false →
      ((⟨(s.array i).tkn, ret, deferred, decide ((s.array i).tkn ∈ s.confirmed)⟩ : Report).Exact ↔
        deferred = false)) : Reporting (s.report i ret deferred) := by
  unfold CmdMgr.report
  cases oops : s.oops with
  | true => exact h
  | false =>
      simp only [Bool.false_eq_true, if_false]
      refine ⟨h.listed, h.fresh, h.apart, h.old, fun r member => ?_⟩
      rw [List.mem_append, List.mem_singleton] at member
      obtain earlier | rfl := member
      · exact h.exact r earlier
      · exact right oops

/-- Queueing gives the slot a token that nothing else has. -/
theorem Reporting.link (h : Reporting s) (new : i ∉ s.cmds) (waitPush : Bool) :
    Reporting (s.linkCmd i waitPush) ∧ (∀ j, j ≠ i → SameFor s (s.linkCmd i waitPush) j) := by
  have cmds := (s.linkCmd_of_notMem new waitPush).1
  have local_ := s.linkCmd_local i waitPush
  have logs : (s.linkCmd i waitPush).linked = s.linked ++ [i] ∧
      (s.linkCmd i waitPush).nextTkn = s.nextTkn + 1 ∧
      (s.linkCmd i waitPush).confirmed = s.confirmed ∧
      (s.linkCmd i waitPush).reports = s.reports := by
    unfold CmdMgr.linkCmd
    rw [if_neg new]
    exact ⟨rfl, rfl, rfl, rfl⟩
  obtain ⟨linked, nextTkn, confirmed, reports⟩ := logs
  have self : ((s.linkCmd i waitPush).array i).tkn = s.nextTkn := by
    rw [(s.linkCmd_of_notMem new waitPush).2, Function.update_self]
  have member : ∀ j, j ∈ (s.linkCmd i waitPush).linked ↔ j = i ∨ j ∈ s.linked := by
    intro j
    rw [linked, List.mem_append, List.mem_singleton, or_comm]
  refine ⟨⟨fun j listed => ?_, fun j queued => ?_, fun j first k second same => ?_, fun k old => ?_,
    reports ▸ h.exact⟩, fun j other => ⟨?_, ?_, ?_⟩⟩
  · rw [cmds, List.mem_append, List.mem_singleton] at listed
    exact (member j).mpr (listed.symm.imp id (h.listed j))
  · rw [nextTkn]
    by_cases here : j = i
    · rw [here, self]
      exact Nat.lt_succ_self _
    · rw [local_.array j here]
      exact (h.fresh j (((member j).mp queued).resolve_left here)).trans (Nat.lt_succ_self _)
  · by_cases one : j = i
    · subst one
      by_cases two : k = j
      · exact two.symm
      · have less := h.fresh k (((member k).mp second).resolve_left two)
        rw [self, local_.array k two] at same
        omega
    · have old := ((member j).mp first).resolve_left one
      have less := h.fresh j old
      by_cases two : k = i
      · rw [two, self, local_.array j one] at same
        omega
      · rw [local_.array j one, local_.array k two] at same
        exact h.apart j old k (((member k).mp second).resolve_left two) same
  · rw [nextTkn]
    exact (h.old k (confirmed ▸ old)).trans (Nat.lt_succ_self _)
  · rw [local_.array j other]
  · rw [local_.array j other]
  · rw [cmds, List.mem_append, List.mem_singleton]
    exact ⟨fun listed => listed.resolve_right other, .inl⟩

theorem SameFor.refl (s : CmdMgr) (j : Slot) : SameFor s s j := ⟨rfl, rfl, .rfl⟩

theorem SameFor.modify (s : CmdMgr) (i : Slot) (f : RwnxCmd → RwnxCmd)
    (tkn : (f (s.array i)).tkn = (s.array i).tkn)
    (complete : (f (s.array i)).complete = (s.array i).complete) (j : Slot) :
    SameFor s (s.modify i f) j := by
  have changed := s.modify_local i f
  exact ⟨changed.same (by rwa [CmdMgr.modify_self]) j,
    changed.same (by rwa [CmdMgr.modify_self]) j, .rfl⟩

theorem SameFor.report {j : Slot} (h : SameFor s s' j) (ret : Int) (deferred : Bool) :
    SameFor s (s'.report i ret deferred) j := by
  obtain ⟨tkn, complete, cmds⟩ := h
  exact ⟨by rwa [CmdMgr.report_array], by rwa [CmdMgr.report_array], by rwa [CmdMgr.report_cmds]⟩

theorem SameFor.push {j : Slot} (h : SameFor s s' j) : SameFor s (s'.pushCmd i) j := by
  obtain ⟨tkn, complete, cmds⟩ := h
  exact ⟨by rwa [CmdMgr.pushCmd_array], by rwa [CmdMgr.pushCmd_array], by rwa [CmdMgr.pushCmd_cmds]⟩

/-- A step that no waiting thread can tell from none. -/
theorem Unheard.keeps (u : Unheard s s') (h : reporting.Holds s (t :: others))
    (same : ∀ j, SameFor s s' j) (moved : ∀ u ∈ next, Told s u) :
    reporting.Keeps others (s', next) := by
  have told : ∀ v, Told s v → Told s' v := fun v ok =>
    ok.frame (fun j _ => same j) (fun j => by rw [u.linked]; exact id) u.confirmed
  exact ⟨h.1.unheard u, fun v new => told v (moved v new),
    fun v other => told v (h.2 v (by simp [other]))⟩

/-- A step on the slot of the thread. -/
theorem Reporting.keeps (owned : Owned s (t :: others)) (h : reporting.Holds s (t :: others))
    (held : t.slot = some i) (whole : Reporting s') (same : ∀ j, j ≠ i → SameFor s s' j)
    (linked : ∀ j ∈ s.linked, j ∈ s'.linked) (confirmed : s'.confirmed = s.confirmed)
    (moved : ∀ u ∈ next, Told s' u) : reporting.Keeps others (s', next) := by
  refine ⟨whole, moved, fun u other => (h.2 u (by simp [other])).frame (fun j own => ?_) linked
    confirmed⟩
  exact same j fun here => owned.held_apart held u other (here ▸ own)

theorem linkCmd_logs (s : CmdMgr) (i : Slot) (waitPush : Bool) :
    (∀ j ∈ s.linked, j ∈ (s.linkCmd i waitPush).linked) ∧
      (s.linkCmd i waitPush).confirmed = s.confirmed := by
  unfold CmdMgr.linkCmd
  split
  · exact ⟨fun _ => id, rfl⟩
  · exact ⟨fun _ => List.mem_append_left _, rfl⟩

theorem report_logs (s : CmdMgr) (i : Slot) (ret : Int) (deferred : Bool) :
    (s.report i ret deferred).linked = s.linked ∧
      (s.report i ret deferred).confirmed = s.confirmed := by
  unfold CmdMgr.report
  split <;> exact ⟨rfl, rfl⟩

theorem unlinkCmd_same {j : Slot} (other : j ≠ i) : SameFor s (s.unlinkCmd i) j := by
  refine ⟨by rw [s.unlinkCmd_array], by rw [s.unlinkCmd_array], ?_⟩
  unfold CmdMgr.unlinkCmd
  split
  · exact List.mem_erase_of_ne other
  · exact .rfl

theorem timeoutCmd_same {j : Slot} (other : j ≠ i) : SameFor s (s.timeoutCmd i) j := by
  have here := (s.timeoutCmd_local i).array j other
  refine ⟨by rw [here], by rw [here], ?_⟩
  simp only [CmdMgr.timeoutCmd]
  split <;> exact .rfl

theorem reporting_keeps (owns : ownership.Holds s (t :: others))
    (h : reporting.Holds s (t :: others)) (acts : CmdMgr.Acts s t choice s' next)
    (noSignal : ∀ call i, t = .wait call i → choice ≠ .killed) :
    reporting.Keeps others (s', next) := by
  have owned : Owned s (t :: others) := owns.1
  have own : Owns s t := owns.2 t (by simp)
  have whole : Reporting s := h.1
  have here : Told s t := h.2 t (by simp)
  have soft : ∀ i (f : RwnxCmd → RwnxCmd) next', (f (s.array i)).tkn = (s.array i).tkn →
      (f (s.array i)).complete = (s.array i).complete → (∀ u ∈ next', Told s u) →
      reporting.Keeps others (s.modify i f, next') := fun i f next' tkn complete moved =>
    (Unheard.modify s i f tkn).keeps h (.modify s i f tkn complete) moved
  have still : ∀ {s'' next'}, Unheard s s'' → s''.array = s.array → s''.cmds = s.cmds →
      (∀ u ∈ next', Told s u) → reporting.Keeps others (s'', next') :=
    fun unheard array cmds moved => unheard.keeps h
      (fun j => ⟨by rw [array], by rw [array], by rw [cmds]⟩) moved
  cases acts with
  | enter up => exact still (.refl s) rfl rfl (Threads.moves trivial)
  | enterDown down => exact still ⟨fun _ => rfl, fun _ => id, rfl, rfl, rfl, rfl⟩ rfl rfl (by simp)
  | malloc found => exact soft _ _ _ rfl rfl (Threads.moves trivial)
  | mallocNull full => exact still ⟨fun _ => rfl, fun _ => id, rfl, rfl, rfl, rfl⟩ rfl rfl (by simp)
  | fillDirect wants => exact soft _ _ _ rfl rfl (Threads.moves trivial)
  | fillQueue wants entry => exact soft _ _ _ rfl rfl (Threads.moves trivial)
  | fillDefer wants entry => exact soft _ _ _ rfl rfl (Threads.moves trivial)
  | direct => exact still (.refl s) rfl rfl (Threads.moves trivial)
  | directSend entry =>
      exact still (.cmdTx s _) (s.aicwfSetCmdTx_array _) (s.aicwfSetCmdTx_cmds _)
        (Threads.moves trivial)
  | queueReject rejected => exact soft _ _ _ rfl rfl (Threads.moves trivial)
  | forceReject rejected => exact soft _ _ _ rfl rfl (Threads.moves trivial)
  | @queueDefer call i choice unpolled free defers =>
      have new := own.detached i rfl rfl
      obtain ⟨linked, same⟩ := whole.link new true
      obtain ⟨mono, confirmed⟩ := linkCmd_logs s i true
      obtain ⟨linked_eq, confirmed_eq⟩ := report_logs (s.linkCmd i true) i 0 true
      have tkn : ((s.linkCmd i true).array i).tkn = s.nextTkn := by
        rw [(s.linkCmd_of_notMem new true).2, Function.update_self]
      have early : ((s.linkCmd i true).array i).tkn ∉ (s.linkCmd i true).confirmed := by
        rw [tkn, confirmed]
        exact fun member => absurd (whole.old _ member) (lt_irrefl _)
      refine Reporting.keeps owned h rfl (linked.report 0 true fun _ => ?_)
        (fun j other => (same j other).report 0 true) (fun j old => linked_eq ▸ mono j old)
        (confirmed_eq.trans confirmed) (Threads.moves trivial)
      simp [Report.Exact, early]
  | @queuePush call i choice unpolled free pushes =>
      have new := own.detached i rfl rfl
      obtain ⟨linked, same⟩ := whole.link new false
      obtain ⟨mono, confirmed⟩ := linkCmd_logs s i false
      refine Reporting.keeps owned h rfl linked same mono confirmed ?_
      rintro u ⟨⟩
      have early : s.nextTkn ∉ s.confirmed := fun member =>
        absurd (whole.old _ member) (lt_irrefl _)
      have self := congrFun (s.linkCmd_of_notMem new false).2 i
      rw [Function.update_self] at self
      have member : i ∈ (s.linkCmd i false).cmds := by simp [(s.linkCmd_of_notMem new false).1]
      refine ⟨linked.listed i member, ?_⟩
      rw [self, confirmed]
      simp [(owned.sane i).nonblock, member, early]
  | @forceDefer call i choice free =>
      have new := own.detached i rfl rfl
      obtain ⟨linked, same⟩ := whole.link new true
      obtain ⟨mono, confirmed⟩ := linkCmd_logs s i true
      exact Reporting.keeps owned h rfl linked same mono confirmed (Threads.moves trivial)
  | wake work => exact still ⟨fun _ => rfl, fun _ => id, rfl, rfl, rfl, rfl⟩ rfl rfl (by simp)
  | @push call i choice =>
      exact still (.push s i) (s.pushCmd_array i) (s.pushCmd_cmds i) (Threads.moves here)
  | @waitCompleted call i ready =>
      obtain ⟨linked, tells⟩ : i ∈ s.linked ∧
        (0 < (s.array i).complete ↔ i ∉ s.cmds ∨ (s.array i).tkn ∈ s.confirmed) := here
      refine Reporting.keeps owned h rfl (whole.unheard (.modify s i _ rfl)) (fun j other => ?_)
        (fun _ => id) rfl ?_
      · exact ⟨by rw [s.modify_other i _ other], by rw [s.modify_other i _ other], .rfl⟩
      · rintro u ⟨⟩
        refine ⟨linked, fun listed => ?_⟩
        rw [CmdMgr.modify_self]
        exact (tells.mp ready).resolve_left fun missing => missing listed
  | @waitTimeout call i none =>
      obtain ⟨linked, tells⟩ : i ∈ s.linked ∧
        (0 < (s.array i).complete ↔ i ∉ s.cmds ∨ (s.array i).tkn ∈ s.confirmed) := here
      refine still (.refl s) rfl rfl ?_
      rintro u ⟨⟩
      exact ⟨linked, fun confirmed => absurd (tells.mpr (.inr confirmed)) (by omega)⟩
  | @waitKilled call i none => exact absurd rfl (noSignal call i rfl)
  | @completed call i choice =>
      obtain ⟨linked, tells⟩ : i ∈ s.linked ∧ (i ∈ s.cmds → (s.array i).tkn ∈ s.confirmed) := here
      have unlinked := whole.unheard (Unheard.unlink s i)
      obtain ⟨linked_eq, confirmed_eq⟩ := report_logs (s.unlinkCmd i) i 0 false
      refine Reporting.keeps owned h rfl (unlinked.report 0 false fun fine => ?_)
        (fun j other => (unlinkCmd_same other).report 0 false)
        (fun j => by rw [linked_eq, (Unheard.unlink s i).linked]; exact id)
        (confirmed_eq.trans (Unheard.unlink s i).confirmed) (Threads.moves trivial)
      have listed : i ∈ s.cmds := by
        by_contra missing
        simp [CmdMgr.unlinkCmd, missing] at fine
      rw [s.unlinkCmd_array, (Unheard.unlink s i).confirmed]
      simp [Report.Exact, tells listed, etimedout]
  | completedFree => exact soft _ _ _ rfl rfl (Threads.moves trivial)
  | completedWake work => exact still ⟨fun _ => rfl, fun _ => id, rfl, rfl, rfl, rfl⟩ rfl rfl (by simp)
  | @timedOut call i choice =>
      obtain ⟨linked, unconfirmed⟩ : i ∈ s.linked ∧ (s.array i).tkn ∉ s.confirmed := here
      have unheard := Unheard.timeout s i
      obtain ⟨linked_eq, confirmed_eq⟩ := report_logs (s.timeoutCmd i) i (-etimedout) false
      refine Reporting.keeps owned h rfl
        ((whole.unheard unheard).report (-etimedout) false fun fine => ?_)
        (fun j other => (timeoutCmd_same other).report (-etimedout) false)
        (fun j => by rw [linked_eq, unheard.linked]; exact id)
        (confirmed_eq.trans unheard.confirmed) (Threads.moves trivial)
      rw [unheard.tkn, unheard.confirmed]
      simp [Report.Exact, unconfirmed, etimedout]
  | errorFree => exact soft _ _ _ rfl rfl (by simp)
  | taskIdle none => exact still (.refl s) rfl rfl (by simp)
  | taskTake found => exact still (.refl s) rfl rfl (Threads.moves trivial)
  | @taskPush i choice =>
      have cleared := Unheard.modify s i
        (fun c => { c with flags := { c.flags with waitPush := false } }) rfl
      have same := SameFor.modify s i
        (fun c => { c with flags := { c.flags with waitPush := false } }) rfl rfl
      exact (cleared.trans (.push _ i)).keeps h (fun j => (same j).push)
        (Threads.moves trivial)
  | @taskWaitCompleted i ready =>
      refine Reporting.keeps owned h rfl (whole.unheard (.modify s i _ rfl)) (fun j other => ?_)
        (fun _ => id) rfl (Threads.moves trivial)
      exact ⟨by rw [s.modify_other i _ other], by rw [s.modify_other i _ other], .rfl⟩
  | taskWaitTimeout none => exact still (.refl s) rfl rfl (Threads.moves trivial)
  | @taskCompleted i choice =>
      exact Reporting.keeps owned h rfl (whole.unheard (.unlink s i))
        (fun j other => unlinkCmd_same other)
        (fun j => by rw [(Unheard.unlink s i).linked]; exact id) (Unheard.unlink s i).confirmed
        (Threads.moves trivial)
  | taskFree => exact soft _ _ _ rfl rfl (Threads.moves trivial)
  | @taskTimedOut i choice =>
      exact Reporting.keeps owned h rfl (whole.unheard (.timeout s i))
        (fun j other => timeoutCmd_same other)
        (fun j => by rw [(Unheard.timeout s i).linked]; exact id) (Unheard.timeout s i).confirmed
        (Threads.moves trivial)

/-- A confirmation is heard by the thread that waits for it, and by no other. -/
theorem confirm_keeps (sane : Sane (s.array i)) (h : reporting.Holds s threads) (listed : i ∈ s.cmds)
    (inTime : ∀ u ∈ threads, u.givesUp ≠ some i) :
    reporting.Keeps threads (s.confirmCmd i, none) := by
  obtain ⟨cmds, array⟩ := s.confirmCmd_self i sane.nonblock sane.waitAck
  have whole : Reporting s := h.1
  have self := congrFun array i
  rw [Function.update_self] at self
  have others : ∀ j, j ≠ i → (s.confirmCmd i).array j = s.array j := fun j other => by
    rw [array, Function.update_of_ne other]
  have tkn : ∀ j, ((s.confirmCmd i).array j).tkn = (s.array j).tkn := by
    intro j
    by_cases here : j = i
    · rw [here, self]
    · rw [others j here]
  have logs : (s.confirmCmd i).linked = s.linked ∧ (s.confirmCmd i).nextTkn = s.nextTkn ∧
      (s.confirmCmd i).reports = s.reports ∧
      (s.confirmCmd i).confirmed = s.confirmed ++ [(s.array i).tkn] := by
    simp only [CmdMgr.confirmCmd, CmdMgr.modify_self]
    split <;> exact ⟨rfl, rfl, rfl, rfl⟩
  obtain ⟨linked, nextTkn, reports, confirmed⟩ := logs
  have known := whole.listed i listed
  have heard : ∀ j ∈ s.linked, j ≠ i →
      ((s.array j).tkn ∈ (s.confirmCmd i).confirmed ↔ (s.array j).tkn ∈ s.confirmed) := by
    intro j queued other
    rw [confirmed, List.mem_append, List.mem_singleton]
    exact ⟨fun member => member.resolve_right fun same =>
      other (whole.apart j queued i known same), .inl⟩
  refine ⟨⟨?_, ?_, ?_, ?_, reports ▸ whole.exact⟩, by simp, fun u member => ?_⟩
  · rw [cmds, linked]
    exact whole.listed
  · rw [linked, nextTkn]
    exact fun j queued => tkn j ▸ whole.fresh j queued
  · rw [linked]
    intro j first k second
    rw [tkn, tkn]
    exact whole.apart j first k second
  · intro k old
    rw [nextTkn]
    rw [confirmed, List.mem_append, List.mem_singleton] at old
    obtain earlier | rfl := old
    · exact whole.old k earlier
    · exact whole.fresh i known
  · have told := h.2 u member
    have late := inTime u member
    have waits : ∀ j, (j ∈ s.linked ∧
        (0 < (s.array j).complete ↔ j ∉ s.cmds ∨ (s.array j).tkn ∈ s.confirmed)) →
        j ∈ (s.confirmCmd i).linked ∧ (0 < ((s.confirmCmd i).array j).complete ↔
          j ∉ (s.confirmCmd i).cmds ∨
            ((s.confirmCmd i).array j).tkn ∈ (s.confirmCmd i).confirmed) := by
      intro j told
      refine ⟨linked ▸ told.1, ?_⟩
      by_cases here : j = i
      · subst here
        rw [self, confirmed]
        simp
      · rw [cmds, tkn, heard j told.1 here, others j here]
        exact told.2
    cases u with
    | push call j => exact waits j told
    | wait call j => exact waits j told
    | completed call j =>
        refine ⟨linked ▸ told.1, fun still => ?_⟩
        rw [tkn, confirmed]
        exact List.mem_append_left _ (told.2 (cmds ▸ still))
    | timedOut call j =>
        have other : j ≠ i := fun same => late (congrArg some same)
        refine ⟨linked ▸ told.1, ?_⟩
        rw [tkn, heard j told.1 other]
        exact told.2
    | _ => trivial

/-- A drain wakes every thread that waits, and leaves nothing on the list. -/
theorem drain_keeps (sane : ∀ i, Sane (s.array i)) (h : reporting.Holds s threads) :
    reporting.Keeps threads (s.cmdMgrDrain, none) := by
  have unheard : Unheard s s.cmdMgrDrain := by
    refine ⟨fun j => ?_, by simp [CmdMgr.cmdMgrDrain], rfl, rfl, rfl, rfl⟩
    simp only [CmdMgr.cmdMgrDrain]
    split <;> rfl
  have woken : ∀ j, (j ∈ s.cmds ∨ 0 < (s.array j).complete) →
      0 < (s.cmdMgrDrain.array j).complete := by
    intro j due
    by_cases listed : j ∈ s.cmds
    · simp [CmdMgr.cmdMgrDrain, listed, (sane j).nonblock]
    · simpa [CmdMgr.cmdMgrDrain, listed] using due
  refine ⟨h.1.unheard unheard, by simp, fun u member => ?_⟩
  have told := h.2 u member
  have waits : ∀ j, (j ∈ s.linked ∧
      (0 < (s.array j).complete ↔ j ∉ s.cmds ∨ (s.array j).tkn ∈ s.confirmed)) →
      j ∈ s.cmdMgrDrain.linked ∧ (0 < (s.cmdMgrDrain.array j).complete ↔
        j ∉ s.cmdMgrDrain.cmds ∨ (s.cmdMgrDrain.array j).tkn ∈ s.cmdMgrDrain.confirmed) := by
    intro j told
    refine ⟨told.1, fun _ => .inl (by simp [CmdMgr.cmdMgrDrain]), fun _ => woken j ?_⟩
    by_cases listed : j ∈ s.cmds
    · exact .inl listed
    · exact .inr (told.2.mpr (.inl listed))
  cases u with
  | push call j => exact waits j told
  | wait call j => exact waits j told
  | completed call j => exact ⟨told.1, fun listed => by simp [CmdMgr.cmdMgrDrain] at listed⟩
  | timedOut call j =>
      refine ⟨told.1, ?_⟩
      rw [unheard.tkn]
      exact told.2
  | _ => trivial

theorem reporting_event {e : CmdEvent} {after : CmdMgr × Option Point}
    (owns : ownership.Holds s threads) (h : reporting.Holds s threads)
    (inTime : ∀ m i, e = .msgind m → s.cfmTarget m = some i → ∀ u ∈ threads, u.givesUp ≠ some i)
    (went : s.event threads e = some after) : reporting.Keeps threads after := by
  have still : ∀ {s' next}, Unheard s s' → s'.array = s.array → s'.cmds = s.cmds →
      (∀ u ∈ next, Told s u) → reporting.Keeps threads (s', next) := by
    intro s' next unheard array cmds moved
    have told : ∀ v, Told s v → Told s' v := fun v ok =>
      ok.frame (fun j _ => ⟨by rw [array], by rw [array], by rw [cmds]⟩)
        (fun j => by rw [unheard.linked]; exact id) unheard.confirmed
    exact ⟨h.1.unheard unheard, fun v new => told v (moved v new),
      fun v member => told v (h.2 v member)⟩
  unfold CmdMgr.event at went
  split at went
  · cases went
  cases e with
  | call call =>
      obtain rfl := Option.some.inj went
      exact still (.refl s) rfl rfl (Threads.moves trivial)
  | startWork =>
      simp only [Option.ite_none_right_eq_some, Option.some.injEq] at went
      obtain ⟨-, rfl⟩ := went
      exact still ⟨fun _ => rfl, fun _ => id, rfl, rfl, rfl, rfl⟩ rfl rfl
        (Threads.moves trivial)
  | msgind m =>
      obtain rfl := Option.some.inj went
      simp only [CmdMgr.cmdMgrMsgind]
      split
      · exact still (.refl s) rfl rfl (by simp)
      · rename_i i found
        have copied : reporting.Holds { s with copies := s.copies ++ (s.copyTarget m).toList }
            threads :=
          ⟨h.1.unheard ⟨fun _ => rfl, fun _ => id, rfl, rfl, rfl, rfl⟩, fun u member =>
            (h.2 u member).frame (fun _ _ => ⟨rfl, rfl, .rfl⟩) (fun _ => id) rfl⟩
        exact confirm_keeps (owns.1.sane i) copied (List.mem_of_find?_eq_some found)
          (inTime m i rfl found)
  | drain =>
      obtain rfl := Option.some.inj went
      exact drain_keeps owns.1.sane h
  | bus up =>
      obtain rfl := Option.some.inj went
      exact still ⟨fun _ => rfl, fun _ => id, rfl, rfl, rfl, rfl⟩ rfl rfl (by simp)

end

theorem reporting_init : Reporting rwnxCmdMgrInit := by
  constructor <;> simp [rwnxCmdMgrInit]

/-- No signal ends a wait, no confirmation meets a thread that has just given up,
    and no linked slot is handed out. -/
def settled (c : Threads.Config CmdMgr Point) : Threads.Label CmdEvent Point WaitEnd → Bool
  | .run (.wait _ _) .killed => false
  | .run (.malloc _) _ => c.shared.freeSlot.all fun i => !c.shared.cmds.contains i
  | .event (.msgind m) =>
      (c.shared.cfmTarget m).all fun i => decide (∀ t ∈ c.threads, t.givesUp ≠ some i)
  | _ => true

theorem marks_hold {c : Threads.Config CmdMgr Point}
    (run : Run.Reachable CmdMgr.program.step Run.Free ⟨rwnxCmdMgrInit, []⟩ c) :
    marks.Holds c.shared c.threads := by
  apply marks.invariant _ _ _ _ run
  · exact fun _ => id
  · exact marked_init
  · exact fun c e after holds _ went => marks_event holds went
  · intro c t choice after holds _ went
    exact marks_keeps holds (CmdMgr.action_cases
      (show c.shared.action (c.threads.erase t) t choice = some after from went)).2

theorem reports_settled {c : Threads.Config CmdMgr Point}
    (run : Run.Reachable CmdMgr.program.step (fun c l => settled c l = true)
      ⟨rwnxCmdMgrInit, []⟩ c) : Reporting c.shared := by
  have holds : (ownership.and reporting).Holds c.shared c.threads := by
    apply (ownership.and reporting).invariant _ _ _ _ run
    · intro s ts us same ⟨owned, whole⟩
      exact ⟨owned.perm same, whole⟩
    · exact ⟨owned_init, reporting_init⟩
    · intro c e after holds ok went
      refine (ownership_event holds.left went).and (reporting_event holds.left holds.right ?_ went)
      intro m i same found
      subst same
      simpa [settled, found] using ok
    · intro c t choice after holds ok went
      have acts : CmdMgr.Acts c.shared t choice after.1 after.2 :=
        (CmdMgr.action_cases
          (show c.shared.action (c.threads.erase t) t choice = some after from went)).2
      refine (ownership_keeps holds.left acts fun call same i found => ?_).and
        (reporting_keeps holds.left holds.right acts fun call i same killed => ?_)
      · subst same
        simpa [settled, found] using ok
      · subst same killed
        simp [settled] at ok
  exact holds.right.1

/-- A handed slot is clean exactly at its first use, no call ever fails for want of
    a slot, and what a call returns is right unless it was deferred. -/
theorem slot_hygiene (c : Threads.Config CmdMgr Point)
    (run : Run.Reachable CmdMgr.program.step Run.Free ⟨rwnxCmdMgrInit, []⟩ c) :
    (∀ t ∈ c.threads, ∀ i, t.handed = some i →
      ((c.shared.array i).flags.Clean ↔ i ∉ c.shared.linked)) ∧
    (c.shared.freeSlot = none → ∀ others call choice after,
      c.shared.action others (.malloc call) choice = some after →
        after.1.oops = true ∧ after.1.array = c.shared.array) ∧
    (Run.Reachable CmdMgr.program.step (fun c l => settled c l = true) ⟨rwnxCmdMgrInit, []⟩ c →
      ∀ r ∈ c.shared.reports, r.Exact ↔ r.deferred = false) := by
  refine ⟨fun t _ i _ => (marks_hold run).1.not_clean, ?_, fun calm => (reports_settled calm).exact⟩
  intro full others call choice after went
  obtain ⟨-, acts⟩ := CmdMgr.action_cases went
  obtain ⟨s', next⟩ := after
  cases acts with
  | malloc found => cases full.symm.trans found
  | mallocNull _ => exact ⟨rfl, rfl⟩

/-- A confirmed call, and a second one up to where it has filled the same slot. -/
def reuseRun : List CmdLabel :=
  callRun (sampleCall none) (slot 0) ++
    [.event (.msgind ⟨3, 0, fun _ => true⟩), .run (.wait (sampleCall none) (slot 0)) .completed,
      .run (.completed (sampleCall none) (slot 0)) .completed,
      .run (.completedFree (sampleCall none) (slot 0)) .completed, .event (.call (sampleCall none)),
      .run (.enter (sampleCall none)) .completed, .run (.malloc (sampleCall none)) .completed,
      .run (.fill (sampleCall none) (slot 0)) .completed]

theorem slot_hygiene_reuse : ∃ c,
    Run.exec CmdMgr.program.step ⟨rwnxCmdMgrInit, []⟩ reuseRun = some c ∧
      ¬ (c.shared.array (slot 0)).flags.Clean ∧ c.shared.reports ≠ [] ∧
      ∀ r ∈ c.shared.reports, r.Exact ↔ r.deferred = false := by
  have hygiene := slot_hygiene _ (.exec reuseRun .init rfl)
  refine ⟨_, rfl, fun clean => ?_, List.cons_ne_nil _ _, hygiene.2.2
    (.exec_guarded (fun _ _ ok => ok) reuseRun .init rfl (by decide))⟩
  have first := hygiene.1 (.queue (sampleCall none) (slot 0)) (by decide) (slot 0) rfl
  exact first.mp clean (by decide)

theorem stale_flags_handed : ¬ ∀ c : Threads.Config CmdMgr Point,
    Run.Reachable CmdMgr.program.step Run.Free ⟨rwnxCmdMgrInit, []⟩ c → Hygienic c := by
  intro hygienic
  have second := hygienic _ (.exec reuseRun .init rfl)
  obtain ⟨done, -⟩ := second.clean (.queue (sampleCall none) (slot 0)) (by decide) (slot 0) rfl
  cases done

end Aic8800.Cmd
