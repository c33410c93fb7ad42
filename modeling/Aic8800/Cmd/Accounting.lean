import Mathlib.Data.List.Pairwise
import Aic8800.Cmd.Ownership

/-! # The order of the queue

Tokens number the commands in the order they are queued. A command that still
waits for anything holds back every later one, so the list is a run of answered
commands, at most one that the firmware has and will answer, and the ones that
wait for their push. `cmd_mgr_drain` empties the list without the count, and a
confirmation that no pushed command asked for completes one that was never sent.
-/

namespace Aic8800.Cmd

open Lib

namespace CmdMgr

/-- A linked command that the firmware has been given and not yet confirmed. -/
def Awaits (s : CmdMgr) (i : Slot) : Prop :=
  i ∈ s.cmds ∧ (s.array i).tkn ∈ s.pushed ∧ (s.array i).flags.waitCfm = true

/-- The command can be confirmed by the message. -/
def Expects (s : CmdMgr) (m : E2aMsg) (i : Slot) : Prop :=
  (s.array i).reqid = m.id ∧ m.accepts (s.array i) = true

end CmdMgr

structure Accounted (s : CmdMgr) : Prop where
  count : s.queueSz = s.cmds.length
  bound : s.queueSz ≤ s.maxQueueSz
  alone : ∀ i j, s.Awaits i → s.Awaits j → i = j
  queued : s.cmds.Pairwise fun i j => (s.array i).tkn < (s.array j).tkn
  inOrder : s.pushed.Pairwise (· < ·)
  /-- No command has been pushed before an older one. -/
  turn : ∀ i ∈ s.cmds, (s.array i).tkn ∉ s.pushed → ∀ k ∈ s.pushed, k < (s.array i).tkn
  /-- A message for a pushed command completes the oldest one it can confirm. -/
  oldest : ∀ m i, s.cfmTarget m = some i → (s.array i).tkn ∈ s.pushed →
    (s.Awaits i ∧ s.Expects m i) ∧
      (∀ j, s.Awaits j → s.Expects m j → (s.array i).tkn ≤ (s.array j).tkn) ∧
      ((s.cmdMgrMsgind m).array i).flags.done = true ∧
      ((s.cmdMgrMsgind m).array i).complete = (s.array i).complete + 1 ∧
      ∀ j, j ≠ i → (s.cmdMgrMsgind m).array j = s.array j
  /-- A pushed command that waits for a message is found by it. -/
  found : ∀ m i, s.Awaits i → s.Expects m i → s.cfmTarget m = some i

/-- The list is drained only when empty, a message confirms only a command that
    has been pushed, and no linked slot is handed out again. -/
def orderly (c : Threads.Config CmdMgr Point) : Threads.Label CmdEvent Point WaitEnd → Bool
  | .event .drain => c.shared.cmds.isEmpty
  | .event (.msgind m) =>
      (c.shared.cfmTarget m).all fun i => decide ((c.shared.array i).tkn ∈ c.shared.pushed)
  | .run (.malloc _) _ => c.shared.freeSlot.all fun i => !c.shared.cmds.contains i
  | _ => true

structure Line (s : CmdMgr) : Prop where
  room : 0 < s.maxQueueSz
  count : s.queueSz = s.cmds.length
  bound : s.cmds.length ≤ s.maxQueueSz
  queued : s.cmds.Pairwise fun i j => (s.array i).tkn < (s.array j).tkn
  fresh : ∀ i ∈ s.cmds, (s.array i).tkn < s.nextTkn
  old : ∀ k ∈ s.pushed, k < s.nextTkn
  inOrder : s.pushed.Pairwise (· < ·)
  blocked : ∀ i ∈ s.cmds, ∀ j ∈ s.cmds, (s.array i).tkn < (s.array j).tkn →
    (s.array i).flags.waiting = true → (s.array j).flags.waitPush = true
  unpushed : ∀ i ∈ s.cmds, (s.array i).flags.waitPush = true →
    (s.array i).flags.waitCfm = true ∧ (s.array i).tkn ∉ s.pushed
  answered : ∀ i ∈ s.cmds, (s.array i).flags.waitCfm = false → (s.array i).tkn ∈ s.pushed
  turn : ∀ i ∈ s.cmds, (s.array i).tkn ∉ s.pushed → ∀ k ∈ s.pushed, k < (s.array i).tkn

/-- Where a thread expects its command to be. -/
def Placed (s : CmdMgr) : Point → Prop
  | .queue _ i | .forceDefer _ i => (s.array i).flags.reqCfm = true
  | .push _ i => i ∈ s.cmds ∧ (s.array i).tkn ∉ s.pushed
  | .wait _ i | .completed _ i | .timedOut _ i => i ∈ s.cmds
  | .taskWait i | .taskCompleted i | .taskTimedOut i => i ∈ s.cmds
  | .taskPush i => s.cmds.head? = some i ∧ (s.array i).flags.waitPush = true
  | _ => True

def accounting : Threads.Proof CmdMgr Point := ⟨fun s _ => Line s, Placed⟩

/-- The list with its count, bound, tokens and pushes. -/
def CmdMgr.queue (s : CmdMgr) : Nat × Nat × Nat × List Slot × List Nat :=
  (s.queueSz, s.maxQueueSz, s.nextTkn, s.cmds, s.pushed)

/-- The token and the flags but for `DONE`. -/
def RwnxCmd.place (c : RwnxCmd) : Nat × CmdFlags := (c.tkn, { c.flags with done := false })

/-- A step that moves no command. -/
structure Plain (s s' : CmdMgr) : Prop where
  queue : s'.queue = s.queue
  place : ∀ j, (s'.array j).place = (s.array j).place

namespace Plain

theorem refl (s : CmdMgr) : Plain s s := ⟨rfl, fun _ => rfl⟩

theorem trans {s t u : CmdMgr} (h : Plain s t) (k : Plain t u) : Plain s u :=
  ⟨k.queue.trans h.queue, fun j => (k.place j).trans (h.place j)⟩

theorem modify (s : CmdMgr) (i : Slot) (f : RwnxCmd → RwnxCmd)
    (same : (f (s.array i)).place = (s.array i).place) : Plain s (s.modify i f) :=
  ⟨rfl, (s.modify_local i f).same (by rwa [CmdMgr.modify_self])⟩

theorem report (s : CmdMgr) (i : Slot) (ret : Int) (deferred : Bool) :
    Plain s (s.report i ret deferred) := by
  unfold CmdMgr.report
  split
  · exact .refl s
  · exact ⟨rfl, fun _ => rfl⟩

theorem cmdTx (s : CmdMgr) (msg : LmacMsg) : Plain s (s.aicwfSetCmdTx msg) := by
  unfold CmdMgr.aicwfSetCmdTx
  split
  · exact ⟨rfl, fun _ => rfl⟩
  · exact .refl s

theorem timeout (s : CmdMgr) (i : Slot) (blocking : (s.array i).flags.nonblock = false) :
    Plain s (s.timeoutCmd i) := by
  obtain ⟨cmds, result, complete, self⟩ := s.timeoutCmd_self i blocking
  refine ⟨?_, (s.timeoutCmd_local i).same ?_⟩
  · simp only [CmdMgr.timeoutCmd]
    split <;> rfl
  · rw [self]
    rfl

end Plain

namespace Line

variable {s s' : CmdMgr} {i : Slot}

theorem apart (h : Line s) {j : Slot} (linked : i ∈ s.cmds) (other : j ∈ s.cmds) (ne : i ≠ j) :
    (s.array i).tkn ≠ (s.array j).tkn := by
  have pairs : s.cmds.Pairwise fun a b => (s.array a).tkn ≠ (s.array b).tkn :=
    h.queued.imp fun less => less.ne
  have symmetric : Std.Symm fun a b : Slot => (s.array a).tkn ≠ (s.array b).tkn :=
    ⟨fun _ _ => Ne.symm⟩
  exact pairs.forall linked other ne

/-- The head of the list is its oldest command. -/
theorem head_oldest (h : Line s) (first : s.cmds.head? = some i) :
    ∀ j ∈ s.cmds, (s.array i).tkn ≤ (s.array j).tkn := by
  obtain ⟨rest, shape⟩ := List.head?_eq_some_iff.mp first
  have queued := h.queued
  rw [shape, List.pairwise_cons] at queued
  intro j linked
  rw [shape] at linked
  cases linked with
  | head => exact le_refl _
  | tail _ later => exact (queued.1 j later).le

/-- If the last command waits for nothing, no command does. -/
theorem quiet (h : Line s) (last : s.cmds.getLast?.elim false
    (fun i => (s.array i).flags.waiting) = false) :
    ∀ j ∈ s.cmds, (s.array j).flags.waiting = false := by
  intro j linked
  cases shape : s.cmds.getLast? with
  | none => simp [List.getLast?_eq_none_iff.mp shape] at linked
  | some l =>
      rw [shape, Option.elim_some] at last
      obtain ⟨rest, whole⟩ := List.getLast?_eq_some_iff.mp shape
      by_contra waits
      have queued := h.queued
      rw [whole, List.pairwise_append] at queued
      have member := linked
      rw [whole, List.mem_append, List.mem_singleton] at member
      obtain before | rfl := member
      · have less := queued.2.2 j before l (by simp)
        have push := h.blocked j linked l (by simp [whole]) less (by simpa using waits)
        simp [CmdFlags.waiting, push] at last
      · exact waits last

/-- Another state with the same list, counts and pushes, where the linked
    commands keep their token and what they wait for. -/
theorem congr (h : Line s) (queue : s'.queue = s.queue)
    (place : ∀ j ∈ s.cmds, (s'.array j).place = (s.array j).place) : Line s' := by
  simp only [CmdMgr.queue, Prod.mk.injEq] at queue
  obtain ⟨size, max, tkn, cmds, pushed⟩ := queue
  have tkn_eq : ∀ j ∈ s.cmds, (s'.array j).tkn = (s.array j).tkn :=
    fun j member => congrArg (·.1) (place j member)
  have push_eq : ∀ j ∈ s.cmds, (s'.array j).flags.waitPush = (s.array j).flags.waitPush :=
    fun j member => congrArg (·.2.waitPush) (place j member)
  have cfm_eq : ∀ j ∈ s.cmds, (s'.array j).flags.waitCfm = (s.array j).flags.waitCfm :=
    fun j member => congrArg (·.2.waitCfm) (place j member)
  have waiting_eq : ∀ j ∈ s.cmds, (s'.array j).flags.waiting = (s.array j).flags.waiting :=
    fun j member => congrArg (·.2.waiting) (place j member)
  constructor
  all_goals simp only [size, max, tkn, cmds, pushed]
  · exact h.room
  · exact h.count
  · exact h.bound
  · apply h.queued.imp_of_mem
    intro a b first second less
    rwa [tkn_eq a first, tkn_eq b second]
  · intro j member
    rw [tkn_eq j member]
    exact h.fresh j member
  · exact h.old
  · exact h.inOrder
  · intro a first b second
    rw [tkn_eq a first, tkn_eq b second, waiting_eq a first, push_eq b second]
    exact h.blocked a first b second
  · intro j member
    rw [tkn_eq j member, push_eq j member, cfm_eq j member]
    exact h.unpushed j member
  · intro j member
    rw [tkn_eq j member, cfm_eq j member]
    exact h.answered j member
  · intro j member
    rw [tkn_eq j member]
    exact h.turn j member

theorem init : Line rwnxCmdMgrInit := by
  constructor <;> simp [rwnxCmdMgrInit, rwnxCmdMaxQueued]

/-- A new command goes to the end; unless it waits for its push, nothing else
    may wait. -/
theorem link (h : Line s) (new : i ∉ s.cmds) (free : s.rejection = none)
    (reqCfm : (s.array i).flags.reqCfm = true) (plain : (s.array i).flags.waitPush = false)
    (waitPush : Bool)
    (behind : ∀ j ∈ s.cmds, (s.array j).flags.waiting = true → waitPush = true) :
    Line (s.linkCmd i waitPush) := by
  have unequal : ∀ j ∈ s.cmds, j ≠ i := fun j linked same => new (same ▸ linked)
  have oldest : s.nextTkn ∉ s.pushed := fun member => absurd (h.old _ member) (lt_irrefl _)
  have space : s.cmds.length + 1 ≤ s.maxQueueSz := by
    unfold CmdMgr.rejection at free
    split at free
    · cases free
    · split at free
      · cases free
      · rename_i fits
        have room := h.room
        have bound := h.bound
        have count := h.count
        by_cases empty : s.cmds = []
        · simp only [empty, List.length_nil]
          omega
        · have unfull : s.queueSz ≠ s.maxQueueSz := fun full => fits ⟨empty, full⟩
          omega
  have self : (s.linkCmd i waitPush).array i =
      { s.array i with
        tkn := s.nextTkn, result := -eintr
        complete := if (s.array i).flags.nonblock then (s.array i).complete else 0
        flags := { (s.array i).flags with waitPush, waitCfm := true } } := by
    rw [(s.linkCmd_of_notMem new waitPush).2, Function.update_self]
    simp [reqCfm, plain]
  have others : ∀ j ∈ s.cmds, (s.linkCmd i waitPush).array j = s.array j :=
    fun j linked => (s.linkCmd_local i waitPush).array j (unequal j linked)
  have cmds := (s.linkCmd_of_notMem new waitPush).1
  have members : ∀ j, j ∈ (s.linkCmd i waitPush).cmds → j ∈ s.cmds ∨ j = i := by
    intro j member
    simpa [cmds] using member
  have rest : (s.linkCmd i waitPush).nextTkn = s.nextTkn + 1 ∧
      (s.linkCmd i waitPush).queueSz = s.queueSz + 1 ∧
      (s.linkCmd i waitPush).maxQueueSz = s.maxQueueSz ∧
      (s.linkCmd i waitPush).pushed = s.pushed := by
    unfold CmdMgr.linkCmd
    rw [if_neg new]
    exact ⟨rfl, rfl, rfl, rfl⟩
  obtain ⟨tkn, size, max, pushed⟩ := rest
  constructor
  · rw [max]
    exact h.room
  · rw [size, cmds, h.count]
    simp
  · rw [max, cmds]
    simpa using space
  · rw [cmds, List.pairwise_append]
    refine ⟨?_, List.pairwise_singleton _ _, fun a linked b last => ?_⟩
    · apply h.queued.imp_of_mem
      intro a b linked other less
      rwa [others a linked, others b other]
    · obtain rfl := List.mem_singleton.mp last
      rw [others a linked, self]
      exact h.fresh a linked
  · intro j member
    rw [tkn]
    obtain linked | rfl := members j member
    · rw [others j linked]
      exact (h.fresh j linked).trans (Nat.lt_succ_self _)
    · rw [self]
      exact Nat.lt_succ_self _
  · intro k member
    rw [tkn]
    exact (h.old k (pushed ▸ member)).trans (Nat.lt_succ_self _)
  · rw [pushed]
    exact h.inOrder
  · intro a first b second
    obtain linked | rfl := members a first
    · obtain other | rfl := members b second
      · rw [others a linked, others b other]
        exact h.blocked a linked b other
      · rw [others a linked, self]
        exact fun _ waits => behind a linked waits
    · obtain other | rfl := members b second
      · rw [self, others b other]
        exact fun less => absurd (less.trans (h.fresh b other)) (lt_irrefl _)
      · exact fun less => absurd less (lt_irrefl _)
  · intro j member
    rw [pushed]
    obtain linked | rfl := members j member
    · rw [others j linked]
      exact h.unpushed j linked
    · rw [self]
      exact fun _ => ⟨rfl, oldest⟩
  · intro j member
    rw [pushed]
    obtain linked | rfl := members j member
    · rw [others j linked]
      exact h.answered j linked
    · rw [self]
      exact fun done => by cases done
  · intro j member
    rw [pushed]
    obtain linked | rfl := members j member
    · rw [others j linked]
      exact h.turn j linked
    · rw [self]
      exact fun _ => h.old

/-- A push clears `WAIT_PUSH` of a command behind which nothing older waits. -/
theorem push (h : Line s) (linked : i ∈ s.cmds) (unsent : (s.array i).tkn ∉ s.pushed)
    (ahead : ∀ j ∈ s.cmds, (s.array j).tkn < (s.array i).tkn → (s.array j).flags.waiting = false)
    (queue : s'.queue =
      (s.queueSz, s.maxQueueSz, s.nextTkn, s.cmds, s.pushed ++ [(s.array i).tkn]))
    (array : s'.array = Function.update s.array i
      { s.array i with flags := { (s.array i).flags with waitPush := false } }) : Line s' := by
  simp only [CmdMgr.queue, Prod.mk.injEq] at queue
  obtain ⟨size, max, tkn, cmds, pushed⟩ := queue
  have self : s'.array i = { s.array i with
      flags := { (s.array i).flags with waitPush := false } } := by
    rw [array, Function.update_self]
  have others : ∀ j, j ≠ i → s'.array j = s.array j := fun j other => by
    rw [array, Function.update_of_ne other]
  have tkns : ∀ j, (s'.array j).tkn = (s.array j).tkn := by
    intro j
    by_cases here : j = i
    · rw [here, self]
    · rw [others j here]
  have cfms : ∀ j, (s'.array j).flags.waitCfm = (s.array j).flags.waitCfm := by
    intro j
    by_cases here : j = i
    · rw [here, self]
    · rw [others j here]
  have later : ∀ j ∈ s.cmds, j ≠ i → (s.array j).tkn ∉ s.pushed →
      (s.array i).tkn < (s.array j).tkn := by
    intro j other ne unsent
    have differ := h.apart linked other (Ne.symm ne)
    by_contra notLess
    have less : (s.array j).tkn < (s.array i).tkn := by omega
    have quiet := ahead j other less
    simp only [CmdFlags.waiting, Bool.or_eq_false_iff] at quiet
    exact unsent (h.answered j other quiet.2)
  have unpushed : ∀ j ∈ s.cmds, (s.array j).tkn ∉ s'.pushed →
      j ≠ i ∧ (s.array j).tkn ∉ s.pushed := by
    intro j other unsent
    simp only [pushed, List.mem_append, List.mem_singleton, not_or] at unsent
    exact ⟨fun same => unsent.2 (by rw [same]), unsent.1⟩
  constructor
  · rw [max]
    exact h.room
  · rw [size, cmds]
    exact h.count
  · rw [max, cmds]
    exact h.bound
  · simp only [cmds, tkns]
    exact h.queued
  · simp only [cmds, tkns, tkn]
    exact h.fresh
  · intro k member
    rw [tkn]
    rw [pushed, List.mem_append, List.mem_singleton] at member
    obtain before | rfl := member
    · exact h.old k before
    · exact h.fresh i linked
  · rw [pushed, List.pairwise_append]
    refine ⟨h.inOrder, List.pairwise_singleton _ _, fun k before l last => ?_⟩
    obtain rfl := List.mem_singleton.mp last
    exact h.turn i linked unsent k before
  · intro a first b second less waits
    rw [cmds] at first second
    rw [tkns, tkns] at less
    have waited : (s.array a).flags.waiting = true := by
      by_cases here : a = i
      · subst here
        rw [self] at waits
        simp only [CmdFlags.waiting, Bool.or_false, Bool.or_eq_true] at waits ⊢
        exact waits.elim (fun ack => .inl (.inl ack)) .inr
      · rwa [others a here] at waits
    by_cases here : b = i
    · subst here
      rw [ahead a first less] at waited
      cases waited
    · rw [others b here]
      exact h.blocked a first b second less waited
  · intro j member waits
    rw [cmds] at member
    by_cases here : j = i
    · rw [here, self] at waits
      cases waits
    · rw [others j here] at waits ⊢
      obtain ⟨cfm, unsent'⟩ := h.unpushed j member waits
      refine ⟨cfm, ?_⟩
      rw [pushed, List.mem_append, List.mem_singleton, not_or]
      exact ⟨unsent', h.apart member linked here⟩
  · intro j member done
    rw [cmds] at member
    rw [cfms] at done
    rw [tkns, pushed]
    exact List.mem_append_left _ (h.answered j member done)
  · intro j member unsent' k before
    rw [cmds] at member
    rw [tkns] at unsent' ⊢
    obtain ⟨ne, missing⟩ := unpushed j member unsent'
    rw [pushed, List.mem_append, List.mem_singleton] at before
    obtain before | rfl := before
    · exact h.turn j member missing k before
    · exact later j member ne missing

/-- Unlinking a command of the list. -/
theorem unlink (h : Line s) (linked : i ∈ s.cmds) : Line (s.unlinkCmd i) := by
  have less : ∀ j ∈ s.cmds.erase i, j ∈ s.cmds := fun j => List.mem_of_mem_erase
  have bound := h.bound
  unfold CmdMgr.unlinkCmd
  rw [if_pos linked]
  constructor
  · exact h.room
  · exact (congrArg (· - 1) h.count).trans (List.length_erase_of_mem linked).symm
  · exact (List.length_erase_le).trans bound
  · exact h.queued.sublist List.erase_sublist
  · exact fun j member => h.fresh j (less j member)
  · exact h.old
  · exact h.inOrder
  · exact fun a first b second => h.blocked a (less a first) b (less b second)
  · exact fun j member => h.unpushed j (less j member)
  · exact fun j member => h.answered j (less j member)
  · exact fun j member => h.turn j (less j member)

/-- A confirmation of a command that has been pushed. -/
theorem confirm (h : Line s) (linked : i ∈ s.cmds) (sent : (s.array i).tkn ∈ s.pushed)
    (queue : s'.queue = s.queue)
    (self : (s'.array i).place =
      ((s.array i).tkn, { (s.array i).flags with waitCfm := false, done := false }))
    (others : ∀ j, j ≠ i → s'.array j = s.array j) : Line s' := by
  simp only [CmdMgr.queue, Prod.mk.injEq] at queue
  obtain ⟨size, max, tkn, cmds, pushed⟩ := queue
  have tkns : ∀ j, (s'.array j).tkn = (s.array j).tkn := by
    intro j
    by_cases here : j = i
    · rw [here]
      exact congrArg (·.1) self
    · rw [others j here]
  have pushes : ∀ j, (s'.array j).flags.waitPush = (s.array j).flags.waitPush := by
    intro j
    by_cases here : j = i
    · rw [here]
      exact congrArg (·.2.waitPush) self
    · rw [others j here]
  have waited : ∀ j, (s'.array j).flags.waiting = true → (s.array j).flags.waiting = true := by
    intro j waits
    by_cases here : j = i
    · subst here
      have shape : (s'.array j).flags.waiting =
          ((s.array j).flags.waitAck || (s.array j).flags.waitPush || false) :=
        congrArg (·.2.waiting) self
      rw [shape, Bool.or_false] at waits
      simp only [CmdFlags.waiting, waits, Bool.true_or]
    · rwa [others j here] at waits
  constructor
  all_goals simp only [size, max, tkn, cmds, pushed, tkns, pushes]
  · exact h.room
  · exact h.count
  · exact h.bound
  · exact h.queued
  · exact h.fresh
  · exact h.old
  · exact h.inOrder
  · exact fun a first b second less waits => h.blocked a first b second less (waited a waits)
  · intro j member waits
    have ne : j ≠ i := fun same => (h.unpushed j member waits).2 (same ▸ sent)
    rw [others j ne]
    exact h.unpushed j member waits
  · intro j member done
    by_cases here : j = i
    · rwa [here]
    · rw [others j here] at done
      exact h.answered j member done
  · exact h.turn

end Line

/-- A step moves neither the command of the slot nor what its thread relies on. -/
structure Undisturbed (s s' : CmdMgr) (j : Slot) : Prop where
  reqCfm : (s'.array j).flags.reqCfm = (s.array j).flags.reqCfm
  waitPush : (s'.array j).flags.waitPush = (s.array j).flags.waitPush
  linked : j ∈ s.cmds → j ∈ s'.cmds
  first : s.cmds.head? = some j → s'.cmds.head? = some j
  unsent : j ∈ s.cmds → (s.array j).tkn ∉ s.pushed → (s'.array j).tkn ∉ s'.pushed

theorem Undisturbed.trans {s t u : CmdMgr} {j : Slot} (h : Undisturbed s t j)
    (k : Undisturbed t u j) : Undisturbed s u j :=
  ⟨k.reqCfm.trans h.reqCfm, k.waitPush.trans h.waitPush, fun linked => k.linked (h.linked linked),
    fun first => k.first (h.first first),
    fun linked unsent => k.unsent (h.linked linked) (h.unsent linked unsent)⟩

theorem Placed.frame {s s' : CmdMgr} {t : Point} (h : Placed s t)
    (calm : ∀ j, t.slot = some j → Undisturbed s s' j) : Placed s' t := by
  cases t with
  | queue call j =>
      have same := (calm j rfl).reqCfm
      exact same.trans h
  | forceDefer call j =>
      have same := (calm j rfl).reqCfm
      exact same.trans h
  | push call j => exact ⟨(calm j rfl).linked h.1, (calm j rfl).unsent h.1 h.2⟩
  | wait call j => exact (calm j rfl).linked h
  | completed call j => exact (calm j rfl).linked h
  | timedOut call j => exact (calm j rfl).linked h
  | taskWait j => exact (calm j rfl).linked h
  | taskCompleted j => exact (calm j rfl).linked h
  | taskTimedOut j => exact (calm j rfl).linked h
  | taskPush j => exact ⟨(calm j rfl).first h.1, (calm j rfl).waitPush.trans h.2⟩
  | _ => trivial

theorem Plain.undisturbed {s s' : CmdMgr} (h : Plain s s') (j : Slot) : Undisturbed s s' j := by
  obtain ⟨queue, place⟩ := h
  simp only [CmdMgr.queue, Prod.mk.injEq] at queue
  obtain ⟨-, -, -, cmds, pushed⟩ := queue
  refine ⟨congrArg (·.2.reqCfm) (place j), congrArg (·.2.waitPush) (place j), ?_, ?_, ?_⟩
  · rw [cmds]
    exact id
  · rw [cmds]
    exact id
  · rw [pushed, show (s'.array j).tkn = (s.array j).tkn from congrArg (·.1) (place j)]
    exact fun _ => id

section

variable {s s' : CmdMgr} {t : Point} {others threads : List Point} {choice : WaitEnd}
  {next : Option Point} {i : Slot}

/-- A step that moves no command leaves every thread where it was. -/
theorem Plain.keeps (plain : Plain s s') (h : accounting.Holds s (t :: others))
    (placed : ∀ u ∈ next, Placed s u) : accounting.Keeps others (s', next) := by
  have calm : ∀ u, Placed s u → Placed s' u := fun u ok =>
    ok.frame fun j _ => plain.undisturbed j
  exact ⟨h.1.congr plain.queue fun j _ => plain.place j, fun u new => calm u (placed u new),
    fun u other => calm u (h.2 u (by simp [other]))⟩

/-- A step on the slot of the thread. -/
theorem Line.keeps (owned : Owned s (t :: others)) (h : accounting.Holds s (t :: others))
    (held : t.slot = some i) (line : Line s') (calm : ∀ j, j ≠ i → Undisturbed s s' j)
    (placed : ∀ u ∈ next, Placed s' u) : accounting.Keeps others (s', next) := by
  refine ⟨line, placed, fun u other => (h.2 u (by simp [other])).frame fun j slot => calm j ?_⟩
  intro same
  exact owned.held_apart held u other (same ▸ slot)

theorem linkCmd_undisturbed (new : i ∉ s.cmds) (waitPush : Bool) {j : Slot}
    (other : j ≠ i) : Undisturbed s (s.linkCmd i waitPush) j := by
  have here := (s.linkCmd_local i waitPush).array j other
  have cmds := (s.linkCmd_of_notMem new waitPush).1
  have pushed : (s.linkCmd i waitPush).pushed = s.pushed := by
    unfold CmdMgr.linkCmd
    rw [if_neg new]
    rfl
  refine ⟨by rw [here], by rw [here], fun linked => ?_, fun first => ?_, fun _ => ?_⟩
  · rw [cmds]
    exact List.mem_append_left _ linked
  · rw [cmds, List.head?_append, first]
    rfl
  · rw [here, pushed]
    exact id

theorem unlinkCmd_undisturbed {j : Slot} (other : j ≠ i) : Undisturbed s (s.unlinkCmd i) j := by
  have pushed : (s.unlinkCmd i).pushed = s.pushed := by
    unfold CmdMgr.unlinkCmd
    split <;> rfl
  refine ⟨by rw [s.unlinkCmd_array], by rw [s.unlinkCmd_array], fun linked => ?_,
    fun first => ?_, fun _ => ?_⟩
  · unfold CmdMgr.unlinkCmd
    split
    · exact (List.mem_erase_of_ne other).mpr linked
    · exact linked
  · unfold CmdMgr.unlinkCmd
    split
    · obtain ⟨rest, shape⟩ := List.head?_eq_some_iff.mp first
      simp [shape, other]
    · exact first
  · rw [s.unlinkCmd_array, pushed]
    exact id

/-- A push of the command of another slot. -/
theorem push_undisturbed (h : Line s) (linked : i ∈ s.cmds)
    (cmds : s'.cmds = s.cmds) (pushed : s'.pushed = s.pushed ++ [(s.array i).tkn]) {j : Slot}
    (other : j ≠ i) (same : s'.array j = s.array j) : Undisturbed s s' j := by
  refine ⟨by rw [same], by rw [same], ?_, ?_, fun member unsent => ?_⟩
  · rw [cmds]
    exact id
  · rw [cmds]
    exact id
  · rw [same, pushed, List.mem_append, List.mem_singleton, not_or]
    exact ⟨unsent, h.apart member linked other⟩

theorem fillCmd_keeps (owns : ownership.Holds s (t :: others))
    (h : accounting.Holds s (t :: others)) (held : t.slot = some i) (detached : t.detached = true)
    (call : Call) (placed : ∀ u ∈ next, Placed (s.fillCmd i call) u) :
    accounting.Keeps others (s.fillCmd i call, next) := by
  have new := (owns.2 t (by simp)).detached i held detached
  have elsewhere : ∀ j, j ≠ i → (s.fillCmd i call).array j = s.array j :=
    fun j other => s.modify_other i _ other
  refine Line.keeps owns.1 h held (h.1.congr rfl fun j linked => ?_) (fun j other => ?_) placed
  · rw [elsewhere j fun same => new (same ▸ linked)]
  · have same := elsewhere j other
    exact ⟨by rw [same], by rw [same], id, id, fun _ => by rw [same]; exact id⟩

theorem pushCmd_queue (s : CmdMgr) (i : Slot) : (s.pushCmd i).queue =
    (s.queueSz, s.maxQueueSz, s.nextTkn, s.cmds, s.pushed ++ [(s.array i).tkn]) := by
  have plain := (Plain.cmdTx s (s.array i).a2eMsg).queue
  simp only [CmdMgr.queue, Prod.mk.injEq] at plain
  obtain ⟨size, max, tkn, cmds, pushed⟩ := plain
  simp only [CmdMgr.pushCmd, CmdMgr.queue, size, max, tkn, cmds, pushed]

theorem accounting_keeps (owns : ownership.Holds s (t :: others))
    (h : accounting.Holds s (t :: others)) (acts : CmdMgr.Acts s t choice s' next) :
    accounting.Keeps others (s', next) := by
  have owned : Owned s (t :: others) := owns.1
  have own : Owns s t := owns.2 t (by simp)
  have line : Line s := h.1
  have here : Placed s t := h.2 t (by simp)
  cases acts with
  | enter up => exact (Plain.refl s).keeps h (Threads.moves trivial)
  | enterDown down => exact Plain.keeps (s := s) ⟨rfl, fun _ => rfl⟩ h (by simp)
  | malloc found => exact (Plain.modify s _ _ rfl).keeps h (Threads.moves trivial)
  | mallocNull full => exact Plain.keeps (s := s) ⟨rfl, fun _ => rfl⟩ h (by simp)
  | fillDirect wants => exact fillCmd_keeps owns h rfl rfl _ (Threads.moves trivial)
  | fillQueue wants entry =>
      exact fillCmd_keeps owns h rfl rfl _ (Threads.moves (by simp [Placed, CmdMgr.fillCmd, wants]))
  | fillDefer wants entry =>
      exact fillCmd_keeps owns h rfl rfl _ (Threads.moves (by simp [Placed, CmdMgr.fillCmd, wants]))
  | direct => exact (Plain.refl s).keeps h (Threads.moves trivial)
  | directSend entry => exact (Plain.cmdTx s _).keeps h (Threads.moves trivial)
  | queueReject rejected => exact (Plain.modify s _ _ rfl).keeps h (Threads.moves trivial)
  | forceReject rejected => exact (Plain.modify s _ _ rfl).keeps h (Threads.moves trivial)
  | @queueDefer call i choice unpolled free defers =>
      have new := own.detached i rfl rfl
      have linked := line.link new free here (own.plain i rfl rfl) true fun _ _ _ => rfl
      have plain := Plain.report (s.linkCmd i true) i 0 true
      refine Line.keeps owned h rfl (linked.congr plain.queue fun j _ => plain.place j)
        (fun j other => ?_) (Threads.moves trivial)
      exact (linkCmd_undisturbed new true other).trans (plain.undisturbed j)
  | @queuePush call i choice unpolled free pushes =>
      have new := own.detached i rfl rfl
      simp only [CmdMgr.defers, Bool.or_eq_false_iff] at pushes
      have quiet := line.quiet pushes.1.1
      have linked := line.link new free here (own.plain i rfl rfl) false fun j member waits =>
        absurd waits (by simp [quiet j member])
      refine Line.keeps owned h rfl linked (fun j other => linkCmd_undisturbed new false other) ?_
      rintro u ⟨⟩
      have unsent : s.nextTkn ∉ s.pushed := fun member => absurd (line.old _ member) (lt_irrefl _)
      simp only [Placed, CmdMgr.linkCmd, if_neg new, CmdMgr.modify_self]
      exact ⟨by simp, unsent⟩
  | @forceDefer call i choice free =>
      have new := own.detached i rfl rfl
      have linked := line.link new free here (own.plain i rfl rfl) true fun _ _ _ => rfl
      exact Line.keeps owned h rfl linked (fun j other => linkCmd_undisturbed new true other)
        (Threads.moves trivial)
  | wake work => exact Plain.keeps (s := s) ⟨rfl, fun _ => rfl⟩ h (by simp)
  | @push call i choice =>
      have queue := pushCmd_queue s i
      obtain ⟨linked, unsent⟩ : i ∈ s.cmds ∧ (s.array i).tkn ∉ s.pushed := here
      have plain : (s.array i).flags.waitPush = false := own.plain i rfl rfl
      have pushed : Line (s.pushCmd i) := by
        refine line.push linked unsent (fun j member less => ?_) queue ?_
        · by_contra waits
          have push := line.blocked j member i linked less (by simpa using waits)
          rw [plain] at push
          cases push
        · rw [s.pushCmd_array, ← plain, Function.update_eq_self]
      simp only [CmdMgr.queue, Prod.mk.injEq] at queue
      obtain ⟨-, -, -, cmds, sent⟩ := queue
      refine Line.keeps owned h rfl pushed (fun j other => ?_) ?_
      · exact push_undisturbed line linked cmds sent other (by rw [s.pushCmd_array])
      · rintro u ⟨⟩
        simpa only [Placed, s.pushCmd_cmds] using linked
  | waitCompleted ready => exact (Plain.modify s _ _ rfl).keeps h (Threads.moves here)
  | waitTimeout none => exact (Plain.refl s).keeps h (Threads.moves here)
  | waitKilled none => exact (Plain.refl s).keeps h (Threads.moves here)
  | @completed call i choice =>
      have unlinked := line.unlink (show i ∈ s.cmds from here)
      have plain := Plain.report (s.unlinkCmd i) i 0 false
      refine Line.keeps owned h rfl (unlinked.congr plain.queue fun j _ => plain.place j)
        (fun j other => ?_) (Threads.moves trivial)
      exact (unlinkCmd_undisturbed other).trans (plain.undisturbed j)
  | completedFree => exact (Plain.modify s _ _ rfl).keeps h (Threads.moves trivial)
  | completedWake work => exact Plain.keeps (s := s) ⟨rfl, fun _ => rfl⟩ h (by simp)
  | timedOut =>
      exact ((Plain.timeout s _ (owned.sane _).nonblock).trans (Plain.report _ _ _ _)).keeps h
        (Threads.moves trivial)
  | errorFree => exact (Plain.modify s _ _ rfl).keeps h (by simp)
  | taskIdle none => exact (Plain.refl s).keeps h (by simp)
  | taskTake found => exact (Plain.refl s).keeps h (Threads.moves (nextPush_spec found))
  | @taskPush i choice =>
      obtain ⟨first, waits⟩ : s.cmds.head? = some i ∧ (s.array i).flags.waitPush = true := here
      have linked := List.mem_of_mem_head? first
      have unsent := (line.unpushed i linked waits).2
      have queue := pushCmd_queue
        (s.modify i fun c => { c with flags := { c.flags with waitPush := false } }) i
      rw [CmdMgr.modify_self] at queue
      have pushed := line.push linked unsent (fun j member less => absurd
        (line.head_oldest first j member) (by omega)) queue (by rw [CmdMgr.pushCmd_array]; rfl)
      simp only [CmdMgr.queue, Prod.mk.injEq] at queue
      obtain ⟨-, -, -, cmds, sent⟩ := queue
      refine Line.keeps owned h rfl pushed (fun j other => ?_) ?_
      · refine push_undisturbed line linked cmds sent other ?_
        rw [CmdMgr.pushCmd_array, s.modify_other i _ other]
      · rintro u ⟨⟩
        simpa only [Placed, CmdMgr.pushCmd_cmds, CmdMgr.modify_cmds] using linked
  | taskWaitCompleted ready => exact (Plain.modify s _ _ rfl).keeps h (Threads.moves here)
  | taskWaitTimeout none => exact (Plain.refl s).keeps h (Threads.moves here)
  | @taskCompleted i choice =>
      exact Line.keeps owned h rfl (line.unlink (show i ∈ s.cmds from here))
        (fun j other => unlinkCmd_undisturbed other) (Threads.moves trivial)
  | taskFree => exact (Plain.modify s _ _ rfl).keeps h (Threads.moves trivial)
  | taskTimedOut =>
      exact (Plain.timeout s _ (owned.sane _).nonblock).keeps h (Threads.moves trivial)

/-- A confirmation found by its message, in a list where it has been pushed. -/
theorem confirmCmd_keeps (sane : Sane (s.array i)) (h : accounting.Holds s threads)
    (linked : i ∈ s.cmds) (sent : (s.array i).tkn ∈ s.pushed) :
    accounting.Keeps threads (s.confirmCmd i, none) := by
  obtain ⟨cmds, array⟩ := s.confirmCmd_self i sane.nonblock sane.waitAck
  have self := congrFun array i
  rw [Function.update_self] at self
  have others : ∀ j, j ≠ i → (s.confirmCmd i).array j = s.array j := fun j other => by
    rw [array, Function.update_of_ne other]
  have queue : (s.confirmCmd i).queue = s.queue := by
    simp only [CmdMgr.confirmCmd]
    split <;> rfl
  refine ⟨h.1.confirm linked sent queue (by rw [self]; rfl) others, by simp, fun u member => ?_⟩
  apply (h.2 u member).frame
  intro j slot
  have pushed : (s.confirmCmd i).pushed = s.pushed := congrArg (·.2.2.2.2) queue
  by_cases here : j = i
  · subst here
    exact ⟨by rw [self], by rw [self], by rw [cmds]; exact id, by rw [cmds]; exact id,
      fun _ unsent => absurd sent unsent⟩
  · have same := others j here
    exact ⟨by rw [same], by rw [same], by rw [cmds]; exact id, by rw [cmds]; exact id,
      fun _ => by rw [same, pushed]; exact id⟩

theorem accounting_event {e : CmdEvent} {after : CmdMgr × Option Point}
    (owns : ownership.Holds s threads) (h : accounting.Holds s threads)
    (ok : orderly ⟨s, threads⟩ (.event e) = true) (went : s.event threads e = some after) :
    accounting.Keeps threads after := by
  have still : ∀ {s' next}, Plain s s' → (∀ u ∈ next, Placed s u) →
      accounting.Keeps threads (s', next) := fun plain placed => by
    have calm : ∀ u, Placed s u → Placed _ u := fun u ok => ok.frame fun j _ => plain.undisturbed j
    exact ⟨h.1.congr plain.queue fun j _ => plain.place j, fun u new => calm u (placed u new),
      fun u member => calm u (h.2 u member)⟩
  unfold CmdMgr.event at went
  split at went
  · cases went
  cases e with
  | call call =>
      obtain rfl := Option.some.inj went
      exact still (.refl s) (Threads.moves trivial)
  | startWork =>
      simp only [Option.ite_none_right_eq_some, Option.some.injEq] at went
      obtain ⟨-, rfl⟩ := went
      exact still ⟨rfl, fun _ => rfl⟩ (Threads.moves trivial)
  | msgind m =>
      obtain rfl := Option.some.inj went
      simp only [CmdMgr.cmdMgrMsgind]
      split
      · exact still (.refl s) (by simp)
      · rename_i i found
        have linked := List.mem_of_find?_eq_some found
        have sent : (s.array i).tkn ∈ s.pushed := by simpa [orderly, found] using ok
        have copied : accounting.Holds { s with copies := s.copies ++ (s.copyTarget m).toList }
            threads :=
          ⟨h.1.congr rfl fun _ _ => rfl, fun u member => (h.2 u member).frame fun _ _ =>
            ⟨rfl, rfl, id, id, fun _ => id⟩⟩
        exact confirmCmd_keeps (owns.1.sane i) copied linked sent
  | drain =>
      obtain rfl := Option.some.inj went
      have empty : s.cmds = [] := by simpa [orderly] using ok
      refine still ⟨?_, fun j => ?_⟩ (by simp)
      · simp [CmdMgr.cmdMgrDrain, CmdMgr.queue, empty]
      · simp [CmdMgr.cmdMgrDrain, empty]
  | bus up =>
      obtain rfl := Option.some.inj went
      exact still ⟨rfl, fun _ => rfl⟩ (by simp)

end

theorem CmdMgr.target_awaits {s : CmdMgr} {i : Slot} {m : E2aMsg} (target : s.cfmTarget m = some i)
    (sent : (s.array i).tkn ∈ s.pushed) : s.Awaits i ∧ s.Expects m i := by
  have linked := List.mem_of_find?_eq_some target
  have test := List.find?_some target
  simp only [Bool.and_eq_true, beq_iff_eq] at test
  exact ⟨⟨linked, sent, test.1.2⟩, test.1.1, test.2⟩

namespace Line

variable {s : CmdMgr} {i j : Slot}

/-- A pushed command that waits is the only one. -/
theorem awaits_alone (h : Line s) (first : s.Awaits i) (second : s.Awaits j) : i = j := by
  obtain ⟨linked, sent, waits⟩ := first
  obtain ⟨linked', sent', waits'⟩ := second
  have waiting : ∀ k, (s.array k).flags.waitCfm = true → (s.array k).flags.waiting = true :=
    fun k cfm => by simp [CmdFlags.waiting, cfm]
  by_contra ne
  have differ := h.apart linked linked' ne
  obtain less | greater := Nat.lt_or_gt_of_ne differ
  · have push := h.blocked i linked j linked' less (waiting i waits)
    exact (h.unpushed j linked' push).2 sent'
  · have push := h.blocked j linked' i linked greater (waiting j waits')
    exact (h.unpushed i linked push).2 sent

/-- What waits for a message ahead of a pushed command would hold that back. -/
theorem target_found (h : Line s) {m : E2aMsg} (awaits : s.Awaits i) (expects : s.Expects m i) :
    s.cfmTarget m = some i := by
  obtain ⟨linked, sent, waits⟩ := awaits
  have some : (s.cfmTarget m).isSome = true := by
    rw [CmdMgr.cfmTarget, List.find?_isSome]
    exact ⟨i, linked, by simp [expects.1, expects.2, waits]⟩
  obtain ⟨f, target⟩ := Option.isSome_iff_exists.mp some
  obtain ⟨test, before, after, whole, missed⟩ := List.find?_eq_some_iff_append.mp target
  simp only [Bool.and_eq_true, beq_iff_eq] at test
  have place := linked
  rw [whole, List.mem_append, List.mem_cons] at place
  obtain ahead | rfl | behind := place
  · have miss := missed i ahead
    simp [expects.1, expects.2, waits] at miss
  · exact target
  · have queued := h.queued
    rw [whole, List.pairwise_append, List.pairwise_cons] at queued
    have less := queued.2.1.1 i behind
    have push := h.blocked f (by simp [whole]) i linked less (by simp [CmdFlags.waiting, test.1.2])
    exact absurd sent (h.unpushed i linked push).2

theorem accounted (h : Line s) (sane : ∀ i, Sane (s.array i)) : Accounted s := by
  refine ⟨h.count, h.count ▸ h.bound, fun i j => h.awaits_alone, h.queued, h.inOrder, h.turn,
    fun m i target sent => ?_, fun m i => h.target_found⟩
  obtain ⟨-, array⟩ := CmdMgr.confirmCmd_self
    { s with copies := s.copies ++ (s.copyTarget m).toList } i (sane i).nonblock (sane i).waitAck
  have result : (s.cmdMgrMsgind m).array = Function.update s.array i
      { s.array i with
        flags := { (s.array i).flags with waitCfm := false, done := true }
        result := 0
        complete := (s.array i).complete + 1 } := by
    rw [← array]
    simp only [CmdMgr.cmdMgrMsgind, target]
  have awaits := CmdMgr.target_awaits target sent
  refine ⟨awaits, fun j other _ => ?_, ?_, ?_, fun j other => ?_⟩
  · rw [h.awaits_alone awaits.1 other]
  · rw [result, Function.update_self]
  · rw [result, Function.update_self]
  · rw [result, Function.update_of_ne other]

end Line

/-- While the list is drained only when empty, no linked slot is handed out again
    and the firmware confirms only what it was sent, the queue is in order. -/
theorem queue_accounting {c : Threads.Config CmdMgr Point}
    (run : Run.Reachable CmdMgr.program.step (fun c l => orderly c l = true)
      ⟨rwnxCmdMgrInit, []⟩ c) : Accounted c.shared := by
  have holds : (ownership.and accounting).Holds c.shared c.threads := by
    apply (ownership.and accounting).invariant _ _ _ _ run
    · intro s ts us same ⟨owned, line⟩
      exact ⟨owned.perm same, line⟩
    · exact ⟨owned_init, Line.init⟩
    · intro c e after holds ok went
      exact (ownership_event holds.left went).and (accounting_event holds.left holds.right ok went)
    · intro c t choice after holds ok went
      have acts : CmdMgr.Acts c.shared t choice after.1 after.2 :=
        (CmdMgr.action_cases
          (show c.shared.action (c.threads.erase t) t choice = some after from went)).2
      refine (ownership_keeps holds.left acts fun call same i found => ?_).and
        (accounting_keeps holds.left holds.right acts)
      subst same
      simpa [orderly, found] using ok
  exact holds.right.1.accounted holds.left.1.sane

/-- Two calls: the second waits for its push until the first has unlinked its
    command. -/
def secondRun : List CmdLabel :=
  callRun (sampleCall none) (slot 0) ++
    [.event (.call (sampleCall none)), .run (.enter (sampleCall none)) .completed,
      .run (.malloc (sampleCall none)) .completed, .run (.fill (sampleCall none) (slot 1)) .completed,
      .run (.queue (sampleCall none) (slot 1)) .completed,
      .event (.msgind ⟨3, 0, fun _ => true⟩), .run (.wait (sampleCall none) (slot 0)) .completed,
      .run (.completed (sampleCall none) (slot 0)) .completed]

theorem queue_accounting_deferred : ∃ c,
    Run.exec CmdMgr.program.step ⟨rwnxCmdMgrInit, []⟩ secondRun = some c ∧
      c.shared.cmds = [slot 1] ∧ c.shared.queueSz = 1 ∧ c.shared.pushed = [0] ∧
      Accounted c.shared :=
  ⟨_, rfl, rfl, rfl, rfl, queue_accounting (.exec_guarded (fun _ _ ok => ok) secondRun .init rfl
    (by decide))⟩

/-- A list that is drained while a command waits keeps its count. -/
theorem drain_keeps_count : ¬ ∀ c : Threads.Config CmdMgr Point,
    Run.Reachable CmdMgr.program.step Run.Free ⟨rwnxCmdMgrInit, []⟩ c → Accounted c.shared := by
  intro accounted
  have drained := accounted _
    (.exec (callRun (sampleCall none) (slot 0) ++ [.event .drain]) .init rfl)
  cases drained.count

end Aic8800.Cmd
