import Aic8800.Loader.Commands

/-! # The lifetime of a loader command

As long as every wait ends with its completion, and no call meets a full queue, a
command is linked only while its call waits, and is freed once. The invariant is
about one call at a time: a step of a call leaves what concerns the others alone,
and a confirmation or a drain moves each command it finds from linked to completed.
-/

namespace Aic8800.Loader

open Lib Cmd

/-- The property: what is linked, freed and written in a state. -/
structure Accounted (s : CmdMgr) : Prop where
  linked : ∀ n ∈ s.cmds, ∀ ret, s.point n ≠ some (.returned ret)
  unfreed : ∀ n ∈ s.cmds, n ∉ s.kfrees
  freedOnce : ∀ n, s.kfrees.count n ≤ 1
  freed : ∀ n ret, s.point n = some (.returned ret) → s.kfrees.count n = s.kallocs.count n
  size : s.queueSz = s.cmds.length
  copies : ∀ copy ∈ s.copies, copy.2 = some .linked ∨ copy.2 = some .waiting
  sound : s.oops = false

namespace CmdMgr

/-- The condition: a wait is neither timed out nor interrupted, and the queue is not
    full when a command comes to it. -/
def Guard (s : CmdMgr) : Label → Prop
  | .timeout _ | .signal _ => False
  | .run n => s.point n = some .filled → s.cmds.length < rwnxCmdMaxQueued
  | _ => True

instance (s : CmdMgr) (l : Label) : Decidable (s.Guard l) :=
  match l with
  | .timeout _ | .signal _ => inferInstanceAs (Decidable False)
  | .run n => inferInstanceAs (Decidable (s.point n = some .filled → s.cmds.length < rwnxCmdMaxQueued))
  | .call _ | .msgind _ _ | .drain | .bus _ => inferInstanceAs (Decidable True)

end CmdMgr

/-! ## What concerns one call -/

structure View where
  point : Option Point
  cmd : RwnxCmd
  linked : Bool
  allocs : Nat
  frees : Nat

def CmdMgr.view (s : CmdMgr) (n : Nat) : View :=
  ⟨s.point n, s.cmd n, s.cmds.contains n, s.kallocs.count n, s.kfrees.count n⟩

/-- The command is allocated and waits for nothing but its confirmation. -/
structure View.Pending (v : View) : Prop where
  allocs : v.allocs = 1
  frees : v.frees = 0
  blocking : v.cmd.flags.nonblock = false
  pushed : v.cmd.flags.waitPush = false
  acked : v.cmd.flags.waitAck = false
  either : v.linked = true ∧ v.cmd.flags.waitCfm = true ∧ v.cmd.complete = 0 ∨
    v.linked = false ∧ v.cmd.complete = 1

/-- The invariant of a call. -/
def View.Ok (v : View) : Prop :=
  match v.point with
  | none | some (.called _) => v.linked = false ∧ v.allocs = 0 ∧ v.frees = 0
  | some .filled =>
      v.linked = false ∧ v.allocs = 1 ∧ v.frees = 0 ∧
        v.cmd.flags = ⟨false, true, false, false, false, false⟩
  | some .linked | some .waiting => v.Pending
  | some .timedOut => False
  | some .woken => v.linked = false ∧ v.allocs = 1 ∧ v.frees = 0
  | some (.returned _) => v.linked = false ∧ v.allocs = v.frees ∧ v.allocs ≤ 1

namespace View.Ok

variable {v : View}

/-- Only a call that waits has its command linked. -/
theorem of_linked (h : v.Ok) (linked : v.linked = true) :
    (v.point = some .linked ∨ v.point = some .waiting) ∧ v.Pending ∧
      v.cmd.flags.waitCfm = true ∧ v.cmd.complete = 0 := by
  have waits : v.Pending → v.cmd.flags.waitCfm = true ∧ v.cmd.complete = 0 := by
    intro pending
    cases pending.either with
    | inl on => exact on.2
    | inr off => exact absurd (linked.symm.trans off.1) (by simp)
  unfold View.Ok at h
  split at h
  · simp [linked] at h
  · simp [linked] at h
  · simp [linked] at h
  · rename_i at_
    exact ⟨.inl at_, h, waits h⟩
  · rename_i at_
    exact ⟨.inr at_, h, waits h⟩
  · exact h.elim
  · simp [linked] at h
  · simp [linked] at h

theorem frees_le (h : v.Ok) : v.frees ≤ 1 := by
  unfold View.Ok at h
  split at h
  · omega
  · omega
  · omega
  · have none := h.frees
    omega
  · have none := h.frees
    omega
  · exact h.elim
  · omega
  · omega

/-- A linked command that is completed. -/
theorem completed (h : v.Ok) (linked : v.linked = true) (cmd : RwnxCmd)
    (complete : cmd.complete = 1) (flags : cmd.flags.nonblock = false ∧
      cmd.flags.waitPush = false ∧ cmd.flags.waitAck = false) :
    View.Ok ⟨v.point, cmd, false, v.allocs, v.frees⟩ := by
  obtain ⟨waits, pending, -⟩ := h.of_linked linked
  have now : View.Pending ⟨v.point, cmd, false, v.allocs, v.frees⟩ :=
    ⟨pending.allocs, pending.frees, flags.1, flags.2.1, flags.2.2, .inr ⟨rfl, complete⟩⟩
  cases waits with
  | inl at_ => simpa only [View.Ok, at_] using now
  | inr at_ => simpa only [View.Ok, at_] using now

end View.Ok

theorem CmdMgr.touch_eq {s : CmdMgr} (clean : ∀ n ∈ s.cmds, n ∉ s.kfrees) : s.touch = s := by
  have none : s.cmds.any (s.kfrees.contains ·) = false := by
    apply List.any_eq_false.mpr
    intro n member
    simpa using clean n member
  unfold CmdMgr.touch
  rw [none, Bool.or_false]

/-! ## The invariant -/

structure Listed (s : CmdMgr) : Prop where
  nodup : s.cmds.Nodup
  size : s.queueSz = s.cmds.length
  small : s.cmds.length ≤ rwnxCmdMaxQueued
  bound : s.maxQueueSz = rwnxCmdMaxQueued

structure Sound (s : CmdMgr) : Prop where
  listed : Listed s
  views : ∀ n, (s.view n).Ok
  fresh : ∀ n, s.calls ≤ n → s.point n = none
  alive : s.state = .inited
  copies : ∀ copy ∈ s.copies, copy.2 = some .linked ∨ copy.2 = some .waiting
  sound : s.oops = false

theorem sound_init (bufs : Nat → List UInt8) : Sound (rwnxCmdMgrInit bufs) where
  listed := ⟨List.nodup_nil, rfl, Nat.zero_le _, rfl⟩
  views := fun _ => ⟨rfl, rfl, rfl⟩
  fresh := fun _ _ => rfl
  alive := rfl
  copies := fun _ member => by cases member
  sound := rfl

namespace Sound

variable {s t : CmdMgr} {n : Nat}

theorem of_mem (h : Sound s) (member : n ∈ s.cmds) :
    (s.point n = some .linked ∨ s.point n = some .waiting) ∧ (s.view n).Pending ∧
      (s.cmd n).flags.waitCfm = true ∧ (s.cmd n).complete = 0 :=
  (h.views n).of_linked (List.contains_iff_mem.mpr member)

theorem unfreed (h : Sound s) (member : n ∈ s.cmds) : n ∉ s.kfrees := by
  intro freed
  have none := (h.of_mem member).2.1.frees
  exact absurd (List.count_pos_iff.mpr freed) (by simp [CmdMgr.view] at none; omega)

theorem accounted (h : Sound s) : Accounted s where
  linked := by
    intro n member ret returned
    obtain ⟨at_ | at_, -⟩ := h.of_mem member
    · cases at_.symm.trans returned
    · cases at_.symm.trans returned
  unfreed := fun n member => h.unfreed member
  freedOnce := fun n => (h.views n).frees_le
  freed := by
    intro n ret returned
    have ok := h.views n
    simp only [View.Ok, CmdMgr.view, returned] at ok
    exact ok.2.1.symm
  size := h.listed.size
  copies := h.copies
  sound := h.sound

/-- Nothing in the list was freed. -/
theorem touch (h : Sound s) : s.touch = s := CmdMgr.touch_eq fun _ member => h.unfreed member

/-- What a step of call `n` leaves alone. -/
structure Apart (n : Nat) (s t : CmdMgr) : Prop where
  views : ∀ m, m ≠ n → t.view m = s.view m
  calls : t.calls = s.calls
  state : t.state = s.state
  bound : t.maxQueueSz = s.maxQueueSz
  oops : t.oops = s.oops
  copies : t.copies = s.copies

theorem Apart.trans {u : CmdMgr} (h : Apart n s t) (k : Apart n t u) : Apart n s u where
  views := fun m other => (k.views m other).trans (h.views m other)
  calls := k.calls.trans h.calls
  state := k.state.trans h.state
  bound := k.bound.trans h.bound
  oops := k.oops.trans h.oops
  copies := k.copies.trans h.copies

/-- The rule for a step of one call. -/
theorem apart (h : Sound s) (apart : Apart n s t) (started : n < s.calls) (mine : (t.view n).Ok)
    (nodup : t.cmds.Nodup) (size : t.queueSz = t.cmds.length)
    (small : t.cmds.length ≤ rwnxCmdMaxQueued) : Sound t where
  listed := ⟨nodup, size, small, apart.bound.trans h.listed.bound⟩
  views := by
    intro m
    by_cases same : m = n
    · rw [same]
      exact mine
    · rw [apart.views m same]
      exact h.views m
  fresh := by
    intro m late
    have other : m ≠ n := by
      have calls := apart.calls
      omega
    have same : t.point m = s.point m := congrArg View.point (apart.views m other)
    exact same.trans (h.fresh m (apart.calls ▸ late))
  alive := apart.state.trans h.alive
  copies := apart.copies ▸ h.copies
  sound := apart.oops.trans h.sound

/-- The rule for a step that leaves the list alone as well. -/
theorem apart_list (h : Sound s) (apart : Apart n s t) (started : n < s.calls)
    (mine : (t.view n).Ok) (list : t.cmds = s.cmds) (size : t.queueSz = s.queueSz) : Sound t :=
  h.apart apart started mine (list ▸ h.listed.nodup) (by rw [size, list, h.listed.size])
    (list ▸ h.listed.small)

end Sound

/-! ## Steps of one call -/

namespace CmdMgr

variable (s : CmdMgr) (n : Nat)

open Sound (Apart)

@[simp] theorem modify_cmd (f : RwnxCmd → RwnxCmd) : (s.modify n f).cmd n = f (s.cmd n) :=
  Function.update_self ..

@[simp] theorem move_point (p : Point) : (s.move n p).point n = some p := Function.update_self ..

theorem modify_apart (f : RwnxCmd → RwnxCmd) : Apart n s (s.modify n f) where
  views := by
    intro m other
    simp only [view, modify, Function.update_of_ne other]
  calls := rfl
  state := rfl
  bound := rfl
  oops := rfl
  copies := rfl

theorem move_apart (p : Point) : Apart n s (s.move n p) where
  views := by
    intro m other
    simp only [view, move, Function.update_of_ne other]
  calls := rfl
  state := rfl
  bound := rfl
  oops := rfl
  copies := rfl

theorem kfree_apart (unfreed : n ∉ s.kfrees) : Apart n s (s.kfree n) where
  views := by
    intro m other
    have same : (s.kfrees ++ [n]).count m = s.kfrees.count m := by
      simp [List.count_append, other.symm]
    simp only [view, kfree, same]
  calls := rfl
  state := rfl
  bound := rfl
  oops := by simp [kfree, unfreed]
  copies := rfl

theorem kzallocCmd_apart (send : Send) : Apart n s (s.kzallocCmd n send) where
  views := by
    intro m other
    have same : (s.kallocs ++ [n]).count m = s.kallocs.count m := by
      simp [List.count_append, other.symm]
    simp only [view, kzallocCmd, Function.update_of_ne other, same]
  calls := rfl
  state := rfl
  bound := rfl
  oops := rfl
  copies := rfl

theorem setCmdTx_apart (msg : Nat) : Apart n s (s.aicwfSetCmdTx msg) :=
  ⟨fun _ _ => rfl, rfl, rfl, rfl, rfl, rfl⟩

theorem linkCmd_apart (clean : s.touch = s) : Apart n s (s.linkCmd n) where
  views := by
    intro m other
    have same : (s.cmds ++ [n]).contains m = s.cmds.contains m := by simp [other]
    simp only [view, linkCmd, modify, Function.update_of_ne other, clean, same]
  calls := by simp only [linkCmd, modify, clean]
  state := by simp only [linkCmd, modify, clean]
  bound := by simp only [linkCmd, modify, clean]
  oops := by simp only [linkCmd, modify, clean]
  copies := by simp only [linkCmd, modify, clean]

theorem msgFree_apart (msg : Nat) : Apart n s (s.rwnxMsgFree msg) :=
  ⟨fun _ _ => rfl, rfl, rfl, rfl, rfl, rfl⟩

end CmdMgr

namespace Sound

variable {s : CmdMgr} {n : Nat}

theorem started (h : Sound s) {p : Point} (at_ : s.point n = some p) : n < s.calls := by
  apply Nat.lt_of_not_le
  intro late
  exact absurd at_ (by simp [h.fresh n late])

theorem startCall (h : Sound s) (send : Send) : Sound (s.startCall send) where
  listed := ⟨h.listed.nodup, h.listed.size, h.listed.small, h.listed.bound⟩
  views := by
    intro m
    have before := h.views m
    by_cases new : m = s.calls
    · simp only [View.Ok, CmdMgr.view, h.fresh m new.ge] at before
      simp only [View.Ok, CmdMgr.view, CmdMgr.startCall, new, Function.update_self]
      exact new ▸ before
    · simpa only [CmdMgr.view, CmdMgr.startCall, Function.update_of_ne new] using before
  fresh := by
    intro m late
    have late : s.calls + 1 ≤ m := late
    have other : m ≠ s.calls := by omega
    have before := h.fresh m (by omega)
    simpa only [CmdMgr.startCall, Function.update_of_ne other] using before
  alive := h.alive
  copies := h.copies
  sound := h.sound

/-- A call that has not allocated its command. -/
theorem of_called (h : Sound s) {send : Send} (at_ : s.point n = some (.called send)) :
    s.cmds.contains n = false ∧ s.kallocs.count n = 0 ∧ s.kfrees.count n = 0 := by
  have ok := h.views n
  simpa only [View.Ok, CmdMgr.view, at_] using ok

theorem rwnxSendMsg (h : Sound s) {send : Send} (at_ : s.point n = some (.called send)) :
    Sound (s.rwnxSendMsg n send) := by
  obtain ⟨out, allocs, frees⟩ := h.of_called at_
  have unfreed : n ∉ s.kfrees := List.count_eq_zero.mp frees
  have alloc : (s.kallocs ++ [n]).count n = 1 := by simp [List.count_append, allocs]
  unfold CmdMgr.rwnxSendMsg
  split
  · dsimp only
    have first := s.kzallocCmd_apart n send
    split
    · rename_i confirmed
      apply h.apart_list (first.trans (CmdMgr.move_apart _ n .filled)) (h.started at_)
      · simp only [View.Ok, CmdMgr.view, CmdMgr.move_point]
        exact ⟨out, alloc, frees, by simp [CmdMgr.move, CmdMgr.kzallocCmd, confirmed]⟩
      · rfl
      · rfl
    · have freed : (s.kfrees ++ [n]).count n = 1 := by simp [List.count_append, frees]
      have last := first.trans ((CmdMgr.setCmdTx_apart _ n n).trans (CmdMgr.kfree_apart _ n unfreed))
      apply h.apart_list (last.trans (CmdMgr.move_apart _ n (.returned 0))) (h.started at_)
      · simp only [View.Ok, CmdMgr.view, CmdMgr.move_point]
        exact ⟨out, alloc.trans freed.symm, alloc.le⟩
      · rfl
      · rfl
  · apply h.apart_list ((s.msgFree_apart n n).trans (CmdMgr.move_apart _ n (.returned 0)))
      (h.started at_)
    · simp only [View.Ok, CmdMgr.view, CmdMgr.move_point]
      exact ⟨out, allocs.trans frees.symm, allocs.le.trans (Nat.zero_le 1)⟩
    · rfl
    · rfl

theorem cmdMgrQueue (h : Sound s) (at_ : s.point n = some .filled)
    (room : s.cmds.length < rwnxCmdMaxQueued) : Sound (s.cmdMgrQueue n) := by
  have ok := h.views n
  simp only [View.Ok, CmdMgr.view, at_] at ok
  obtain ⟨out, allocs, frees, flags⟩ := ok
  have notFull : ¬ (s.cmds ≠ [] ∧ s.queueSz = s.maxQueueSz) := by
    intro full
    have size := h.listed.size
    have bound := h.listed.bound
    omega
  have pushed : s.defers = false := by
    unfold CmdMgr.defers
    cases last : s.cmds.getLast? with
    | none => rfl
    | some m =>
        have pending := (h.of_mem (List.mem_of_getLast? last)).2.1
        have acked : (s.cmd m).flags.waitAck = false := pending.acked
        have waits : (s.cmd m).flags.waitPush = false := pending.pushed
        simp only [Option.elim_some, acked, waits, Bool.or_false]
  unfold CmdMgr.cmdMgrQueue
  rw [if_neg (by simp [h.alive]), if_neg notFull, pushed, if_neg Bool.false_ne_true]
  have linked := (s.linkCmd_apart n h.touch).trans (CmdMgr.move_apart _ n .linked)
  have new : n ∉ s.cmds := fun member => by simp [member] at out
  apply h.apart linked (h.started at_)
  · simp only [View.Ok, CmdMgr.view, CmdMgr.move_point]
    simp only [CmdMgr.move, CmdMgr.linkCmd, CmdMgr.modify_cmd, h.touch, pushed, flags]
    refine ⟨allocs, frees, rfl, rfl, rfl, .inl ⟨?_, rfl, ?_⟩⟩
    · simp
    · simp
  · exact List.nodup_append.mpr ⟨h.listed.nodup, List.nodup_singleton n, by grind⟩
  · have size := h.listed.size
    simp only [rwnxCmdMaxQueued] at room
    simp only [CmdMgr.move, CmdMgr.linkCmd, CmdMgr.grown, List.length_append, List.length_singleton]
    rw [if_neg (by omega), size]
  · simp only [CmdMgr.move, CmdMgr.linkCmd, List.length_append, List.length_singleton]
    exact room

/-- A call whose command may be linked. -/
theorem of_pending (h : Sound s) (at_ : s.point n = some .linked ∨ s.point n = some .waiting) :
    (s.view n).Pending := by
  have ok := h.views n
  cases at_ with
  | inl at_ => simpa only [View.Ok, CmdMgr.view, at_] using ok
  | inr at_ => simpa only [View.Ok, CmdMgr.view, at_] using ok

theorem push (h : Sound s) (at_ : s.point n = some .linked) : Sound (s.push n) := by
  have pending := h.of_pending (.inl at_)
  have blocking : (s.cmd n).flags.nonblock = false := pending.blocking
  unfold CmdMgr.push
  dsimp only
  rw [if_neg (by simp [CmdMgr.aicwfSetCmdTx, CmdMgr.rwnxMsgFree, blocking])]
  have pushed := (s.setCmdTx_apart n (s.cmd n).a2eMsg).trans
    ((CmdMgr.msgFree_apart _ n (s.cmd n).a2eMsg).trans (CmdMgr.move_apart _ n .waiting))
  apply h.apart_list pushed (h.started at_)
  · simp only [View.Ok, CmdMgr.view, CmdMgr.move_point]
    exact ⟨pending.allocs, pending.frees, pending.blocking, pending.pushed, pending.acked,
      pending.either⟩
  · rfl
  · rfl

theorem wake (h : Sound s) (at_ : s.point n = some .waiting) (done : (s.cmd n).complete ≠ 0) :
    Sound ((s.modify n fun c => { c with complete := c.complete - 1 }).move n .woken) := by
  have pending := h.of_pending (.inr at_)
  have out : s.cmds.contains n = false := by
    cases pending.either with
    | inl on => exact absurd on.2.2 done
    | inr off => exact off.1
  apply h.apart_list ((s.modify_apart n _).trans (CmdMgr.move_apart _ n .woken)) (h.started at_)
  · simp only [View.Ok, CmdMgr.view, CmdMgr.move_point]
    exact ⟨out, pending.allocs, pending.frees⟩
  · rfl
  · rfl

theorem free (h : Sound s) (at_ : s.point n = some .woken) :
    Sound ((s.kfree n).move n (.returned 0)) := by
  have ok := h.views n
  simp only [View.Ok, CmdMgr.view, at_] at ok
  obtain ⟨out, allocs, frees⟩ := ok
  have freed : (s.kfrees ++ [n]).count n = 1 := by simp [List.count_append, frees]
  have gone := s.kfree_apart n (List.count_eq_zero.mp frees)
  apply h.apart_list (gone.trans (CmdMgr.move_apart _ n (.returned 0))) (h.started at_)
  · simp only [View.Ok, CmdMgr.view, CmdMgr.move_point]
    exact ⟨out, allocs.trans freed.symm, allocs.le⟩
  · rfl
  · rfl

/-! ## Confirmations and drains -/

/-- What completing a linked command leaves. -/
structure Completed (n : Nat) (s t : CmdMgr) : Prop where
  cmds : t.cmds = s.cmds.erase n
  queueSz : t.queueSz = CmdMgr.shrunk s.queueSz 1
  point : t.point = s.point
  kallocs : t.kallocs = s.kallocs
  kfrees : t.kfrees = s.kfrees
  calls : t.calls = s.calls
  state : t.state = s.state
  bound : t.maxQueueSz = s.maxQueueSz
  oops : t.oops = s.oops
  others : ∀ m, m ≠ n → t.cmd m = s.cmd m
  complete : (t.cmd n).complete = (s.cmd n).complete + 1
  flags : (t.cmd n).flags = { (s.cmd n).flags with waitCfm := false, done := true }
  copies : t.copies = s.copies ∨ t.copies = s.copies ++ [(n, s.point n)]

theorem unlinkCmd_eq {s : CmdMgr} (clean : ∀ n ∈ s.cmds, n ∉ s.kfrees) (member : n ∈ s.cmds) :
    s.unlinkCmd n = { s with cmds := s.cmds.erase n, queueSz := CmdMgr.shrunk s.queueSz 1 } := by
  have there : s.cmds.contains n = true := List.contains_iff_mem.mpr member
  simp only [CmdMgr.unlinkCmd, CmdMgr.touch_eq clean, there, Bool.not_true, Bool.or_false]

theorem cmdComplete_eq {s : CmdMgr} (clean : ∀ n ∈ s.cmds, n ∉ s.kfrees) (member : n ∈ s.cmds)
    (blocking : (s.cmd n).flags.nonblock = false) :
    s.cmdComplete n =
      { s with
        cmds := s.cmds.erase n
        queueSz := CmdMgr.shrunk s.queueSz 1
        cmd := Function.update s.cmd n (s.cmd n).finish } := by
  unfold CmdMgr.cmdComplete
  dsimp only
  rw [if_neg (by simp [blocking]), unlinkCmd_eq clean member]
  rfl

theorem copyParam_eq (s : CmdMgr) (n : Nat) (param : List UInt8) :
    ∃ bufs overrun copies, s.copyParam n param = { s with bufs, overrun, copies } ∧
      (copies = s.copies ∨ copies = s.copies ++ [(n, s.point n)]) := by
  unfold CmdMgr.copyParam
  split
  · exact ⟨s.bufs, s.overrun, s.copies, rfl, .inl rfl⟩
  · split
    · exact ⟨s.bufs, s.overrun, s.copies, rfl, .inl rfl⟩
    · exact ⟨_, _, _, rfl, .inr rfl⟩

theorem confirmCmd_completed (h : Sound s) (member : n ∈ s.cmds) (param : List UInt8) :
    Completed n s (s.confirmCmd n param) := by
  have pending := (h.of_mem member).2.1
  have blocking : (s.cmd n).flags.nonblock = false := pending.blocking
  have acked : (s.cmd n).flags.waitAck = false := pending.acked
  have finished : (s.cmd n).stopWaiting.finish.complete = (s.cmd n).complete + 1 ∧
      (s.cmd n).stopWaiting.finish.flags =
        { (s.cmd n).flags with waitCfm := false, done := true } := by
    simp [RwnxCmd.finish, RwnxCmd.stopWaiting, CmdFlags.waitComplete, blocking, acked]
  obtain ⟨bufs, overrun, copies, copied, written⟩ :=
    copyParam_eq (s.modify n RwnxCmd.stopWaiting) n param
  have ends : ((s.modify n RwnxCmd.stopWaiting).cmd n).flags.waitComplete = true := by
    simp [RwnxCmd.stopWaiting, CmdFlags.waitComplete, acked]
  unfold CmdMgr.confirmCmd
  dsimp only
  rw [copied, if_pos ends, cmdComplete_eq]
  · constructor
    · rfl
    · rfl
    · rfl
    · rfl
    · rfl
    · rfl
    · rfl
    · rfl
    · rfl
    · intro m other
      simp only [CmdMgr.modify, Function.update_of_ne other]
    · simpa only [CmdMgr.modify, Function.update_self] using finished.1
    · simpa only [CmdMgr.modify, Function.update_self] using finished.2
    · exact written
  · exact fun m linked => h.unfreed linked
  · exact member
  · rw [CmdMgr.modify_cmd]
    exact blocking

/-- A state in which one linked command was completed. -/
theorem completed {t : CmdMgr} (h : Sound s) (member : n ∈ s.cmds) (done : Completed n s t) :
    Sound t := by
  obtain ⟨waits, pending, cfm, complete⟩ := h.of_mem member
  have length : (s.cmds.erase n).length + 1 = s.cmds.length := by
    have pos := List.length_pos_of_mem member
    rw [List.length_erase_of_mem member]
    omega
  constructor
  · have size := h.listed.size
    have small := h.listed.small
    constructor
    · exact done.cmds ▸ h.listed.nodup.erase n
    · rw [done.queueSz, done.cmds, CmdMgr.shrunk, if_pos (by omega)]
      omega
    · rw [done.cmds]
      omega
    · exact done.bound.trans h.listed.bound
  · intro m
    by_cases same : m = n
    · subst same
      have out : (s.cmds.erase m).contains m = false := by simpa using h.listed.nodup.not_mem_erase
      have now : (t.cmd m).complete = 1 := done.complete.trans (by rw [complete])
      have flags := done.flags
      have ok := (h.views m).completed (List.contains_iff_mem.mpr member) _ now
        ⟨flags ▸ pending.blocking, flags ▸ pending.pushed, flags ▸ pending.acked⟩
      simpa only [CmdMgr.view, done.cmds, done.point, done.kallocs, done.kfrees, out] using ok
    · have there : (s.cmds.erase n).contains m = s.cmds.contains m := by
        simp [List.mem_erase_of_ne same]
      have ok := h.views m
      simpa only [CmdMgr.view, done.cmds, done.point, done.kallocs, done.kfrees,
        done.others m same, there] using ok
  · intro m late
    rw [done.point]
    exact h.fresh m (done.calls ▸ late)
  · exact done.state.trans h.alive
  · intro copy inside
    cases done.copies with
    | inl same => exact h.copies copy (same ▸ inside)
    | inr more =>
        rw [more] at inside
        cases List.mem_append.mp inside with
        | inl old => exact h.copies copy old
        | inr new =>
            obtain rfl := List.mem_singleton.mp new
            exact waits
  · exact done.oops.trans h.sound

theorem cmdMgrMsgind (h : Sound s) (id : Nat) (param : List UInt8) :
    Sound (s.cmdMgrMsgind id param) := by
  unfold CmdMgr.cmdMgrMsgind
  rw [h.touch]
  split
  · exact h
  · rename_i n found
    have member : n ∈ s.cmds := List.mem_of_find?_eq_some found
    exact h.completed member (h.confirmCmd_completed member _)

theorem cmdMgrDrain (h : Sound s) : Sound s.cmdMgrDrain := by
  unfold CmdMgr.cmdMgrDrain
  rw [h.touch]
  constructor
  · have size := h.listed.size
    have small := h.listed.small
    constructor
    · exact List.nodup_nil
    · simp only [CmdMgr.shrunk, List.length_nil]
      rw [if_pos (by omega)]
      omega
    · exact Nat.zero_le _
    · exact h.listed.bound
  · intro m
    by_cases member : m ∈ s.cmds
    · obtain ⟨waits, pending, cfm, complete⟩ := h.of_mem member
      have blocking : (s.cmd m).flags.nonblock = false := pending.blocking
      have ok := (h.views m).completed (List.contains_iff_mem.mpr member)
        { s.cmd m with complete := (s.cmd m).complete + 1 } (by simp only [complete])
        ⟨pending.blocking, pending.pushed, pending.acked⟩
      simpa only [CmdMgr.view, if_pos (And.intro member blocking), List.contains_nil] using ok
    · have ok := h.views m
      have out : s.cmds.contains m = false := by simpa using member
      simp only [CmdMgr.view, out] at ok
      simpa only [CmdMgr.view, member, false_and, if_false, List.contains_nil] using ok
  · exact h.fresh
  · exact h.alive
  · exact h.copies
  · exact h.sound

/-! ## Runs -/

theorem step {t : CmdMgr} (h : Sound s) {l : Label} (ok : s.Guard l) (went : s.step l = some t) :
    Sound t := by
  cases l with
  | call send =>
      obtain rfl := Option.some.inj went
      exact h.startCall send
  | run n =>
      obtain ⟨p, at_, went⟩ := Option.bind_eq_some_iff.mp went
      cases p with
      | called send =>
          obtain rfl := Option.some.inj went
          exact h.rwnxSendMsg at_
      | filled =>
          obtain rfl := Option.some.inj went
          exact h.cmdMgrQueue at_ (ok at_)
      | linked =>
          obtain rfl := Option.some.inj went
          exact h.push at_
      | waiting =>
          simp only [CmdMgr.act, Option.ite_none_left_eq_some] at went
          obtain ⟨done, same⟩ := went
          obtain rfl := Option.some.inj same
          exact h.wake at_ done
      | timedOut =>
          have never := h.views n
          simp only [View.Ok, CmdMgr.view, at_] at never
      | woken =>
          obtain rfl := Option.some.inj went
          exact h.free at_
      | returned ret => cases went
  | timeout n => exact ok.elim
  | signal n => exact ok.elim
  | msgind id param =>
      obtain rfl := Option.some.inj went
      exact h.cmdMgrMsgind id param
  | drain =>
      obtain rfl := Option.some.inj went
      exact h.cmdMgrDrain
  | bus up =>
      obtain rfl := Option.some.inj went
      exact ⟨⟨h.listed.nodup, h.listed.size, h.listed.small, h.listed.bound⟩, h.views, h.fresh, h.alive,
        h.copies, h.sound⟩

end Sound

/-- In every run in which no wait is timed out or interrupted and no command meets a
    full queue, every command is accounted for. -/
theorem command_accounted (bufs : Nat → List UInt8) (s : CmdMgr)
    (run : Run.Reachable CmdMgr.step CmdMgr.Guard (rwnxCmdMgrInit bufs) s) : Accounted s := by
  have sound : Sound s :=
    run.invariant Sound (sound_init bufs) fun _ _ _ h ok went => h.step ok went
  exact sound.accounted

/-- `DBG_MEM_READ_REQ`, confirmed by `DBG_MEM_READ_CFM`. -/
def readSend : Send := ⟨1024, true, 1025, some 0⟩

/-- Two reads are queued; the first is confirmed, and the second is drained. -/
def drainedRun : List Label :=
  [.call readSend, .call readSend, .run 0, .run 1, .run 0, .run 1, .run 0,
    .msgind 1025 [0, 0, 0x50, 0x40, 7, 0, 0, 0], .drain, .run 1, .run 0, .run 0, .run 1, .run 1]

theorem command_accounted_drained :
    ∃ s, s.kallocs = [0, 1] ∧ s.kfrees = [0, 1] ∧ s.confirmed.map Prod.fst = [0] ∧ Accounted s := by
  have facts : (Run.exec CmdMgr.step (rwnxCmdMgrInit fun _ => [0, 0, 0, 0, 0, 0, 0, 0])
      drainedRun).map (fun s => (s.kallocs, s.kfrees, s.confirmed.map Prod.fst)) =
      some ([0, 1], [0, 1], [0]) := by decide +kernel
  obtain ⟨s, run, logs⟩ := Option.map_eq_some_iff.mp facts
  obtain ⟨allocs, rest⟩ := Prod.mk.inj logs
  obtain ⟨frees, confirmed⟩ := Prod.mk.inj rest
  exact ⟨s, allocs, frees, confirmed, command_accounted _ _
    (Run.Reachable.exec_guarded (fun _ _ => of_decide_eq_true) _ .init run (by decide +kernel))⟩

/-- A read whose sender is killed while it waits, and is confirmed afterwards. -/
def killedRun : List Label :=
  [.call readSend, .run 0, .run 0, .run 0, .signal 0, .run 0,
    .msgind 1025 [0, 0, 0x50, 0x40, 7, 0, 0, 0]]

/-- A killed sender frees its command while it is linked, and the confirmation is
    written to the sender's buffer after it has returned. -/
theorem killed_sender_dangles :
    ∃ s, Run.Reachable CmdMgr.step Run.Free (rwnxCmdMgrInit fun _ => [0, 0, 0, 0, 0, 0, 0, 0]) s ∧
      s.kfrees = [0] ∧ s.copies = [(0, some (.returned 0))] ∧
      s.bufs 0 = [0, 0, 0x50, 0x40, 7, 0, 0, 0] ∧ s.oops = true ∧ ¬ Accounted s := by
  have facts : (Run.exec CmdMgr.step (rwnxCmdMgrInit fun _ => [0, 0, 0, 0, 0, 0, 0, 0])
      killedRun).map (fun s => (s.kfrees, s.copies, s.bufs 0, s.oops)) =
      some ([0], [(0, some (.returned 0))], [0, 0, 0x50, 0x40, 7, 0, 0, 0], true) := by
    decide +kernel
  obtain ⟨s, run, logs⟩ := Option.map_eq_some_iff.mp facts
  obtain ⟨frees, rest⟩ := Prod.mk.inj logs
  obtain ⟨copies, rest⟩ := Prod.mk.inj rest
  obtain ⟨buf, oops⟩ := Prod.mk.inj rest
  refine ⟨s, Run.Reachable.exec _ .init run, frees, copies, buf, oops, fun accounted => ?_⟩
  exact absurd accounted.sound (by simp [oops])

end Aic8800.Loader
