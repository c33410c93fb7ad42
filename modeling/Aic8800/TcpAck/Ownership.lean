import Aic8800.TcpAck.Custody
import Mathlib

/-! # Each message is sent or freed once

A message is with one call or in one slot, until its `msg_buf` goes to `kfree` and its `skb` is queued
or freed. That holds in every run. The address in `in_send_msg` is another matter: `move_tcpack_msg`
takes it back only from a slot that is busy, and only while the filter is enabled.
-/

namespace Aic8800.TcpAck

open Lib Threads

/-- Each `msg_buf` and each `skb` is accounted for, and no two in use have the same address. -/
structure Accounted (c : CustodyConfig) : Prop where
  buffers : c.shared.buffers.Accounts ((c.shared.live c.threads).map MsgBuf.serial)
  skbs : c.shared.skbs.Accounts ((c.shared.cargo c.threads).map MsgBuf.serial)
  addresses : ((c.shared.live c.threads).map MsgBuf.ptr).Nodup
  numbered : c.shared.skbs.issued = c.shared.buffers.issued

/-- What a step does with messages. -/
inductive Turn (s : Custody) (ts : List Spot) (s' : Custody) (ts' : List Spot) : Prop where
  | carry : s'.buffers = s.buffers → s'.skbs = s.skbs → (s'.live ts').Perm (s.live ts) →
      (s'.cargo ts').Perm (s.cargo ts) → Turn s ts s' ts'
  | alloc (msg : MsgBuf) : msg.ptr ∉ (s.live ts).map MsgBuf.ptr → msg.serial = s.buffers.issued →
      s'.buffers = s.buffers.issue → s'.skbs = s.skbs.issue → (s'.live ts').Perm (msg :: s.live ts) →
      (s'.cargo ts').Perm (msg :: s.cargo ts) → Turn s ts s' ts'
  | kfree (msg : MsgBuf) : s'.buffers = s.buffers.settle msg.serial () → s'.skbs = s.skbs →
      (msg :: s'.live ts').Perm (s.live ts) → (s'.cargo ts').Perm (s.cargo ts) → Turn s ts s' ts'
  | finish (msg : MsgBuf) (how : SkbEnd) : s'.buffers = s.buffers →
      s'.skbs = s.skbs.settle msg.serial how → (s'.live ts').Perm (s.live ts) →
      (msg :: s'.cargo ts').Perm (s.cargo ts) → Turn s ts s' ts'
  | drop (msg : MsgBuf) : s'.buffers = s.buffers.settle msg.serial () →
      s'.skbs = s.skbs.settle msg.serial .freed → (msg :: s'.live ts').Perm (s.live ts) →
      (msg :: s'.cargo ts').Perm (s.cargo ts) → Turn s ts s' ts'

section Turns

variable {s s' : Custody} {ts ts' others : List Spot} {t : Spot} {next : Option Spot} {i : Index}

theorem Turn.accounted (turn : Turn s ts s' ts') (h : Accounted ⟨s, ts⟩) : Accounted ⟨s', ts'⟩ := by
  obtain ⟨buffers, skbs, addresses, numbered⟩ := h
  dsimp only at buffers skbs addresses numbered
  cases turn with
  | carry sameBuffers sameSkbs live cargo =>
      constructor
      · rw [sameBuffers]
        exact buffers.perm (live.map _).symm
      · rw [sameSkbs]
        exact skbs.perm (cargo.map _).symm
      · exact (live.map _).nodup_iff.mpr addresses
      · rw [sameBuffers, sameSkbs]
        exact numbered
  | alloc msg fresh serial newBuffers newSkbs live cargo =>
      constructor
      · rw [newBuffers]
        refine buffers.issue.perm ?_
        rw [← serial]
        exact (live.map _).symm
      · rw [newSkbs]
        refine skbs.issue.perm ?_
        rw [numbered, ← serial]
        exact (cargo.map _).symm
      · exact (live.map _).nodup_iff.mpr (List.nodup_cons.mpr ⟨fresh, addresses⟩)
      · rw [newBuffers, newSkbs]
        exact congrArg Nat.succ numbered
  | kfree msg lessBuffers sameSkbs live cargo =>
      have known := (live.map MsgBuf.ptr).nodup_iff.mpr addresses
      constructor
      · rw [lessBuffers]
        exact (buffers.perm (live.map _).symm).settle ()
      · rw [sameSkbs]
        exact skbs.perm (cargo.map _).symm
      · exact (List.nodup_cons.mp known).2
      · rw [lessBuffers, sameSkbs]
        exact numbered
  | finish msg how sameBuffers lessSkbs live cargo =>
      constructor
      · rw [sameBuffers]
        exact buffers.perm (live.map _).symm
      · rw [lessSkbs]
        exact (skbs.perm (cargo.map _).symm).settle how
      · exact (live.map _).nodup_iff.mpr addresses
      · rw [sameBuffers, lessSkbs]
        exact numbered
  | drop msg lessBuffers lessSkbs live cargo =>
      have known := (live.map MsgBuf.ptr).nodup_iff.mpr addresses
      constructor
      · rw [lessBuffers]
        exact (buffers.perm (live.map _).symm).settle ()
      · rw [lessSkbs]
        exact (skbs.perm (cargo.map _).symm).settle .freed
      · exact (List.nodup_cons.mp known).2
      · rw [lessBuffers, lessSkbs]
        exact numbered

/-- What a call knows that goes on, beside what all others know. -/
theorem known_perm (f : Spot → List MsgBuf) (gone : List MsgBuf) {held held' : List MsgBuf}
    (h : (gone ++ (next.toList.flatMap f ++ held')).Perm (f t ++ held)) :
    (gone ++ ((next.toList ++ others).flatMap f ++ held')).Perm
      ((t :: others).flatMap f ++ held) := by
  rw [List.flatMap_append, List.flatMap_cons, List.perm_iff_count]
  intro msg
  have count := h.count_eq msg
  simp only [List.count_append] at count ⊢
  omega

theorem known_same (f : Spot → List MsgBuf) {held held' : List MsgBuf}
    (h : (next.toList.flatMap f ++ held').Perm (f t ++ held)) :
    ((next.toList ++ others).flatMap f ++ held').Perm ((t :: others).flatMap f ++ held) :=
  known_perm f [] h

theorem filterMap_first {α β : Type} (f : α → Option β) (a : α) (rest : List α) :
    (a :: rest).filterMap f = (f a).toList ++ rest.filterMap f := by
  cases first : f a with
  | none => simp [first]
  | some b => simp [first]

/-- One slot is given another message. -/
theorem held_write (s : Custody) (i : Index) (info : TcpAckInfo) :
    ((s.info i).msgbuf.toList ++ (s.write i info).held).Perm (info.msgbuf.toList ++ s.held) := by
  have slots : (List.finRange 32).Perm (i :: (List.finRange 32).erase i) :=
    List.perm_cons_erase (List.mem_finRange i)
  have rest : ((List.finRange 32).erase i).filterMap (fun j => ((s.write i info).info j).msgbuf) =
      ((List.finRange 32).erase i).filterMap fun j => (s.info j).msgbuf := by
    apply List.filterMap_congr
    intro j other
    have apart : j ≠ i := fun same =>
      (List.Nodup.not_mem_erase (List.nodup_finRange 32)) (same ▸ other)
    simp [Custody.info, Custody.write, Shared.write, TcpAckManage.setInfo_other _ _ apart]
  have mine : ((s.write i info).info i).msgbuf = info.msgbuf := by
    simp [Custody.info, Custody.write, Shared.write]
  have now := slots.filterMap fun j => ((s.write i info).info j).msgbuf
  have was := slots.filterMap fun j => (s.info j).msgbuf
  rw [filterMap_first, mine, rest] at now
  rw [filterMap_first] at was
  refine (now.append_left _).trans (.trans ?_ (was.symm.append_left _))
  rw [← List.append_assoc, ← List.append_assoc]
  exact List.perm_append_comm.append_right _

/-- What a write section leaves of the pointers that the slots have. -/
structure SamePointers (s s' : Shared) : Prop where
  msgbuf : ∀ i, (s'.filter.ackInfo i).msgbuf = (s.filter.ackInfo i).msgbuf
  inSendMsg : ∀ i, (s'.filter.ackInfo i).inSendMsg = (s.filter.ackInfo i).inSendMsg

theorem SamePointers.refl (s : Shared) : SamePointers s s := ⟨fun _ => rfl, fun _ => rfl⟩

theorem SamePointers.write (s : Shared) {i : Index} {info : TcpAckInfo}
    (msgbuf : info.msgbuf = (s.filter.ackInfo i).msgbuf)
    (inSendMsg : info.inSendMsg = (s.filter.ackInfo i).inSendMsg) :
    SamePointers s (s.write i info) := by
  constructor
  · intro j
    obtain rfl | other := eq_or_ne j i
    · simpa [Shared.write] using msgbuf
    · simp [Shared.write, TcpAckManage.setInfo_other _ _ other]
  · intro j
    obtain rfl | other := eq_or_ne j i
    · simpa [Shared.write] using inSendMsg
    · simp [Shared.write, TcpAckManage.setInfo_other _ _ other]

theorem samePointers_updateSlot (s : Shared) (i : Index) (jiffies : BitVec 64) :
    SamePointers s (s.updateSlot i jiffies) := by
  simp only [Shared.updateSlot]
  split
  next =>
      have written : SamePointers s (s.write i { s.filter.ackInfo i with busy := false }) :=
        .write s rfl rfl
      exact ⟨written.msgbuf, written.inSendMsg⟩
  next => exact .write s rfl rfl

theorem samePointers_rescaleSlot (s : Shared) (call : SendCall) (i : Index) :
    SamePointers s (s.rescaleSlot call i) := by
  simp only [Shared.rescaleSlot]
  split
  next => exact .write s rfl rfl
  next => exact .refl s

/-- Whether a call hands its message to a slot, or takes one from it. -/
def Point.quiet : Point → Bool
  | .handle _ _ _ | .expired _ | .move _ _ => false
  | _ => true

/-- A call keeps its message until it comes to the handler or leaves the filter. -/
theorem quiet_action {s : Shared} {p : Point} {jiffies : BitVec 64} {next : Shared × Option Point}
    (quiet : p.quiet = true) (went : s.action [] p jiffies = some next) :
    SamePointers s next.1 ∧ next.2.bind Point.msg = p.msg := by
  cases p with
  | update msg =>
      simp only [Shared.action] at went
      split at went <;> cases went <;> exact ⟨.refl s, rfl⟩
  | updateLock msg =>
      simp only [Shared.action, Option.ite_none_left_eq_some] at went
      obtain ⟨-, went⟩ := went
      cases went
      exact ⟨⟨fun _ => rfl, fun _ => rfl⟩, rfl⟩
  | updateSlot msg i =>
      have aged := samePointers_updateSlot s i jiffies
      simp only [Shared.action] at went
      split at went
      next =>
          cases went
          exact ⟨aged, rfl⟩
      next =>
          cases went
          exact ⟨⟨aged.msgbuf, aged.inSendMsg⟩, rfl⟩
  | checkAck msg =>
      simp only [Shared.action] at went
      obtain ⟨check, -, went⟩ := Option.bind_eq_some_iff.mp went
      split at went
      next =>
          cases went
          exact ⟨.refl s, rfl⟩
      next =>
          obtain ⟨ack, -, rfl⟩ := Option.map_eq_some_iff.mp went
          exact ⟨.refl s, rfl⟩
  | matchSlot lookup i =>
      simp only [Shared.action] at went
      split at went
      next => cases lookup <;> cases went <;> exact ⟨.refl s, rfl⟩
      next =>
          cases lookup with
          | send call =>
              cases more : i.next with
              | none =>
                  rw [more] at went
                  cases went
                  exact ⟨.refl s, rfl⟩
              | some k =>
                  rw [more] at went
                  cases went
                  exact ⟨.refl s, rfl⟩
          | rx ack =>
              cases more : i.next with
              | none =>
                  rw [more] at went
                  cases went
                  exact ⟨.refl s, rfl⟩
              | some k =>
                  rw [more] at went
                  cases went
                  exact ⟨.refl s, rfl⟩
  | rescale call i =>
      have scaled := samePointers_rescaleSlot s call i
      simp only [Shared.action] at went
      split at went <;> cases went <;> exact ⟨scaled, rfl⟩
  | handle call type i => cases quiet
  | alloc call =>
      simp only [Shared.action] at went
      split at went
      next => cases went
      next =>
          split at went
          next =>
              cases went
              exact ⟨.refl s, rfl⟩
          next => split at went <;> cases went <;> exact ⟨⟨fun _ => rfl, fun _ => rfl⟩, rfl⟩
  | scanBegin call i =>
      cases went
      exact ⟨.refl s, rfl⟩
  | scanRead call i start =>
      simp only [Shared.action] at went
      split at went <;> cases went <;> exact ⟨⟨fun _ => rfl, fun _ => rfl⟩, rfl⟩
  | scanRetry call i start found =>
      simp only [Shared.action] at went
      split at went
      next =>
          cases went
          exact ⟨.refl s, rfl⟩
      next =>
          split at went
          next =>
              cases went
              exact ⟨⟨fun _ => rfl, fun _ => rfl⟩, rfl⟩
          next => split at went <;> cases went <;> exact ⟨⟨fun _ => rfl, fun _ => rfl⟩, rfl⟩
  | mark call i =>
      cases went
      exact ⟨.write s rfl rfl, rfl⟩
  | quick ack i =>
      cases went
      exact ⟨.write s rfl rfl, rfl⟩
  | expired i => cases quiet
  | move msg i => cases quiet

theorem lift_state (s : Custody) (r : Shared × Option Point) :
    (s.lift r).1 = { s with shared := r.1 } := by
  obtain ⟨shared, p⟩ := r
  cases p with
  | none => rfl
  | some p => cases p <;> rfl

theorem lift_buffers (s : Custody) (r : Shared × Option Point) :
    (s.lift r).2.toList.flatMap Spot.buffers = (r.2.bind Point.msg).toList := by
  obtain ⟨shared, p⟩ := r
  cases p with
  | none => rfl
  | some p => cases p <;> exact List.append_nil _

theorem lift_skbs (s : Custody) (r : Shared × Option Point) :
    (s.lift r).2.toList.flatMap Spot.skbs = (r.2.bind Point.msg).toList := by
  obtain ⟨shared, p⟩ := r
  cases p with
  | none => rfl
  | some p => cases p <;> exact List.append_nil _

theorem held_same {shared : Shared} (same : SamePointers s.shared shared) :
    ({ s with shared } : Custody).held = s.held :=
  List.filterMap_congr fun i _ => same.msgbuf i

theorem turn_carry (buffers : s'.buffers = s.buffers) (skbs : s'.skbs = s.skbs)
    (live : (next.toList.flatMap Spot.buffers ++ s'.held).Perm (t.buffers ++ s.held))
    (cargo : (next.toList.flatMap Spot.skbs ++ s'.held).Perm (t.skbs ++ s.held)) :
    Turn s (t :: others) s' (next.toList ++ others) :=
  .carry buffers skbs (known_same Spot.buffers live)
    (known_same Spot.skbs cargo)

theorem turn_drop {msg : MsgBuf} (held : t.buffers = msg :: next.toList.flatMap Spot.buffers)
    (held' : t.skbs = msg :: next.toList.flatMap Spot.skbs) :
    Turn s (t :: others) (s.dropMsg msg) (next.toList ++ others) := by
  refine .drop msg rfl rfl (known_perm Spot.buffers [msg] ?_)
    (known_perm Spot.skbs [msg] ?_)
  · rw [held]
    exact .refl _
  · rw [held']
    exact .refl _

theorem turn_quiet {p : Point} {jiffies : BitVec 64} {r : Shared × Option Point}
    (quiet : p.quiet = true) (went : s.shared.action [] p jiffies = some r) :
    Turn s (.filter p :: others) (s.lift r).1 ((s.lift r).2.toList ++ others) := by
  obtain ⟨same, msg⟩ := quiet_action quiet went
  have state := lift_state s r
  have held : (s.lift r).1.held = s.held := state ▸ held_same same
  refine turn_carry (state ▸ rfl) (state ▸ rfl) ?_ ?_
  · rw [lift_buffers, msg, held]
    exact .refl _
  · rw [lift_skbs, msg, held]
    exact .refl _

/-- What the handler does with its message and with what the slot held. -/
theorem handleNew_keeps (info : TcpAckInfo) (msg : MsgBuf) (ack : TcpAckMsg) (maxDropCnt : Nat)
    (jiffies : BitVec 64) :
    (∃ next, info.tcpAckHandleNew msg ack maxDropCnt jiffies = (next, some msg, true) ∧
      next.msgbuf = info.msgbuf ∧ next.inSendMsg = info.inSendMsg) ∨
    (∃ next, info.tcpAckHandleNew msg ack maxDropCnt jiffies = (next, info.msgbuf, false) ∧
      next.msgbuf = none ∧ next.inSendMsg = some msg.ptr) ∨
    ∃ next, info.tcpAckHandleNew msg ack maxDropCnt jiffies = (next, info.msgbuf, true) ∧
      next.msgbuf = some msg ∧ next.inSendMsg = info.inSendMsg := by
  simp only [TcpAckInfo.tcpAckHandleNew]
  cases newer : u32Before info.ackMsg.seq ack.seq with
  | false =>
      left
      refine ⟨_, rfl, ?_, ?_⟩ <;> rfl
  | true =>
      right
      simp only [if_true]
      -- the count is raised or not before it is compared
      split <;> split
      · left
        refine ⟨_, rfl, ?_, ?_⟩ <;> rfl
      · right
        refine ⟨_, rfl, ?_, ?_⟩ <;> rfl
      · left
        refine ⟨_, rfl, ?_, ?_⟩ <;> rfl
      · right
        refine ⟨_, rfl, ?_, ?_⟩ <;> rfl

theorem turn_handle (call : SendCall) (type : Nat) (i : Index) (jiffies : BitVec 64) :
    Turn s (.filter (.handle call type i) :: others) (s.handle call i jiffies).1
      ((s.handle call i jiffies).2.toList ++ others) := by
  have slot := held_write s i
  obtain ⟨info, handled, msgbuf, -⟩ | ⟨info, handled, msgbuf, -⟩ | ⟨info, handled, msgbuf, -⟩ :=
    handleNew_keeps (s.info i) call.msg call.ack s.shared.filter.maxDropCnt jiffies
  · have kept := slot info
    rw [msgbuf] at kept
    have same : (s.write i info).held.Perm s.held := (List.perm_append_left_iff _).mp kept
    simp only [Custody.handle, handled]
    exact turn_carry rfl rfl (same.append_left [call.msg]) (same.append_left [call.msg])
  · have kept := slot info
    rw [msgbuf] at kept
    simp only [Custody.handle, handled]
    cases was : (s.info i).msgbuf with
    | none =>
        rw [was] at kept
        exact turn_carry rfl rfl (kept.append_left [call.msg]) (kept.append_left [call.msg])
    | some old =>
        rw [was] at kept
        have swapped : ([old, call.msg] ++ (s.write i info).held).Perm ([call.msg] ++ s.held) :=
          (List.Perm.swap call.msg old _).trans (kept.append_left [call.msg])
        exact turn_carry rfl rfl swapped swapped
  · have kept := slot info
    rw [msgbuf] at kept
    simp only [Custody.handle, handled]
    cases was : (s.info i).msgbuf with
    | none =>
        rw [was] at kept
        exact turn_carry rfl rfl kept kept
    | some old =>
        rw [was] at kept
        exact turn_carry rfl rfl kept kept

/-- The handler of a timer takes the message of its slot, or does nothing. -/
theorem timeout_cases (s : Custody) (i : Index) :
    (∃ msg, (s.info i).msgbuf = some msg ∧ s.timeout i =
      (s.write i { s.info i with msgbuf := none, dropCnt := 0, inSendMsg := some msg.ptr },
        some (.move msg))) ∨ s.timeout i = (s.write i (s.info i), none) := by
  obtain ⟨msg, was, -, -, sends⟩ | ⟨-, waits⟩ := (s.info i).tcpAckTimeout_cases
  · left
    refine ⟨msg, was, ?_⟩
    rw [Custody.timeout, sends]
    rfl
  · right
    rw [Custody.timeout, waits]
    rfl

theorem turn_timeout (i : Index) :
    Turn s (.expired i :: others) (s.timeout i).1 ((s.timeout i).2.toList ++ others) := by
  obtain ⟨msg, was, sends⟩ | waits := timeout_cases s i
  · have kept := held_write s i
      { s.info i with msgbuf := none, dropCnt := 0, inSendMsg := some msg.ptr }
    rw [was] at kept
    rw [sends]
    exact turn_carry rfl rfl kept kept
  · have kept := (List.perm_append_left_iff _).mp (held_write s i (s.info i))
    rw [waits]
    exact turn_carry rfl rfl kept kept

theorem turn_deinit (i : Index) {r : Custody × Option Spot} {choice : Choice}
    (went : s.action others (.deinit i) choice = some r) :
    Turn s (.deinit i :: others) r.1 (r.2.toList ++ others) := by
  have kept := held_write s i { s.info i with msgbuf := none, timer := false }
  simp only [Custody.action] at went
  split at went
  next msg was =>
      obtain rfl := Option.some.inj went
      rw [was] at kept
      exact turn_carry rfl rfl kept kept
  next was =>
      obtain rfl := Option.some.inj went
      rw [was] at kept
      cases more : i.next with
      | none => exact turn_carry rfl rfl kept kept
      | some j => exact turn_carry rfl rfl kept kept

theorem held_moveSlot (msg : MsgBuf) (i : Index) :
    ({ s with shared := s.shared.moveSlot msg i } : Custody).held.Perm s.held := by
  simp only [Shared.moveSlot]
  split
  next =>
      exact (List.perm_append_left_iff _).mp
        (held_write s i { s.shared.filter.ackInfo i with inSendMsg := none })
  next => exact (List.perm_append_left_iff _).mp (held_write s i (s.shared.filter.ackInfo i))

/-- An event gives a message to the filter, or touches none. -/
theorem event_cases {e : XmitCall} {r : Custody × Option Spot} (went : s.event ts e = some r) :
    (∃ msg : MsgBuf, msg.ptr ∉ (s.live ts).map MsgBuf.ptr ∧
        r = ((s.alloc msg).1, some (.filter (.update (s.alloc msg).2)))) ∨
      ∃ shared next, SamePointers s.shared shared ∧
        (∀ t : Spot, t ∈ next → t.buffers = [] ∧ t.skbs = []) ∧ r = ({ s with shared }, next) := by
  cases e with
  | xmit msg =>
      simp only [Custody.event] at went
      split at went
      next =>
          cases went
          exact .inr ⟨_, none, .refl _, by simp, rfl⟩
      next =>
          split at went
          next => cases went
          next fresh =>
              cases went
              exact .inl ⟨msg, fresh, rfl⟩
  | rx buf plen =>
      obtain ⟨next, entered, rfl⟩ := Option.map_eq_some_iff.mp went
      simp only [Shared.event] at entered
      split at entered
      next =>
          cases entered
          exact .inr ⟨_, none, .refl _, by simp, rfl⟩
      next =>
          obtain ⟨answer, -, rfl⟩ := Option.map_eq_some_iff.mp entered
          cases answer with
          | none => exact .inr ⟨_, none, .refl _, by simp, rfl⟩
          | some ack =>
              refine .inr ⟨_, some (.filter (.matchSlot (.rx ack) Index.first)), .refl _, ?_, rfl⟩
              rintro t ⟨⟩
              exact ⟨rfl, rfl⟩
  | expire i =>
      simp only [Custody.event, Option.ite_none_right_eq_some] at went
      obtain ⟨-, went⟩ := went
      cases went
      have written : SamePointers s.shared (s.shared.write i { s.info i with timer := false }) :=
        .write s.shared rfl rfl
      let filter := s.shared.filter.setInfo i { s.info i with timer := false }
      refine .inr ⟨{ s.shared with filter }, some (.expired i),
        ⟨written.msgbuf, written.inSendMsg⟩, ?_, rfl⟩
      rintro t ⟨⟩
      exact ⟨rfl, rfl⟩
  | deinit =>
      cases went
      refine .inr ⟨{ s.shared with filter := { s.shared.filter with enable := false } },
        some (.deinit Index.first), ⟨fun _ => rfl, fun _ => rfl⟩, ?_, rfl⟩
      rintro t ⟨⟩
      exact ⟨rfl, rfl⟩

theorem event_turn {e : XmitCall} {r : Custody × Option Spot} (went : s.event ts e = some r) :
    Turn s ts r.1 (r.2.toList ++ ts) := by
  obtain ⟨msg, fresh, rfl⟩ | ⟨shared, next, same, empty, rfl⟩ := event_cases went
  · exact .alloc (s.alloc msg).2 fresh rfl rfl rfl (.refl _) (.refl _)
  · have held := held_same same
    refine .carry rfl rfl ?_ ?_
    · cases next with
      | none => simp [Custody.live, held]
      | some t => simp [Custody.live, held, (empty t rfl).1]
    · cases next with
      | none => simp [Custody.cargo, held]
      | some t => simp [Custody.cargo, held, (empty t rfl).2]

theorem action_filter {p : Point} {choice : Choice} (quiet : p.quiet = true) :
    s.action others (.filter p) choice = (s.shared.action [] p choice.jiffies).map s.lift := by
  cases p with
  | handle call type i => cases quiet
  | expired i => cases quiet
  | move msg i => cases quiet
  | _ => rfl

theorem action_turn {choice : Choice} {r : Custody × Option Spot}
    (went : s.action others t choice = some r) : Turn s (t :: others) r.1 (r.2.toList ++ others) := by
  cases t with
  | filter p =>
      cases quiet : p.quiet with
      | true =>
          rw [action_filter quiet] at went
          obtain ⟨next, acted, rfl⟩ := Option.map_eq_some_iff.mp went
          exact turn_quiet quiet acted
      | false =>
          cases p with
          | handle call type i =>
              cases went
              exact turn_handle call type i choice.jiffies
          | expired i => cases went
          | move msg i => cases went
          | _ => cases quiet
  | drop msg send =>
      cases went
      cases send with
      | none => exact turn_drop rfl rfl
      | some new => exact turn_drop rfl rfl
  | expired i =>
      cases went
      exact turn_timeout i
  | move msg =>
      simp only [Custody.action] at went
      split at went
      next =>
          cases went
          exact turn_carry rfl rfl (.refl _) (.refl _)
      next =>
          cases went
          exact turn_carry rfl rfl (.refl _) (.refl _)
  | moveSlot msg i =>
      have same := held_moveSlot (s := s) msg i
      simp only [Custody.action] at went
      split at went
      next =>
          cases went
          exact turn_carry rfl rfl (same.append_left [msg]) (same.append_left [msg])
      next =>
          cases went
          exact turn_carry rfl rfl (same.append_left [msg]) (same.append_left [msg])
  | kfree msg =>
      cases went
      exact .kfree msg rfl rfl (known_perm Spot.buffers [msg] (.refl _))
        (known_same Spot.skbs (.refl _))
  | transmit msg =>
      cases went
      exact .finish msg _ rfl rfl (known_same Spot.buffers (.refl _))
        (known_perm Spot.skbs [msg] (.refl _))
  | deinit i => exact turn_deinit i went
  | deinitDrop msg i =>
      cases went
      cases more : i.next with
      | none => exact turn_drop rfl rfl
      | some j => exact turn_drop rfl rfl

end Turns

theorem accounted_perm {s : Custody} {ts us : List Spot} (same : ts.Perm us) (h : Accounted ⟨s, ts⟩) :
    Accounted ⟨s, us⟩ := by
  have live : (s.live us).Perm (s.live ts) := (same.symm.flatMap_right _).append_right _
  have cargo : (s.cargo us).Perm (s.cargo ts) := (same.symm.flatMap_right _).append_right _
  exact (Turn.carry rfl rfl live cargo).accounted h

theorem accounted_init (jiffies timeout : BitVec 64) :
    Accounted ⟨.init jiffies timeout, []⟩ := by
  have held : (Custody.init jiffies timeout).held = [] := by
    simp [Custody.held, Custody.info, Custody.init, Shared.init, tcpAckInit]
  have live : (Custody.init jiffies timeout).live [] = [] := held
  have cargo : (Custody.init jiffies timeout).cargo [] = [] := held
  constructor
  · rw [live]
    exact .empty
  · rw [cargo]
    exact .empty
  · rw [live]
    exact List.nodup_nil
  · rfl

theorem accounted_step {c c' : CustodyConfig} {label : Label XmitCall Spot Choice} (acc : Accounted c)
    (went : custodyProgram.step c label = some c') : Accounted c' := by
  cases label with
  | event e =>
      obtain ⟨next, entered, rfl⟩ := Option.map_eq_some_iff.mp went
      exact (event_turn entered).accounted acc
  | run t choice =>
      simp only [Program.step, Option.ite_none_right_eq_some] at went
      obtain ⟨member, went⟩ := went
      obtain ⟨next, acted, rfl⟩ := Option.map_eq_some_iff.mp went
      exact (action_turn acted).accounted (accounted_perm (List.perm_cons_erase member) acc)

/-- Each message is sent or freed once, whatever the order of the calls. -/
theorem accounted_run {guard : CustodyConfig → Label XmitCall Spot Choice → Prop}
    {start c : CustodyConfig} (base : Accounted start)
    (run : Run.Reachable custodyProgram.step guard start c) : Accounted c :=
  run.invariant Accounted base fun _ _ _ acc _ went => accounted_step acc went

/-! ## Messages in transmission -/

/-- No slot has the address of a `msg_buf` that was freed. -/
def NoneDangling (c : CustodyConfig) : Prop :=
  ∀ i ptr, (c.shared.info i).inSendMsg = some ptr → ptr ∈ (c.shared.live c.threads).map MsgBuf.ptr

/-- For each address in a slot there is a call that will come to the slot with it. -/
def Awaited (c : CustodyConfig) : Prop :=
  ∀ i ptr, (c.shared.info i).inSendMsg = some ptr → ∃ t ∈ c.threads, t.Clears i ptr

/-- `move_tcpack_msg` returns at once, or passes a slot, only where the slot has not got the
    message in transmission, or where it takes it back. -/
def takesBack (c : CustodyConfig) : Label XmitCall Spot Choice → Bool
  | .run (.move msg) _ =>
      c.shared.shared.filter.enable ||
        (List.finRange 32).all fun i => (c.shared.info i).inSendMsg != some msg.ptr
  | .run (.moveSlot msg i) _ =>
      (c.shared.info i).busy || (c.shared.info i).inSendMsg != some msg.ptr
  | _ => true

section Transmission

variable {s : Custody} {ts others : List Spot} {t : Spot} {i : Index} {ptr : Nat}

theorem Spot.Clears.live (h : t.Clears i ptr) : ptr ∈ t.buffers.map MsgBuf.ptr := by
  cases t with
  | drop msg send =>
      cases send with
      | none => cases h
      | some new =>
          obtain rfl : new.ptr = ptr := h
          simp [Spot.buffers]
  | move msg =>
      obtain rfl : msg.ptr = ptr := h
      simp [Spot.buffers]
  | moveSlot msg k =>
      obtain ⟨rfl, -⟩ : msg.ptr = ptr ∧ k ≤ i := h
      simp [Spot.buffers]
  | _ => cases h

theorem Awaited.noneDangling {c : CustodyConfig} (h : Awaited c) : NoneDangling c := by
  intro i ptr sends
  obtain ⟨t, member, clears⟩ := h i ptr sends
  obtain ⟨msg, mine, rfl⟩ := List.mem_map.mp clears.live
  exact List.mem_map_of_mem (List.mem_append_left _ (List.mem_flatMap.mpr ⟨t, member, mine⟩))

/-- An address that is in a slot after a step was there before, and the call that will come to the
    slot is the same or one step further; or the call that is led on has put it there. -/
def HandsOn (s : Custody) (t : Spot) (r : Custody × Option Spot) : Prop :=
  ∀ i ptr, (r.1.info i).inSendMsg = some ptr →
    ((s.info i).inSendMsg = some ptr ∧ (t.Clears i ptr → ∃ u ∈ r.2, u.Clears i ptr)) ∨
      ∃ u ∈ r.2, u.Clears i ptr

theorem HandsOn.awaited {r : Custody × Option Spot} (handsOn : HandsOn s t r)
    (h : Awaited ⟨s, t :: others⟩) : Awaited ⟨r.1, r.2.toList ++ others⟩ := by
  intro i ptr sends
  have on : (∃ u ∈ r.2, u.Clears i ptr) → ∃ u ∈ r.2.toList ++ others, u.Clears i ptr := by
    rintro ⟨u, next, clears⟩
    exact ⟨u, List.mem_append_left _ (Option.mem_toList.mpr next), clears⟩
  obtain ⟨was, further⟩ | put := handsOn i ptr sends
  · obtain ⟨u, member, clears⟩ := h i ptr was
    cases List.mem_cons.mp member with
    | inl same => exact on (further (same ▸ clears))
    | inr other => exact ⟨u, List.mem_append_right _ other, clears⟩
  · exact on put

/-- A call that will come to no slot leaves the addresses as they are. -/
theorem handsOn_same {r : Custody × Option Spot}
    (same : ∀ i, (r.1.info i).inSendMsg = (s.info i).inSendMsg)
    (further : ∀ i ptr, (s.info i).inSendMsg = some ptr → t.Clears i ptr →
      ∃ u ∈ r.2, u.Clears i ptr) : HandsOn s t r := by
  intro i ptr sends
  rw [same] at sends
  exact .inl ⟨sends, further i ptr sends⟩

theorem write_inSendMsg {info : TcpAckInfo} {j : Index}
    (h : ((s.write i info).info j).inSendMsg = some ptr) :
    j = i ∧ info.inSendMsg = some ptr ∨ j ≠ i ∧ (s.info j).inSendMsg = some ptr := by
  obtain rfl | other := eq_or_ne j i
  · left
    simpa [Custody.info, Custody.write, Shared.write] using h
  · right
    refine ⟨other, ?_⟩
    simpa [Custody.info, Custody.write, Shared.write, TcpAckManage.setInfo_other _ _ other] using h

theorem write_same {info : TcpAckInfo} (h : info.inSendMsg = (s.info i).inSendMsg) (j : Index) :
    ((s.write i info).info j).inSendMsg = (s.info j).inSendMsg := by
  obtain rfl | other := eq_or_ne j i
  · simpa [Custody.info, Custody.write, Shared.write] using h
  · simp [Custody.info, Custody.write, Shared.write, TcpAckManage.setInfo_other _ _ other]

/-- A section that puts a message into transmission. -/
theorem handsOn_sends {info : TcpAckInfo} {msg : MsgBuf} {u : Spot}
    (sends : info.inSendMsg = some msg.ptr) (clears : ∀ i, u.Clears i msg.ptr) (plain : ∀ i ptr, ¬t.Clears i ptr) :
    HandsOn s t (s.write i info, some u) := by
  intro j ptr now
  obtain ⟨rfl, there⟩ | ⟨-, there⟩ := write_inSendMsg now
  · obtain rfl := Option.some.inj (sends.symm.trans there)
    exact .inr ⟨u, rfl, clears j⟩
  · exact .inl ⟨there, fun wrong => absurd wrong (plain j ptr)⟩

theorem handsOn_handle (call : SendCall) (type : Nat) (i : Index) (jiffies : BitVec 64) :
    HandsOn s (.filter (.handle call type i)) (s.handle call i jiffies) := by
  obtain ⟨info, handled, -, sends⟩ | ⟨info, handled, -, sends⟩ | ⟨info, handled, -, sends⟩ :=
    handleNew_keeps (s.info i) call.msg call.ack s.shared.filter.maxDropCnt jiffies
  · simp only [Custody.handle, handled]
    exact handsOn_same (write_same sends) fun _ _ _ wrong => wrong.elim
  · simp only [Custody.handle, handled]
    cases (s.info i).msgbuf with
    | none => exact handsOn_sends sends (fun _ => rfl) fun _ _ wrong => wrong
    | some old => exact handsOn_sends sends (fun _ => rfl) fun _ _ wrong => wrong
  · simp only [Custody.handle, handled]
    cases (s.info i).msgbuf with
    | none => exact handsOn_same (write_same sends) fun _ _ _ wrong => wrong.elim
    | some old => exact handsOn_same (write_same sends) fun _ _ _ wrong => wrong.elim

theorem handsOn_timeout (i : Index) : HandsOn s (.expired i) (s.timeout i) := by
  obtain ⟨msg, -, sends⟩ | waits := timeout_cases s i
  · rw [sends]
    exact handsOn_sends rfl (fun _ => rfl) fun _ _ wrong => wrong
  · rw [waits]
    exact handsOn_same (write_same rfl) fun _ _ _ wrong => wrong.elim

/-- `move_tcpack_msg` takes back its own message, from a busy slot. -/
theorem moveSlot_inSendMsg {msg : MsgBuf} {j : Index}
    (h : (({ s with shared := s.shared.moveSlot msg i } : Custody).info j).inSendMsg = some ptr) :
    (s.info j).inSendMsg = some ptr ∧ (j = i → (s.info i).busy = true → msg.ptr ≠ ptr) := by
  simp only [Shared.moveSlot] at h
  split at h
  next mine =>
      obtain ⟨rfl, wrong⟩ | ⟨other, there⟩ := write_inSendMsg h
      · cases wrong
      · exact ⟨there, fun same => absurd same other⟩
  next passed =>
      obtain ⟨rfl, there⟩ | ⟨other, there⟩ := write_inSendMsg h
      · refine ⟨there, ?_⟩
        rintro - busy rfl
        refine passed ?_
        rw [there]
        simpa [Custody.info] using busy
      · exact ⟨there, fun same => absurd same other⟩

theorem next_covers {i j : Index} (later : i ≤ j) (other : j ≠ i) : ∃ k, i.next = some k ∧ k ≤ j := by
  have below : i.val < j.val := Fin.lt_def.mp (lt_of_le_of_ne later (Ne.symm other))
  have more : i.val + 1 < 32 := Nat.lt_of_le_of_lt below j.isLt
  exact ⟨⟨i.val + 1, more⟩, dif_pos more, below⟩

theorem next_gt {i k : Index} (h : i.next = some k) : i < k := by
  simp only [Index.next, Option.dite_none_right_eq_some] at h
  obtain ⟨more, h⟩ := h
  obtain rfl := Option.some.inj h
  exact Nat.lt_succ_self i.val

theorem moveSlot_action {msg : MsgBuf} {choice : Choice} {r : Custody × Option Spot}
    (went : s.action others (.moveSlot msg i) choice = some r) :
    r.1 = { s with shared := s.shared.moveSlot msg i } ∧
      r.2 = i.next.elim (some (.kfree msg)) fun k => some (.moveSlot msg k) := by
  simp only [Custody.action] at went
  split at went
  next k more =>
      cases went
      exact ⟨rfl, by rw [more]; rfl⟩
  next none =>
      cases went
      exact ⟨rfl, by rw [none]; rfl⟩

theorem handsOn_moveSlot {msg : MsgBuf} {choice : Choice} {r : Custody × Option Spot}
    (takes : (s.info i).busy = true ∨ (s.info i).inSendMsg ≠ some msg.ptr)
    (went : s.action others (.moveSlot msg i) choice = some r) : HandsOn s (.moveSlot msg i) r := by
  obtain ⟨first, second⟩ := moveSlot_action went
  intro j ptr sends
  rw [first] at sends
  obtain ⟨was, cleared⟩ := moveSlot_inSendMsg sends
  refine .inl ⟨was, ?_⟩
  rintro ⟨rfl, later⟩
  have other : j ≠ i := by
    rintro rfl
    obtain busy | apart := takes
    · exact cleared rfl busy rfl
    · exact apart was
  obtain ⟨k, more, covers⟩ := next_covers later other
  rw [second, more]
  exact ⟨_, rfl, rfl, covers⟩

theorem handsOn_move {msg : MsgBuf} {choice : Choice} {r : Custody × Option Spot}
    (takes : s.shared.filter.enable = true ∨ ∀ i, (s.info i).inSendMsg ≠ some msg.ptr)
    (went : s.action others (.move msg) choice = some r) : HandsOn s (.move msg) r := by
  simp only [Custody.action] at went
  split at went
  next =>
      cases went
      refine handsOn_same (fun _ => rfl) fun i ptr _ clears => ?_
      exact ⟨_, rfl, clears, Fin.zero_le i⟩
  next disabled =>
      cases went
      refine handsOn_same (fun _ => rfl) fun i ptr sends clears => ?_
      obtain rfl : msg.ptr = ptr := clears
      obtain enabled | apart := takes
      · exact absurd enabled disabled
      · exact absurd sends (apart i)

theorem handsOn_quiet {p : Point} {jiffies : BitVec 64} {r : Shared × Option Point}
    (quiet : p.quiet = true) (went : s.shared.action [] p jiffies = some r) :
    HandsOn s (.filter p) (s.lift r) := by
  obtain ⟨same, -⟩ := quiet_action quiet went
  refine handsOn_same (fun i => ?_) fun _ _ _ wrong => wrong.elim
  rw [lift_state]
  exact same.inSendMsg i

/-- What a step shows that meets the condition. -/
theorem action_handsOn {c : CustodyConfig} {choice : Choice} {r : Custody × Option Spot}
    (takes : takesBack c (.run t choice) = true)
    (went : c.shared.action others t choice = some r) : HandsOn c.shared t r := by
  cases t with
  | filter p =>
      cases quiet : p.quiet with
      | true =>
          rw [action_filter quiet] at went
          obtain ⟨next, acted, rfl⟩ := Option.map_eq_some_iff.mp went
          exact handsOn_quiet quiet acted
      | false =>
          cases p with
          | handle call type i =>
              cases went
              exact handsOn_handle call type i choice.jiffies
          | expired i => cases went
          | move msg i => cases went
          | _ => cases quiet
  | drop msg send =>
      cases went
      refine handsOn_same (fun _ => rfl) fun i ptr _ clears => ?_
      cases send with
      | none => cases clears
      | some new => exact ⟨_, rfl, clears⟩
  | expired i =>
      cases went
      exact handsOn_timeout i
  | move msg =>
      simp only [takesBack, Bool.or_eq_true, List.all_eq_true, bne_iff_ne] at takes
      exact handsOn_move (takes.imp_right fun apart i => apart i (List.mem_finRange i)) went
  | moveSlot msg i =>
      simp only [takesBack, Bool.or_eq_true, bne_iff_ne] at takes
      exact handsOn_moveSlot takes went
  | kfree msg =>
      cases went
      exact handsOn_same (fun _ => rfl) fun _ _ _ wrong => wrong.elim
  | transmit msg =>
      cases went
      exact handsOn_same (fun _ => rfl) fun _ _ _ wrong => wrong.elim
  | deinit i =>
      simp only [Custody.action] at went
      split at went
      next =>
          cases went
          exact handsOn_same (write_same rfl) fun _ _ _ wrong => wrong.elim
      next =>
          cases went
          exact handsOn_same (write_same rfl) fun _ _ _ wrong => wrong.elim
  | deinitDrop msg i =>
      cases went
      exact handsOn_same (fun _ => rfl) fun _ _ _ wrong => wrong.elim

theorem event_awaited {e : XmitCall} {r : Custody × Option Spot} (went : s.event ts e = some r)
    (h : Awaited ⟨s, ts⟩) : Awaited ⟨r.1, r.2.toList ++ ts⟩ := by
  have same : ∀ i, (r.1.info i).inSendMsg = (s.info i).inSendMsg := by
    obtain ⟨msg, -, rfl⟩ | ⟨shared, next, same, -, rfl⟩ := event_cases went
    · exact fun _ => rfl
    · exact same.inSendMsg
  intro i ptr sends
  rw [same] at sends
  obtain ⟨u, member, clears⟩ := h i ptr sends
  exact ⟨u, List.mem_append_right _ member, clears⟩

/-- No other call has a message at the same address. -/
theorem Accounted.alone (h : Accounted ⟨s, t :: others⟩) {msg : MsgBuf} (mine : t.buffers = [msg])
    {u : Spot} (other : u ∈ others) : ¬u.Clears i msg.ptr := by
  intro clears
  have distinct : ((t.buffers ++ others.flatMap Spot.buffers ++ s.held).map MsgBuf.ptr).Nodup :=
    h.addresses
  rw [mine] at distinct
  obtain ⟨buf, known, same⟩ := List.mem_map.mp clears.live
  have among : buf ∈ others.flatMap Spot.buffers ++ s.held :=
    List.mem_append_left _ (List.mem_flatMap.mpr ⟨u, other, known⟩)
  exact (List.nodup_cons.mp distinct).1 (List.mem_map.mpr ⟨buf, among, same⟩)

/-- After a step that does not meet the condition, no call will come to the slot. -/
theorem action_lost {c : CustodyConfig} {choice : Choice} {r : Custody × Option Spot}
    (acc : Accounted ⟨c.shared, t :: others⟩) (misses : takesBack c (.run t choice) = false)
    (went : c.shared.action others t choice = some r) : ¬Awaited ⟨r.1, r.2.toList ++ others⟩ := by
  intro awaited
  cases t with
  | move msg =>
      simp only [takesBack, Bool.or_eq_false_iff, List.all_eq_false, bne_iff_ne, not_not] at misses
      obtain ⟨disabled, i, -, sends⟩ := misses
      simp only [Custody.action, disabled, Bool.false_eq_true, if_false] at went
      cases went
      obtain ⟨u, member, clears⟩ := awaited i msg.ptr sends
      cases List.mem_cons.mp member with
      | inl same =>
          subst same
          cases clears
      | inr other => exact acc.alone rfl other clears
  | moveSlot msg i =>
      simp only [takesBack, Bool.or_eq_false_iff, bne_eq_false_iff_eq] at misses
      obtain ⟨idle, sends⟩ := misses
      obtain ⟨first, second⟩ := moveSlot_action went
      have still : (r.1.info i).inSendMsg = some msg.ptr := by
        have idle' : (c.shared.shared.filter.ackInfo i).busy = false := idle
        rw [first]
        simp [Custody.info, Shared.moveSlot, Shared.write, idle']
        exact sends
      obtain ⟨u, member, clears⟩ := awaited i msg.ptr still
      cases List.mem_append.mp member with
      | inl next =>
          rw [second] at next
          cases more : i.next with
          | none =>
              rw [more] at next
              obtain rfl := List.mem_singleton.mp next
              cases clears
          | some k =>
              rw [more] at next
              obtain rfl := List.mem_singleton.mp next
              exact absurd clears.2 (not_le_of_gt (next_gt more))
      | inr other => exact acc.alone rfl other clears
  | _ => cases misses

end Transmission

theorem awaited_step {c c' : CustodyConfig} {label : Label XmitCall Spot Choice} (acc : Accounted c)
    (h : Awaited c) (went : custodyProgram.step c label = some c') :
    Awaited c' ↔ takesBack c label = true := by
  cases label with
  | event e =>
      obtain ⟨next, entered, rfl⟩ := Option.map_eq_some_iff.mp went
      exact iff_of_true (event_awaited entered h) rfl
  | run t choice =>
      simp only [Program.step, Option.ite_none_right_eq_some] at went
      obtain ⟨member, went⟩ := went
      obtain ⟨next, acted, rfl⟩ := Option.map_eq_some_iff.mp went
      have acted : c.shared.action (c.threads.erase t) t choice = some next := acted
      have same := List.perm_cons_erase member
      have front : Awaited ⟨c.shared, t :: c.threads.erase t⟩ := by
        intro i ptr sends
        obtain ⟨u, known, clears⟩ := h i ptr sends
        exact ⟨u, same.mem_iff.mp known, clears⟩
      cases takes : takesBack c (.run t choice) with
      | true => exact iff_of_true ((action_handsOn takes acted).awaited front) rfl
      | false =>
          have lost := action_lost (accounted_perm same acc) takes acted
          exact iff_of_false lost Bool.noConfusion

/-! ## The end -/

/-- `tcp_ack_deinit` alone leaves no message that was not sent or freed. -/
def Settles (c : CustodyConfig) : Prop :=
  ∃ labels c', Run.exec custodyProgram.step c (.event .deinit :: labels) = some c' ∧
    c'.threads = [] ∧ c'.shared.buffers.Accounts [] ∧ c'.shared.skbs.Accounts []

section Deinit

variable {s : Custody}

theorem step_alone (s : Custody) (t : Spot) (choice : Choice) :
    custodyProgram.step ⟨s, [t]⟩ (.run t choice) =
      (s.action [] t choice).map fun r => ⟨r.1, r.2.toList⟩ := by
  simp [Program.step, custodyProgram]

def anyChoice : Choice := ⟨0, ⟨true, true, true⟩⟩

/-- One slot is emptied, and the message it held is dropped. -/
theorem deinit_slot (s : Custody) (i : Index) :
    ∃ labels s', (∀ rest, Run.exec custodyProgram.step ⟨s, [.deinit i]⟩ (labels ++ rest) =
        Run.exec custodyProgram.step ⟨s', (i.next.map Spot.deinit).toList⟩ rest) ∧
      ∀ j, j = i ∨ (s.info j).msgbuf = none → (s'.info j).msgbuf = none := by
  have empties : ∀ j, j = i ∨ (s.info j).msgbuf = none → ((s.deinitSlot i).info j).msgbuf = none := by
    intro j free
    obtain rfl | other := eq_or_ne j i
    · simp [Custody.deinitSlot, Custody.info, Custody.write, Shared.write]
    · have kept : ((s.deinitSlot i).info j).msgbuf = (s.info j).msgbuf := by
        simp [Custody.deinitSlot, Custody.info, Custody.write, Shared.write,
          TcpAckManage.setInfo_other _ _ other]
      exact kept.trans (free.resolve_left other)
  cases was : (s.info i).msgbuf with
  | none =>
      refine ⟨[.run (.deinit i) anyChoice], s.deinitSlot i, fun rest => ?_, empties⟩
      have taken : custodyProgram.step ⟨s, [.deinit i]⟩ (.run (.deinit i) anyChoice) =
          some ⟨s.deinitSlot i, (i.next.map Spot.deinit).toList⟩ := by
        rw [step_alone]
        simp [Custody.action, was]
      simp only [List.singleton_append, Run.exec, taken, Option.bind_some]
  | some msg =>
      refine ⟨[.run (.deinit i) anyChoice, .run (.deinitDrop msg i) anyChoice],
        (s.deinitSlot i).dropMsg msg, fun rest => ?_, empties⟩
      have taken : custodyProgram.step ⟨s, [.deinit i]⟩ (.run (.deinit i) anyChoice) =
          some ⟨s.deinitSlot i, [.deinitDrop msg i]⟩ := by
        rw [step_alone]
        simp [Custody.action, was]
      have dropped : custodyProgram.step ⟨s.deinitSlot i, [.deinitDrop msg i]⟩
          (.run (.deinitDrop msg i) anyChoice) =
          some ⟨(s.deinitSlot i).dropMsg msg, (i.next.map Spot.deinit).toList⟩ := step_alone ..
      simp only [List.cons_append, List.nil_append, Run.exec, taken, dropped, Option.bind_some]

/-- One slot after another is emptied. -/
theorem deinit_runs (n : Nat) {s : Custody} {i : Index} (left : i.val + n = 31)
    (before : ∀ j < i, (s.info j).msgbuf = none) :
    ∃ labels c', Run.exec custodyProgram.step ⟨s, [.deinit i]⟩ labels = some c' ∧
      c'.threads = [] ∧ ∀ j, (c'.shared.info j).msgbuf = none := by
  obtain ⟨labels, s', runs, empties⟩ := deinit_slot s i
  induction n generalizing s s' i labels with
  | zero =>
      have last : i.next = none := dif_neg (by omega)
      refine ⟨labels, ⟨s', []⟩, ?_, rfl, fun j => empties j ?_⟩
      · have ends := runs []
        rw [List.append_nil, last] at ends
        exact ends
      · obtain below | same | above := lt_trichotomy j i
        · exact .inr (before j below)
        · exact .inl same
        · have beyond : i.val < j.val := above
          omega
  | succ n ih =>
      have more : i.val + 1 < 32 := by omega
      have next : i.next = some ⟨i.val + 1, more⟩ := dif_pos more
      obtain ⟨labels', s'', runs', empties'⟩ := deinit_slot s' ⟨i.val + 1, more⟩
      have before' : ∀ j < (⟨i.val + 1, more⟩ : Index), (s'.info j).msgbuf = none := by
        intro j below
        obtain earlier | same := Nat.lt_succ_iff_lt_or_eq.mp below
        · exact empties j (.inr (before j earlier))
        · exact empties j (.inl (Fin.ext same))
      obtain ⟨rest, c', ends, idle, free⟩ :=
        ih (i := ⟨i.val + 1, more⟩) (by simp only; omega) before' labels' s'' runs' empties'
      refine ⟨labels ++ rest, c', ?_, idle, free⟩
      rw [runs, next]
      exact ends

theorem settles_of_idle {c : CustodyConfig} (acc : Accounted c) (idle : c.threads = []) :
    Settles c := by
  obtain ⟨s, ts⟩ := c
  obtain rfl : ts = [] := idle
  obtain ⟨s', begun⟩ : ∃ s', custodyProgram.step ⟨s, []⟩ (.event .deinit) =
      some ⟨s', [.deinit Index.first]⟩ := ⟨_, rfl⟩
  obtain ⟨labels, c', ends, done, free⟩ := deinit_runs 31 (rfl : Index.first.val + 31 = 31)
    fun j below => absurd below (Nat.not_lt_zero j.val)
  have ran : Run.exec custodyProgram.step ⟨s, []⟩ (.event .deinit :: labels) = some c' := by
    rw [Run.exec, begun]
    exact ends
  obtain ⟨buffers, skbs, -, -⟩ := accounted_run acc (.exec _ .init ran)
  have held : c'.shared.held = [] := List.filterMap_eq_nil_iff.mpr fun j _ => free j
  have live : c'.shared.live c'.threads = [] := by rw [Custody.live, done, held]; rfl
  have cargo : c'.shared.cargo c'.threads = [] := by rw [Custody.cargo, done, held]; rfl
  rw [live] at buffers
  rw [cargo] at skbs
  exact ⟨labels, c', ran, done, buffers, skbs⟩

end Deinit

theorem awaited_init (jiffies timeout : BitVec 64) : Awaited ⟨.init jiffies timeout, []⟩ := by
  intro i ptr sends
  cases sends

/-- In every run each message is sent or freed once. As long as each message in transmission is
    taken back, no slot has the address of one that is gone. -/
theorem messages_owned (jiffies timeout : BitVec 64) (c : CustodyConfig) :
    (Run.Reachable custodyProgram.step Run.Free ⟨.init jiffies timeout, []⟩ c →
      Accounted c ∧ (c.threads = [] → Settles c)) ∧
    (Run.Reachable custodyProgram.step (fun c label => takesBack c label = true)
        ⟨.init jiffies timeout, []⟩ c →
      NoneDangling c ∧ ∀ label c', custodyProgram.step c label = some c' →
        (Awaited c' ↔ takesBack c label = true)) := by
  have base := accounted_init jiffies timeout
  constructor
  · intro run
    have acc := accounted_run base run
    exact ⟨acc, settles_of_idle acc⟩
  · intro run
    have acc := accounted_run base run
    have both : Accounted c ∧ Awaited c :=
      run.invariant (fun c => Accounted c ∧ Awaited c) ⟨base, awaited_init jiffies timeout⟩
        fun _ _ _ ⟨acc, awaited⟩ takes went =>
          ⟨accounted_step acc went, (awaited_step acc awaited went).mpr takes⟩
    exact ⟨both.2.noneDangling, fun label c' went => awaited_step acc both.2 went⟩

/-! ## A slot that ages while its message goes out -/

/-- The acknowledgement `ack` of the flow from `port`, as the message with the number `serial`. -/
def numbered (port ack : UInt8) (serial : Nat) : MsgBuf :=
  { sampleMsg port ack 0x10 with serial }

def numberedCall (port ack : UInt8) (serial : Nat) : SendCall where
  msg := numbered port ack serial
  ack := ⟨port.toNat, 80, 1, 2, .ofNat 32 ack.toNat, 65535⟩
  drop := 1
  winScale := 0

def runs (jiffies : BitVec 64) (t : Spot) : Label XmitCall Spot Choice :=
  .run t ⟨jiffies, ⟨true, true, true⟩⟩

def acts (jiffies : BitVec 64) (points : List Point) : List (Label XmitCall Spot Choice) :=
  points.map fun p => runs jiffies (.filter p)

/-- A call that finds no slot, from `tcp_check_ack` on. -/
def findsNone (call : SendCall) : List Point :=
  .checkAck call.msg :: (List.finRange 32).map (Point.matchSlot (.send call)) ++
    [.alloc call, .mark call Index.first]

/-- A call of a flow that has the first slot, up to the handler. -/
def findsFirst (call : SendCall) : List Point :=
  [.update call.msg, .checkAck call.msg, .matchSlot (.send call) Index.first,
    .rescale call Index.first]

/-- Two acknowledgements of one flow: the first takes the first slot, and the second is at the
    handler. -/
def twoAcks : List (Label XmitCall Spot Choice) :=
  .event (.xmit (numbered 1 1 0)) ::
    acts 0 (.update (numbered 1 1 0) :: findsNone (numberedCall 1 1 0)) ++
    .event (.xmit (numbered 1 2 1)) :: acts 0 (findsFirst (numberedCall 1 2 1))

/-- A call for another flow finds the first slot old. -/
def ages : List (Label XmitCall Spot Choice) :=
  .event (.xmit (numbered 2 1 2)) ::
    acts 5000 (.update (numbered 2 1 2) :: .updateLock (numbered 2 1 2) ::
      (List.finRange 32).reverse.map (Point.updateSlot (numbered 2 1 2)))

/-- The second acknowledgement goes out. -/
def goesOut : List (Label XmitCall Spot Choice) :=
  runs 5000 (.filter (.handle (numberedCall 1 2 1) 1 Index.first)) ::
    runs 5000 (.move (numbered 1 2 1)) ::
    (List.finRange 32).map (fun i => runs 5000 (.moveSlot (numbered 1 2 1) i)) ++
    [runs 5000 (.kfree (numbered 1 2 1))]

/-- The other flow is given the slot, and its next acknowledgement is at the handler. -/
def reuses : List (Label XmitCall Spot Choice) :=
  acts 5000 (findsNone (numberedCall 2 1 2)) ++
    .event (.xmit (numbered 2 2 3)) :: acts 5000 (findsFirst (numberedCall 2 2 3))

theorem messages_owned_sends : ∃ c,
    Run.exec custodyProgram.step ⟨.init 0 4000, []⟩
        (twoAcks ++ [runs 0 (.filter (.handle (numberedCall 1 2 1) 1 Index.first))]) = some c ∧
      (c.shared.info Index.first).inSendMsg = some 258 ∧ NoneDangling c := by
  have ends : (Run.exec custodyProgram.step ⟨.init 0 4000, []⟩
      (twoAcks ++ [runs 0 (.filter (.handle (numberedCall 1 2 1) 1 Index.first))])).map (fun c =>
        (c.shared.info Index.first).inSendMsg) = some (some 258) := by decide +kernel
  obtain ⟨c, run, sends⟩ := Option.map_eq_some_iff.mp ends
  exact ⟨c, run, sends, ((messages_owned 0 4000 c).2
    (.exec_guarded (fun _ _ ok => ok) _ .init run (by decide +kernel))).1⟩

/-- A slot that has aged keeps the address of the message that went out, and so does the flow that is
    given the slot: its handler looks at the address of a `msg_buf` that was freed. -/
theorem freed_address_compared : ¬∀ c,
    Run.Reachable custodyProgram.step Run.Free ⟨.init 0 4000, []⟩ c →
      ∀ t ∈ c.threads, ∀ i ∈ t.compares, ∀ ptr, (c.shared.info i).inSendMsg = some ptr →
        ptr ∈ (c.shared.live c.threads).map MsgBuf.ptr := by
  intro owned
  have ends : (Run.exec custodyProgram.step ⟨.init 0 4000, []⟩
      (twoAcks ++ ages ++ goesOut ++ reuses)).map (fun c =>
        (c.threads.contains (.filter (.handle (numberedCall 2 2 3) 1 Index.first)),
          (c.shared.info Index.first).inSendMsg, (c.shared.live c.threads).map MsgBuf.ptr)) =
      some (true, some 258, [514, 513, 257]) := by decide +kernel
  obtain ⟨c, run, found⟩ := Option.map_eq_some_iff.mp ends
  obtain ⟨waits, sends, live⟩ : c.threads.contains
      (.filter (.handle (numberedCall 2 2 3) 1 Index.first)) = true ∧
      (c.shared.info Index.first).inSendMsg = some 258 ∧
      (c.shared.live c.threads).map MsgBuf.ptr = [514, 513, 257] := by simpa using found
  have known :=
    owned c (.exec _ .init run) _ (List.contains_iff_mem.mp waits) Index.first rfl 258 sends
  rw [live] at known
  revert known
  decide

end Aic8800.TcpAck
