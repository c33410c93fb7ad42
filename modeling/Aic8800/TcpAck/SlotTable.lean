import Aic8800.Lib.Pool
import Aic8800.TcpAck.Concurrent

/-! # The slots of concurrent calls

A slot is counted and given to a call under `ack_m->lock`, and marked busy by that
call later, under the `seqlock` of the slot alone. The scan of
`tcp_ack_alloc_index` looks only at `busy`, so it can give a slot away twice; when
its read is repeated it counts the slot twice; and the lookup that found no slot
for a flow can be out of date when the slot is marked.
-/

namespace Aic8800.TcpAck

open Lib Threads

/-- The 4-tuple: `dest`, `source`, `saddr` and `daddr`. -/
abbrev Flow := Nat × Nat × Nat × Nat

def TcpAckMsg.flow (ack : TcpAckMsg) : Flow := (ack.dest, ack.source, ack.saddr, ack.daddr)

/-- The slots that calls have been counted for and have not yet marked. -/
def given (threads : List Point) : List Index := threads.filterMap Point.slot

structure SlotTable (c : FilterConfig) : Prop where
  counted : c.shared.filter.maxNum = (Finset.univ.filter fun i =>
    ((c.shared.filter.ackInfo i).busy || (given c.threads).contains i) = true).card
  bounded : 0 ≤ c.shared.filter.maxNum ∧ c.shared.filter.maxNum ≤ 32
  cached : ∀ i, c.shared.filter.freeIndex = some i →
    (c.shared.filter.ackInfo i).busy = false ∧ i ∉ given c.threads
  once : (given c.threads).Nodup
  unmarked : ∀ i ∈ given c.threads, (c.shared.filter.ackInfo i).busy = false
  flows : ∀ i j, (c.shared.filter.ackInfo i).busy = true → (c.shared.filter.ackInfo j).busy = true →
    (c.shared.filter.ackInfo i).ackMsg.flow = (c.shared.filter.ackInfo j).ackMsg.flow → i = j

/-- The scan takes only a slot that no other call has, no write section comes
    between when it does, and a call marks its slot while `tcp_ack_match` still
    finds none for its flow. -/
def undisturbed (s : Shared) (threads : List Point) : Point → Bool
  | .scanRead _ i _ => (s.filter.ackInfo i).busy || !(given threads).contains i
  | .scanRetry _ i start true => s.sequence i == start
  | .mark call _ => (s.filter.tcpAckMatch call.ack).isNone
  | _ => true

def undisturbedStep (c : FilterConfig) : Label Call Point (BitVec 64) → Bool
  | .event _ => true
  | .run t _ => undisturbed c.shared c.threads t

/-! ## The slots as a pool -/

namespace TcpAckInfo

def flow (info : TcpAckInfo) : Option Flow := if info.busy then some info.ackMsg.flow else none

theorem flow_eq {info info' : TcpAckInfo} (busy : info'.busy = info.busy)
    (same : info'.ackMsg.flow = info.ackMsg.flow) : info'.flow = info.flow := by
  simp only [flow, busy, same]

theorem flow_none_iff {info : TcpAckInfo} : info.flow = none ↔ info.busy = false := by
  simp [flow]

theorem flow_some_iff {info : TcpAckInfo} {k : Flow} :
    info.flow = some k ↔ info.busy = true ∧ info.ackMsg.flow = k := by
  simp [flow]

theorem follows_iff {info : TcpAckInfo} {ack : TcpAckMsg} :
    info.follows ack = true ↔ info.flow = some ack.flow := by
  simp [flow_some_iff, follows, TcpAckMsg.flow, and_assoc]

theorem Handles.flow {info next : TcpAckInfo} {msg : MsgBuf} {ack : TcpAckMsg} {maxDropCnt : Nat}
    {dropMsg : Option MsgBuf} {kept : Bool}
    (h : info.Handles msg ack maxDropCnt next dropMsg kept) : next.flow = info.flow := by
  cases h with
  | late lastTime older => rfl
  | out goes newer busy same recorded empty => exact flow_eq busy (by rw [same]; rfl)
  | held stays newer busy same recorded holds timer => exact flow_eq busy (by rw [same]; rfl)

theorem timeout_flow (info : TcpAckInfo) : info.tcpAckTimeout.1.flow = info.flow := by
  obtain ⟨msg, held, busy, unsent, result⟩ | ⟨idle, result⟩ := info.tcpAckTimeout_cases
  · rw [result]
    rfl
  · rw [result]
    rfl

end TcpAckInfo

theorem matched_none_iff {s : TcpAckManage} {ack : TcpAckMsg} :
    s.tcpAckMatch ack = none ↔ ∀ i, (s.ackInfo i).flow ≠ some ack.flow := by
  simp [TcpAckManage.tcpAckMatch, ← TcpAckInfo.follows_iff]

namespace Shared

def pool (s : Shared) (threads : List Point) : Pool Index Flow :=
  { key := fun i => (s.filter.ackInfo i).flow, given := given threads
    count := s.filter.maxNum, cache := s.filter.freeIndex }

theorem pool_write (s : Shared) (i : Index) (info : TcpAckInfo) (threads : List Point) :
    (s.write i info).pool threads =
      { s.pool threads with key := Function.update (s.pool threads).key i info.flow } := by
  simp only [pool, write, TcpAckManage.setInfo, Pool.mk.injEq, and_true]
  funext j
  by_cases same : j = i
  · subst same
    simp
  · simp [same]

/-- A section that leaves the slot to its flow does nothing to the pool. -/
theorem pool_write_same {s : Shared} {i : Index} {info : TcpAckInfo} {threads : List Point}
    (same : info.flow = (s.filter.ackInfo i).flow) :
    (s.write i info).pool threads = s.pool threads := by
  rw [pool_write, same]
  simp only [pool, Function.update_eq_self]

theorem pool_give {s : Shared} {i : Index} {t : Point} {others : List Point}
    (slot : t.slot = some i) : s.count.pool (t :: others) = (s.pool others).give i := by
  simp [pool, count, Pool.give, given, slot]

end Shared

theorem slotTable_iff (c : FilterConfig) : SlotTable c ↔ (c.shared.pool c.threads).Sound := by
  have taken : ∀ i, (c.shared.pool c.threads).taken i =
      ((c.shared.filter.ackInfo i).busy || (given c.threads).contains i) := by
    intro i
    cases busy : (c.shared.filter.ackInfo i).busy with
    | true => simp [Pool.taken, Shared.pool, TcpAckInfo.flow, busy]
    | false => simp [Pool.taken, Shared.pool, TcpAckInfo.flow, busy]
  constructor
  · intro h
    refine ⟨?_, fun i cached => ?_, h.once, fun i member => ?_, fun i j k left right => ?_⟩
    · simp only [taken]
      exact h.counted
    · rw [taken]
      simpa using h.cached i cached
    · exact TcpAckInfo.flow_none_iff.mpr (h.unmarked i member)
    · have here := TcpAckInfo.flow_some_iff.mp left
      have there := TcpAckInfo.flow_some_iff.mp right
      exact h.flows i j here.1 there.1 (here.2.trans there.2.symm)
  · intro h
    refine ⟨?_, h.bounded, fun i cached => ?_, h.once, fun i member => ?_,
      fun i j left right same => ?_⟩
    · have counted := h.counted
      simp only [taken] at counted
      exact counted
    · have free := h.cached i cached
      rw [taken] at free
      simpa using free
    · exact TcpAckInfo.flow_none_iff.mp (h.unused i member)
    · exact h.keys i j _ (TcpAckInfo.flow_some_iff.mpr ⟨left, rfl⟩)
        (TcpAckInfo.flow_some_iff.mpr ⟨right, same.symm⟩)

/-! ## What a step does to the pool -/

namespace Shared

variable {s : Shared} {i : Index} {others : List Point} {jiffies : BitVec 64}

theorem write_sound {info : TcpAckInfo} (h : (s.pool others).Sound)
    (same : info.flow = (s.filter.ackInfo i).flow) : ((s.write i info).pool others).Sound := by
  rw [pool_write_same same]
  exact h

theorem pool_rescaleSlot {call : SendCall} (h : (s.pool others).Sound) :
    ((s.rescaleSlot call i).pool others).Sound := by
  simp only [rescaleSlot]
  split
  · exact write_sound h rfl
  · exact h

theorem pool_moveSlot {msg : MsgBuf} (h : (s.pool others).Sound) :
    ((s.moveSlot msg i).pool others).Sound := by
  simp only [moveSlot]
  split
  · exact write_sound h rfl
  · exact write_sound h rfl

theorem pool_timeoutSlot (h : (s.pool others).Sound) :
    ((s.timeoutSlot i).1.pool ((s.timeoutSlot i).2.toList ++ others)).Sound := by
  have same := (s.filter.ackInfo i).timeout_flow
  simp only [timeoutSlot]
  split
  · exact write_sound h same
  · exact write_sound h same

theorem pool_updateSlot (h : (s.pool others).Sound) :
    ((s.updateSlot i jiffies).pool others).Sound := by
  simp only [updateSlot]
  split
  · rename_i old
    have used : (s.pool others).key i ≠ none := by
      intro unused
      have idle := TcpAckInfo.flow_none_iff.mp unused
      simp [TcpAckInfo.old, idle] at old
    have aged := h.release used
    have same : Pool.release (s.pool others) i =
        { (s.write i { s.filter.ackInfo i with busy := false }).pool others with
            count := s.filter.maxNum - 1, cache := some i } := by
      rw [pool_write]
      rfl
    rw [same] at aged
    exact aged
  · exact write_sound h rfl

theorem pool_mark {call : SendCall} {info : TcpAckInfo}
    (flow : info.flow = some call.ack.flow) :
    (s.write i info).pool others = (s.pool (.mark call i :: others)).use i call.ack.flow := by
  rw [pool_write, flow]
  simp [pool, Pool.use, given, Point.slot]

/-- A call gives up the slot that it has been counted for. -/
theorem pool_forget {t : Point} (slot : t.slot = some i) :
    s.pool others = (s.pool (t :: others)).forget i := by
  simp [pool, Pool.forget, given, slot]

theorem event_sound {e : Call} {next : Shared × Option Point} (h : (s.pool others).Sound)
    (went : s.event others e = some next) :
    (next.1.pool (next.2.toList ++ others)).Sound := by
  cases e with
  | send msg =>
      simp only [event] at went
      split at went
      · obtain rfl := Option.some.inj went
        exact h
      · obtain rfl := Option.some.inj went
        exact h
  | rx buf plen =>
      simp only [event] at went
      split at went
      · obtain rfl := Option.some.inj went
        exact h
      · obtain ⟨answer, -, rfl⟩ := Option.map_eq_some_iff.mp went
        cases answer with
        | none => exact h
        | some ack => exact h
  | timeout i =>
      simp only [event, Option.ite_none_right_eq_some] at went
      obtain ⟨-, went⟩ := went
      obtain rfl := Option.some.inj went
      have same : ({ s.filter.ackInfo i with timer := false } : TcpAckInfo).flow =
          (s.filter.ackInfo i).flow := rfl
      exact write_sound h same

/-- What the calls do that have no slot and take none. -/
theorem quiet_sound {t : Point} {next : Shared × Option Point} (h : (s.pool others).Sound)
    (quiet : t.takes = false) (went : s.action others t jiffies = some next) :
    (next.1.pool (next.2.toList ++ others)).Sound := by
  cases t with
  | update msg =>
      simp only [action] at went
      split at went
      · obtain rfl := Option.some.inj went
        exact h
      · obtain rfl := Option.some.inj went
        exact h
  | updateLock msg =>
      simp only [action, Option.ite_none_left_eq_some] at went
      obtain ⟨-, went⟩ := went
      obtain rfl := Option.some.inj went
      exact h
  | updateSlot msg i =>
      simp only [action] at went
      have aged : ((s.updateSlot i jiffies).pool others).Sound := pool_updateSlot h
      split at went
      · obtain rfl := Option.some.inj went
        exact aged
      · obtain rfl := Option.some.inj went
        exact aged
  | checkAck msg =>
      simp only [action] at went
      obtain ⟨check, -, went⟩ := Option.bind_eq_some_iff.mp went
      split at went
      · obtain rfl := Option.some.inj went
        exact h
      · obtain ⟨ack, -, rfl⟩ := Option.map_eq_some_iff.mp went
        exact h
  | matchSlot lookup i =>
      simp only [action] at went
      split at went
      · cases lookup with
        | send call =>
            obtain rfl := Option.some.inj went
            exact h
        | rx ack =>
            obtain rfl := Option.some.inj went
            exact h
      · split at went
        · obtain rfl := Option.some.inj went
          exact h
        · obtain rfl := Option.some.inj went
          exact h
        · obtain rfl := Option.some.inj went
          exact h
  | rescale call i =>
      simp only [action] at went
      have scaled : ((s.rescaleSlot call i).pool others).Sound := pool_rescaleSlot h
      split at went
      · obtain rfl := Option.some.inj went
        exact scaled
      · obtain rfl := Option.some.inj went
        exact scaled
  | handle call type i =>
      simp only [action] at went
      have handled := write_sound h
        ((s.filter.ackInfo i).handleNew_handles call.msg call.ack s.filter.maxDropCnt jiffies).flow
      split at went
      · obtain rfl := Option.some.inj went
        exact handled
      · obtain rfl := Option.some.inj went
        exact handled
  | alloc call => cases quiet
  | scanBegin call i =>
      obtain rfl := Option.some.inj went
      exact h
  | scanRead call i start => cases quiet
  | scanRetry call i start found =>
      cases found with
      | true => cases quiet
      | false =>
          simp only [action, Bool.false_eq_true, if_false] at went
          split at went
          · obtain rfl := Option.some.inj went
            exact h
          · split at went
            · obtain rfl := Option.some.inj went
              exact h
            · obtain rfl := Option.some.inj went
              exact h
  | mark call i => cases quiet
  | quick ack i =>
      obtain rfl := Option.some.inj went
      exact write_sound h rfl
  | expired i =>
      obtain rfl := Option.some.inj went
      exact pool_timeoutSlot h
  | move msg i =>
      simp only [action] at went
      have moved : ((s.moveSlot msg i).pool others).Sound := pool_moveSlot h
      split at went
      · split at went
        · obtain rfl := Option.some.inj went
          exact moved
        · obtain rfl := Option.some.inj went
          exact moved
      · obtain rfl := Option.some.inj went
        exact h

theorem taken_iff_busy : (s.pool others).taken i = false ↔
    (s.filter.ackInfo i).busy = false ∧ i ∉ given others := by
  rw [Pool.free_iff]
  exact and_congr_left fun _ => TcpAckInfo.flow_none_iff

/-- An action keeps the pool sound exactly when it is not disturbed. -/
theorem action_sound {t : Point} {next : Shared × Option Point}
    (h : (s.pool (t :: others)).Sound) (went : s.action others t jiffies = some next) :
    (next.1.pool (next.2.toList ++ others)).Sound ↔ undisturbed s (t :: others) t = true := by
  cases t with
  | alloc call =>
      have idle : (s.pool others).Sound := h
      refine iff_of_true ?_ rfl
      simp only [action, Option.ite_none_left_eq_some] at went
      obtain ⟨-, went⟩ := went
      split at went
      · obtain rfl := Option.some.inj went
        exact idle
      · split at went
        · rename_i i cached
          obtain rfl := Option.some.inj went
          have given : s.count.pool (.mark call i :: others) = (s.pool others).give i :=
            pool_give rfl
          have sound := idle.give (idle.cached i cached)
          rw [← given] at sound
          exact sound
        · obtain rfl := Option.some.inj went
          exact idle
  | scanRead call i start =>
      have idle : (s.pool others).Sound := h
      simp only [action] at went
      split at went
      · rename_i busy
        obtain rfl := Option.some.inj went
        exact iff_of_true idle (by simp [undisturbed, busy])
      · rename_i unmarked
        obtain rfl := Option.some.inj went
        have given : s.count.pool (.scanRetry call i start true :: others) =
            (s.pool others).give i := pool_give rfl
        have counts := idle.give_iff (i := i)
        rw [← given, taken_iff_busy] at counts
        exact counts.trans (by simp [undisturbed, unmarked, TcpAck.given, Point.slot])
  | scanRetry call i start found =>
      cases found with
      | false => exact iff_of_true (quiet_sound h rfl went) rfl
      | true =>
          have mine : i ∈ (s.pool (.scanRetry call i start true :: others)).given :=
            List.mem_cons_self
          simp only [action] at went
          split at went
          · rename_i written
            obtain rfl := Option.some.inj went
            have lost := h.forget mine
            rw [← pool_forget rfl] at lost
            exact iff_of_false lost (by simpa [undisturbed] using written)
          · rename_i unwritten
            obtain rfl := Option.some.inj went
            exact iff_of_true h (by simpa [undisturbed] using unwritten)
  | mark call i =>
      obtain rfl := Option.some.inj went
      have mine : i ∈ (s.pool (.mark call i :: others)).given := List.mem_cons_self
      have marks := h.use_iff mine (k := call.ack.flow)
      have flow : ((s.filter.ackInfo i).assign call.msg call.ack call.winScale s.filter.maxDropCnt
          jiffies).flow = some call.ack.flow := rfl
      rw [← pool_mark flow] at marks
      refine marks.trans ?_
      simp only [undisturbed, Option.isNone_iff_eq_none, matched_none_iff]
      rfl
  | _ => exact iff_of_true (quiet_sound h rfl went) rfl

end Shared

/-! ## Every run -/

theorem given_perm {ts us : List Point} (same : ts.Perm us) : (given ts).Perm (given us) :=
  same.filterMap _

theorem Shared.pool_perm {s : Shared} {ts us : List Point} (h : (s.pool ts).Sound)
    (same : ts.Perm us) : (s.pool us).Sound :=
  h.perm rfl rfl rfl (given_perm same.symm)

theorem undisturbed_perm {s : Shared} {ts us : List Point} (same : ts.Perm us) (t : Point) :
    undisturbed s ts t = undisturbed s us t := by
  cases t with
  | scanRead call i start => simp only [undisturbed, (given_perm same).contains_eq]
  | scanRetry call i start found =>
      cases found with
      | true => rfl
      | false => rfl
  | _ => rfl

theorem slotTable_init (jiffies timeout : BitVec 64) :
    SlotTable ⟨.init jiffies timeout, []⟩ := by
  constructor
  · simp [Shared.init, tcpAckInit, given]
  · exact ⟨le_refl 0, Int.zero_le_ofNat 32⟩
  · exact fun i _ => ⟨rfl, List.not_mem_nil⟩
  · exact List.nodup_nil
  · exact fun i member => absurd member List.not_mem_nil
  · exact fun i j busy => by cases busy

theorem step_sound {c c' : FilterConfig} {label : Label Call Point (BitVec 64)}
    (h : SlotTable c) (went : filterProgram.step c label = some c') :
    SlotTable c' ↔ undisturbedStep c label = true := by
  rw [slotTable_iff] at h ⊢
  cases label with
  | event e =>
      obtain ⟨next, started, rfl⟩ := Option.map_eq_some_iff.mp went
      exact iff_of_true (Shared.event_sound h started) rfl
  | run t jiffies =>
      simp only [Program.step] at went
      split at went
      · rename_i member
        obtain ⟨next, moved, rfl⟩ := Option.map_eq_some_iff.mp went
        have same := List.perm_cons_erase member
        have acts := Shared.action_sound (Shared.pool_perm h same) moved
        rw [undisturbed_perm same.symm] at acts
        exact acts
      · cases went

/-- In a run whose calls are undisturbed the slot table is right throughout, and a
    step keeps it right only if it is undisturbed too. -/
theorem slot_table (jiffies timeout : BitVec 64) (c : FilterConfig)
    (run : Run.Reachable filterProgram.step (fun c label => undisturbedStep c label = true)
      ⟨.init jiffies timeout, []⟩ c) :
    SlotTable c ∧ ∀ label c', filterProgram.step c label = some c' →
      (SlotTable c' ↔ undisturbedStep c label = true) := by
  have table : SlotTable c :=
    run.invariant SlotTable (slotTable_init jiffies timeout) fun _ _ _ h calm went =>
      (step_sound h went).mpr calm
  exact ⟨table, fun label c' went => step_sound table went⟩

/-- A call for a flow without a slot, up to where it has been given one. -/
def toAlloc (msg : MsgBuf) (call : SendCall) : List (Label Call Point (BitVec 64)) :=
  [.event (.send msg), .run (.update msg) 0, .run (.checkAck msg) 0] ++
    (List.finRange 32).map (fun i => .run (.matchSlot (.send call) i) 0) ++ [.run (.alloc call) 0]

/-- The acknowledgement 1 of the flow of `sampleMsg port 1 0x10`, as it is looked up. -/
def sampleCall (port : UInt8) : SendCall :=
  { msg := sampleMsg port 1 0x10
    ack := { source := port.toNat, dest := 80, saddr := 1, daddr := 2, seq := 1, win := 65535 }
    drop := 1, winScale := 0 }

/-- One call, up to its mark. -/
def marked : List (Label Call Point (BitVec 64)) :=
  toAlloc (sampleMsg 1 1 0x10) (sampleCall 1) ++ [.run (.mark (sampleCall 1) Index.first) 0]

theorem slot_table_marked : ∃ c,
    Run.exec filterProgram.step ⟨.init 0 4000, []⟩ marked = some c ∧
      (c.shared.filter.ackInfo Index.first).busy = true ∧ SlotTable c := by
  have ends : (Run.exec filterProgram.step ⟨.init 0 4000, []⟩ marked).map (fun c =>
      (c.shared.filter.ackInfo Index.first).busy) = some true := by decide +kernel
  obtain ⟨c, run, busy⟩ := Option.map_eq_some_iff.mp ends
  exact ⟨c, run, busy, (slot_table 0 4000 c (.exec_guarded (fun _ _ ok => ok) marked .init run
    (by decide +kernel))).1⟩

/-- Two calls for different flows: while the first has its slot but has not marked
    it, the second scans, and takes the same one. -/
def overtaken : List (Label Call Point (BitVec 64)) :=
  toAlloc (sampleMsg 1 1 0x10) (sampleCall 1) ++ toAlloc (sampleMsg 2 1 0x10) (sampleCall 2) ++
    [.run (.scanBegin (sampleCall 2) Index.first) 0, .run (.scanRead (sampleCall 2) Index.first 0) 0]

theorem slot_given_twice : ¬ ∀ c,
    Run.Reachable filterProgram.step Run.Free ⟨.init 0 4000, []⟩ c → SlotTable c := by
  intro table
  have ends : (Run.exec filterProgram.step ⟨.init 0 4000, []⟩ overtaken).map
      (fun c => given c.threads) = some [Index.first, Index.first] := by decide +kernel
  obtain ⟨c, run, twice⟩ := Option.map_eq_some_iff.mp ends
  have once := (table c (.exec overtaken .init run)).once
  rw [twice] at once
  cases once with
  | cons apart rest => exact apart Index.first List.mem_cons_self rfl

end Aic8800.TcpAck
