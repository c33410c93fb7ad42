import Aic8800.TcpAck.Filter

/-! # Which segments the filter keeps

A pure acknowledgement is one that a newer one replaces: no payload, none of the
flags that ask for more, and no option but padding and timestamps. The check of
the filter finds out about the payload and the options, and not about the flags;
the handler in use looks at no class at all. So a segment of a flow with a busy
slot is kept whatever it carries, unless the slot is about to let one through.
-/

namespace Aic8800.TcpAck

open Lib

/-- The kinds of the options in a header. An `EOL` ends them, and an option that
    runs over the end of the header, by `skip` bytes, is an error. -/
def tcpOptions : List UInt8 → (skip : Nat) → Option (List Nat)
  | [], 0 => some []
  | [], _ + 1 => none
  | _ :: rest, skip + 1 => tcpOptions rest skip
  | kind :: rest, 0 =>
      if kind.toNat = tcpoptEol then some [tcpoptEol]
      else if kind.toNat = tcpoptNop then (tcpOptions rest 0).map (tcpoptNop :: ·)
      else
        match rest with
        | [] => none
        | size :: rest =>
            if size.toNat < 2 then none
            else (tcpOptions rest (size.toNat - 2)).map (kind.toNat :: ·)

/-- The IP header, the total length and the offset of the data agree that nothing
    follows the TCP header. -/
def NoPayload (buf : List UInt8) : Prop :=
  ∃ first totLen doff, byte buf ipOffset = some first ∧ be16 buf (ipOffset + 2) = some totLen ∧
    byte buf (ipOffset + first % 16 * 4 + 12) = some doff ∧
      totLen ≤ first % 16 * 4 + doff / 16 * 4

/-- None of `FIN`, `SYN`, `RST` and `URG`. -/
def plainFlags (buf : List UInt8) : Bool :=
  (byte buf ipOffset).any fun first =>
    (byte buf (ipOffset + first % 16 * 4 + 13)).any fun flags => flags &&& 0x27 == 0

/-- No option other than `NOP`, `EOL` and timestamps. -/
def plainOptions (buf : List UInt8) : Bool :=
  (byte buf ipOffset).any fun first =>
    let tcp := ipOffset + first % 16 * 4
    (byte buf (tcp + 12)).any fun doff =>
      (tcpOptions ((buf.drop (tcp + 20)).take (doff / 16 * 4 - 20)) 0).any fun kinds =>
        kinds.all fun kind => kind ∈ [tcpoptNop, tcpoptEol, tcpoptTimestamp]

structure PureAck (buf : List UInt8) : Prop where
  payload : NoPayload buf
  flags : plainFlags buf = true
  options : plainOptions buf = true

/-- What the filter holds and what it has freed is pure, and it has kept nothing of
    class 2. -/
structure OnlyPure (s : TcpAckManage) : Prop where
  held : ∀ i msg, (s.ackInfo i).msgbuf = some msg → PureAck msg.data
  freed : ∀ msg ∈ s.freed, PureAck msg.data
  sent : ∀ kept ∈ s.withheld, kept.2 ≠ 2

/-- A segment that the slot of its flow will not let through has only plain flags
    and options, and is not of class 2. -/
def harmless (s : TcpAckManage) : Event → Bool
  | .send msg jiffies =>
      let u := s.tcpAckUpdate jiffies
      match tcpCheckAck msg.data with
      | some ⟨drop, winScale, some ack⟩ =>
          decide (maxTcpAck < msg.len) || !u.enable ||
            (u.tcpAckMatch ack).all fun i =>
              (u.ackInfo i).goesOut ack u.maxDropCnt ||
                (plainFlags msg.data && plainOptions msg.data &&
                  u.handlerType (u.rescaled i winScale) ack drop winScale != 2)
      | _ => true
  | _ => true

/-- The check itself sees to the payload. -/
theorem noPayload_of_check {buf : List UInt8} {check : AckCheck} (h : tcpCheckAck buf = some check)
    (drops : 0 < check.drop) : NoPayload buf := by
  obtain rfl | ⟨tcp, flags, totLen, header, total, scanned, -⟩ := tcpCheckAck_cases h
  · cases drops
  · obtain ⟨first, found, rfl, -⟩ := tcpHeader_spec header
    obtain ⟨doff, offset, fits⟩ := (isDropTcpAck_spec scanned).2 drops
    refine ⟨first, totLen, doff, found, total, offset, ?_⟩
    have length : ipOffset + first % 16 * 4 - ipOffset = first % 16 * 4 := by omega
    rw [length] at fits
    omega

namespace OnlyPure

variable {s t : TcpAckManage}

theorem quiet (h : OnlyPure s) (q : Quiet s t) : OnlyPure t := by
  obtain ⟨core, -, -, freed, withheld⟩ := q
  refine ⟨fun i msg held => h.held i msg ?_, freed ▸ h.freed, withheld ▸ h.sent⟩
  have same : (t.ackInfo i).msgbuf = (s.ackInfo i).msgbuf := congrArg (·.2.2.1) (core i)
  exact same.symm.trans held

theorem pass (h : OnlyPure s) (msg : MsgBuf) : OnlyPure (s.pass msg) := ⟨h.held, h.freed, h.sent⟩

theorem setInfo (h : OnlyPure s) (i : Index) {info : TcpAckInfo}
    (here : ∀ msg, info.msgbuf = some msg → PureAck msg.data) : OnlyPure (s.setInfo i info) :=
  ⟨s.setInfo_forall (P := fun _ info => ∀ msg, info.msgbuf = some msg → PureAck msg.data)
    h.held here, h.freed, h.sent⟩

theorem update (h : OnlyPure s) (jiffies : BitVec 64) : OnlyPure (s.tcpAckUpdate jiffies) := by
  obtain ⟨-, freed, withheld⟩ := s.update_logs jiffies
  refine ⟨fun i msg held => h.held i msg ?_, freed ▸ h.freed, withheld ▸ h.sent⟩
  rw [s.update_info] at held
  split at held
  · exact held
  · exact held

/-- What the condition says of a frame that comes to the handler. -/
theorem harmless_iff {msg : MsgBuf} {jiffies : BitVec 64} {check : AckCheck} {ack : TcpAckMsg}
    {i : Index} (short : msg.len ≤ maxTcpAck) (checked : tcpCheckAck msg.data = some check)
    (filled : check.msg = some ack) (found : (s.tcpAckUpdate jiffies).tcpAckMatch ack = some i)
    (enabled : (s.tcpAckUpdate jiffies).enable = true) :
    harmless s (.send msg jiffies) = true ↔
      ((s.tcpAckUpdate jiffies).ackInfo i).goesOut ack (s.tcpAckUpdate jiffies).maxDropCnt = true ∨
        (plainFlags msg.data = true ∧ plainOptions msg.data = true ∧
          (s.tcpAckUpdate jiffies).handlerType
            ((s.tcpAckUpdate jiffies).rescaled i check.winScale) ack check.drop check.winScale ≠ 2) := by
  obtain ⟨drop, winScale, read⟩ := check
  obtain rfl : read = some ack := filled
  have notLong : ¬ maxTcpAck < msg.len := by omega
  simp [harmless, checked, found, enabled, notLong, and_assoc]

/-- Only a frame that comes to the handler can fail the condition. -/
theorem harmless_false {msg : MsgBuf} {jiffies : BitVec 64}
    (harmful : harmless s (.send msg jiffies) = false) :
    msg.len ≤ maxTcpAck ∧ ∃ check ack i, tcpCheckAck msg.data = some check ∧
      check.msg = some ack ∧ (s.tcpAckUpdate jiffies).tcpAckMatch ack = some i ∧
        (s.tcpAckUpdate jiffies).enable = true := by
  simp only [harmless] at harmful
  split at harmful
  · rename_i drop winScale ack checked
    simp only [Bool.or_eq_false_iff, decide_eq_false_iff_not, Bool.not_eq_eq_eq_not,
      Bool.not_false] at harmful
    obtain ⟨⟨short, enabled⟩, fails⟩ := harmful
    cases found : (s.tcpAckUpdate jiffies).tcpAckMatch ack with
    | none => simp [found] at fails
    | some i => exact ⟨by omega, _, ack, i, checked, rfl, found, enabled⟩
  · cases harmful

/-- A message that the handler keeps or frees was pure when it came. -/
theorem handled {i : Index} {next : TcpAckInfo} {dropMsg : Option MsgBuf} {kept : Bool}
    {msg : MsgBuf} {ack : TcpAckMsg} {winScale type : Nat} (h : OnlyPure s)
    (handles : (s.rescaled i winScale).Handles msg ack s.maxDropCnt next dropMsg kept)
    (fine : kept = true → PureAck msg.data ∧ type ≠ 2) :
    OnlyPure
      { s.setInfo i next with
        freed := s.freed ++ dropMsg.toList
        withheld := if kept then s.withheld ++ [(msg, type)] else s.withheld } := by
  have held : ∀ old, (s.rescaled i winScale).msgbuf = some old → PureAck old.data := by
    have same : (s.rescaled i winScale).msgbuf = (s.ackInfo i).msgbuf :=
      congrArg (·.2.2.1) (s.rescaled_core i winScale)
    exact fun old found => h.held i old (same.symm.trans found)
  have sent : ∀ entry ∈ (if kept then s.withheld ++ [(msg, type)] else s.withheld),
      entry.2 ≠ 2 := by
    intro entry member
    split at member
    · rename_i keeps
      rw [List.mem_append, List.mem_singleton] at member
      obtain before | rfl := member
      · exact h.sent entry before
      · exact (fine keeps).2
    · exact h.sent entry member
  cases handles with
  | late lastTime older =>
      have slots := h.setInfo i (show ∀ old,
        ({ s.rescaled i winScale with lastTime } : TcpAckInfo).msgbuf = some old →
          PureAck old.data from held)
      refine ⟨slots.held, fun old member => ?_, sent⟩
      rw [Option.toList_some, List.mem_append, List.mem_singleton] at member
      obtain before | rfl := member
      · exact h.freed old before
      · exact (fine rfl).1
  | out goes newer busy flow recorded empty =>
      refine ⟨(h.setInfo i fun old found => by cases empty.symm.trans found).held,
        fun old member => ?_, sent⟩
      rw [List.mem_append, Option.mem_toList] at member
      obtain before | mine := member
      · exact h.freed old before
      · exact held old mine
  | held stays newer busy flow recorded holds timer =>
      refine ⟨(h.setInfo i fun old found => ?_).held, fun old member => ?_, sent⟩
      · obtain rfl := Option.some.inj (holds.symm.trans found)
        exact (fine rfl).1
      · rw [List.mem_append, Option.mem_toList] at member
        obtain before | mine := member
        · exact h.freed old before
        · exact held old mine

/-- Each operation keeps the rule, except a send that is not harmless. -/
theorem step {e : Event} (h : OnlyPure s) (ok : harmless s e = true) (went : s.step e = some t) :
    OnlyPure t := by
  cases TcpAckManage.step_steps went with
  | long exceeds => exact h.pass _
  | @send msg jiffies _ short sent =>
      have aged := h.update jiffies
      cases sent with
      | through q unhandled => exact (aged.quiet q).pass _
      | @handled check ack i next dropMsg kept checked filled found enabled handles =>
          have cases_ := (harmless_iff short checked filled found enabled).mp ok
          have drops := (tcpCheckAck_spec checked).1.mp (by simp [filled])
          have fine : kept = true → PureAck msg.data ∧
              (s.tcpAckUpdate jiffies).handlerType
                ((s.tcpAckUpdate jiffies).rescaled i check.winScale) ack check.drop
                check.winScale ≠ 2 := by
            intro keeps
            obtain goes | ⟨flags, options, type⟩ := cases_
            · rw [← TcpAckManage.rescaled_goesOut _ i check.winScale] at goes
              cases handles with
              | late lastTime older => simp [TcpAckInfo.goesOut, older] at goes
              | out out => cases keeps
              | held stays => cases stays.symm.trans goes
            · exact ⟨⟨noPayload_of_check checked drops, flags, options⟩, type⟩
          have kept_pure := handled aged handles fine
          cases kept with
          | true => exact kept_pure
          | false => exact kept_pure.pass msg
      | assigned checked filled unmatched alloc =>
          obtain ⟨-, maxNum, rfl⟩ := TcpAckManage.alloc_some alloc
          have same : OnlyPure { s.tcpAckUpdate jiffies with freeIndex := none, maxNum } :=
            ⟨aged.held, aged.freed, aged.sent⟩
          refine (same.setInfo _ ?_).pass msg
          exact aged.held _
  | @expires i msg next pending held busy unsent stays empty flow recorded =>
      exact (h.setInfo _ fun old found => by cases empty.symm.trans found).pass _
  | @expiresIdle i pending idle =>
      refine h.setInfo i ?_
      exact h.held i
  | move q => exact h.quiet q
  | rx q => exact h.quiet q

/-- A send that is not harmless is kept, and should not have been. -/
theorem lost {e : Event} (harmful : harmless s e = false) (went : s.step e = some t) :
    ¬ OnlyPure t := by
  intro h
  cases e with
  | send msg jiffies =>
      obtain ⟨short, check, ack, i, checked, filled, found, enabled⟩ := harmless_false harmful
      have impure := (harmless_iff short checked filled found enabled).not.mp (by simp [harmful])
      rw [not_or] at impure
      obtain ⟨stays, impure⟩ := impure
      cases TcpAckManage.step_steps went with
      | long exceeds => omega
      | send _ sent =>
          cases sent with
          | through q unhandled =>
              cases enabled.symm.trans (unhandled check ack i checked filled found)
          | @handled check' ack' i' next dropMsg kept checked' filled' found' _ handles =>
              obtain rfl := Option.some.inj (checked.symm.trans checked')
              obtain rfl := Option.some.inj (filled.symm.trans filled')
              obtain rfl := Option.some.inj (found.symm.trans found')
              rw [← TcpAckManage.rescaled_goesOut _ i check.winScale] at stays
              apply impure
              cases handles with
              | late lastTime older =>
                  have freed := h.freed msg (by simp)
                  exact ⟨freed.flags, freed.options, h.sent _ (by simp; exact .inr rfl)⟩
              | out goes => exact absurd goes stays
              | held keeps newer busy flow recorded holds timer =>
                  have held := h.held i msg (by simpa using holds)
                  exact ⟨held.flags, held.options, h.sent _ (by simp; exact .inr rfl)⟩
          | assigned checked' filled' unmatched alloc =>
              obtain rfl := Option.some.inj (checked.symm.trans checked')
              obtain rfl := Option.some.inj (filled.symm.trans filled')
              cases unmatched.symm.trans found
  | timeout i => cases harmful
  | move ptr => cases harmful
  | rx buf plen => cases harmful

end OnlyPure

theorem onlyPure_init (jiffies timeout : BitVec 64) : OnlyPure (tcpAckInit jiffies timeout) := by
  constructor
  · exact fun i msg held => by cases held
  · exact fun msg member => by cases member
  · exact fun kept member => by cases member

/-- In a run whose sends are harmless the filter holds and frees pure
    acknowledgements only; a send that is not harmless breaks the rule at once. -/
theorem only_pure_kept (jiffies timeout : BitVec 64) (s : TcpAckManage)
    (run : Run.Reachable TcpAckManage.step (fun s e => harmless s e = true)
      (tcpAckInit jiffies timeout) s) :
    OnlyPure s ∧ ∀ e t, s.step e = some t → (OnlyPure t ↔ harmless s e = true) := by
  have pure : OnlyPure s :=
    run.invariant OnlyPure (onlyPure_init jiffies timeout) fun _ _ _ h ok went => h.step ok went
  refine ⟨pure, fun e t went => ⟨fun kept => ?_, fun ok => pure.step ok went⟩⟩
  by_contra harmful
  exact OnlyPure.lost (by simpa using harmful) went kept

theorem only_pure_kept_replaced : ∃ s,
    Run.exec TcpAckManage.step (tcpAckInit 0 4000) replacedRun = some s ∧
      s.freed = [sampleMsg 1 3 0x10] ∧ OnlyPure s :=
  ⟨_, rfl, rfl, (only_pure_kept 0 4000 _
    (.exec_guarded (fun _ _ ok => ok) replacedRun .init rfl (by decide))).1⟩

/-- A `FIN` of a flow that has sent two acknowledgements is held. -/
theorem fin_held : ¬ ∀ s, Run.Reachable TcpAckManage.step Run.Free (tcpAckInit 0 4000) s →
    OnlyPure s := by
  intro pure
  have held := pure _
    (.exec [sendAck 1 1, sendAck 1 2, .move (sampleMsg 1 2 0x10).ptr,
      .send (sampleMsg 1 3 0x11) 0] .init rfl)
  have fin := (held.held 0 (sampleMsg 1 3 0x11) rfl).flags
  revert fin
  decide

end Aic8800.TcpAck
