import Aic8800.TcpAck.Filter

/-! # The timer of a held acknowledgement

A slot that holds a message has its timer pending, and the expiry sends the
message. The handler of the timer does nothing, however, while another message of
the slot is with the transmit path or when the slot has aged, and nothing arms
the timer again.
-/

namespace Aic8800.TcpAck

open Lib

def Timed (s : TcpAckManage) : Prop :=
  ∀ i, (s.ackInfo i).msgbuf ≠ none → (s.ackInfo i).timer = true

/-- A timer that expires over a held message finds its slot busy and nothing of it
    with the transmit path. -/
def expiryReady (s : TcpAckManage) : Event → Bool
  | .timeout i =>
      (s.ackInfo i).msgbuf.isNone || ((s.ackInfo i).busy && (s.ackInfo i).inSendMsg.isNone)
  | _ => true

namespace Timed

variable {s t : TcpAckManage}

theorem quiet (h : Timed s) (q : Quiet s t) : Timed t := by
  intro i held
  have timer : (t.ackInfo i).timer = (s.ackInfo i).timer := congrArg (·.2.1) (q.core i)
  have msgbuf : (t.ackInfo i).msgbuf = (s.ackInfo i).msgbuf := congrArg (·.2.2.1) (q.core i)
  rw [timer]
  exact h i (msgbuf ▸ held)

theorem pass (h : Timed s) (msg : MsgBuf) : Timed (s.pass msg) := h

theorem setInfo (h : Timed s) (i : Index) {info : TcpAckInfo}
    (here : info.msgbuf ≠ none → info.timer = true) : Timed (s.setInfo i info) :=
  s.setInfo_forall (P := fun _ info => info.msgbuf ≠ none → info.timer = true) h here

theorem update (h : Timed s) (jiffies : BitVec 64) : Timed (s.tcpAckUpdate jiffies) := by
  intro i
  rw [s.update_info]
  split
  · exact h i
  · exact h i

theorem rescaled (h : Timed s) (i : Index) (winScale : Nat) :
    (s.rescaled i winScale).msgbuf ≠ none → (s.rescaled i winScale).timer = true := by
  unfold TcpAckManage.rescaled
  split
  · exact h i
  · exact h i

theorem handled {info next : TcpAckInfo} {msg : MsgBuf} {ack : TcpAckMsg} {maxDropCnt : Nat}
    {dropMsg : Option MsgBuf} {kept : Bool} (h : info.msgbuf ≠ none → info.timer = true)
    (handles : info.Handles msg ack maxDropCnt next dropMsg kept) :
    next.msgbuf ≠ none → next.timer = true := by
  cases handles with
  | late lastTime older => exact h
  | out goes newer busy flow recorded empty => exact fun held => absurd empty held
  | held stays newer busy flow recorded holds timer => exact fun _ => timer

theorem sends {msg : MsgBuf} {jiffies : BitVec 64} (h : Timed s) (sent : s.Sends msg jiffies t) :
    Timed t := by
  cases sent with
  | through q unhandled => exact (h.quiet q).pass msg
  | @handled check ack i next dropMsg kept checked filled found enabled handles =>
      have slots := h.setInfo i (handled (h.rescaled i check.winScale) handles)
      cases kept with
      | true => exact slots
      | false => exact slots
  | assigned checked filled unmatched alloc =>
      obtain ⟨-, maxNum, rfl⟩ := TcpAckManage.alloc_some alloc
      have same : Timed { s with freeIndex := none, maxNum } := h
      refine (same.setInfo _ ?_).pass msg
      exact h _

/-- Each operation keeps the timers, except an expiry that is not ready. -/
theorem step {e : Event} (h : Timed s) (ready : expiryReady s e = true)
    (went : s.step e = some t) : Timed t := by
  cases TcpAckManage.step_steps went with
  | long exceeds => exact h.pass _
  | send short sent => exact (h.update _).sends sent
  | expires pending held busy unsent stays empty flow recorded =>
      exact (h.setInfo _ fun holds => absurd empty holds).pass _
  | @expiresIdle i pending idle =>
      refine h.setInfo i fun holds => ?_
      simp only [expiryReady, Bool.or_eq_true, Bool.and_eq_true, Option.isNone_iff_eq_none] at ready
      obtain none | busy | sending := idle
      · exact absurd none holds
      · cases ready with
        | inl none => exact absurd none holds
        | inr both => cases busy.symm.trans both.1
      · cases ready with
        | inl none => exact absurd none holds
        | inr both => exact absurd both.2 sending
  | move q => exact h.quiet q
  | rx q => exact h.quiet q

/-- An expiry that is not ready leaves its message without a timer. -/
theorem lost {e : Event} (unready : expiryReady s e = false) (went : s.step e = some t) :
    ¬ Timed t := by
  intro h
  cases e with
  | timeout i =>
      simp only [expiryReady, Bool.or_eq_false_iff] at unready
      obtain ⟨holds, finds⟩ := unready
      cases TcpAckManage.step_steps went with
      | expires pending held busy unsent stays empty flow recorded =>
          simp [busy, unsent] at finds
      | expiresIdle pending idle =>
          have full : (s.ackInfo i).msgbuf ≠ none := fun empty => by simp [empty] at holds
          have timer := h i
          rw [s.setInfo_self] at timer
          cases timer full
  | send msg jiffies => cases unready
  | move ptr => cases unready
  | rx buf plen => cases unready

end Timed

theorem timed_init (jiffies timeout : BitVec 64) : Timed (tcpAckInit jiffies timeout) :=
  fun _ held => absurd rfl held

/-- In a run whose expiries are ready every held message has its timer, whose next
    ready expiry sends it; an expiry that is not ready leaves one without. -/
theorem held_timer_pending (jiffies timeout : BitVec 64) (s : TcpAckManage)
    (run : Run.Reachable TcpAckManage.step (fun s e => expiryReady s e = true)
      (tcpAckInit jiffies timeout) s) :
    Timed s ∧
      (∀ i msg, (s.ackInfo i).msgbuf = some msg → expiryReady s (.timeout i) = true →
        ∃ t, s.step (.timeout i) = some t ∧ t.passed = s.passed ++ [msg] ∧
          (t.ackInfo i).msgbuf = none) ∧
      ∀ e t, s.step e = some t → (Timed t ↔ expiryReady s e = true) := by
  have timed : Timed s :=
    run.invariant Timed (timed_init jiffies timeout) fun _ _ _ h ready went => h.step ready went
  refine ⟨timed, fun i msg held ready => ?_, fun e t went => ⟨fun kept => ?_, fun ready =>
    timed.step ready went⟩⟩
  · have pending := timed i (by simp [held])
    obtain ⟨other, holds, busy, unsent, result⟩ | ⟨idle, -⟩ := (s.ackInfo i).tcpAckTimeout_cases
    · obtain rfl := Option.some.inj (held.symm.trans holds)
      have went : s.step (.timeout i) =
          some ((s.setInfo i (s.ackInfo i).tcpAckTimeout.1).pass msg) := by
        simp only [TcpAckManage.step, pending, if_true, result]
      refine ⟨_, went, rfl, ?_⟩
      have here := s.setInfo_self i (s.ackInfo i).tcpAckTimeout.1
      exact (congrArg TcpAckInfo.msgbuf here).trans (by rw [result])
    · simp only [expiryReady, held, Option.isNone_some, Bool.false_or, Bool.and_eq_true,
        Option.isNone_iff_eq_none] at ready
      obtain none | busy | sending := idle
      · cases none.symm.trans held
      · cases busy.symm.trans ready.1
      · exact absurd ready.2 sending
  · by_contra unready
    exact Timed.lost (by simpa using unready) went kept

/-- Three acknowledgements of one flow: the first takes a slot, the second goes
    out, and the third is held. -/
def heldRun : List Event :=
  [sendAck 1 1, sendAck 1 2, .move (sampleMsg 1 2 0x10).ptr, sendAck 1 3]

theorem held_timer_pending_third : ∃ s,
    Run.exec TcpAckManage.step (tcpAckInit 0 4000) heldRun = some s ∧
      (s.ackInfo 0).msgbuf = some (sampleMsg 1 3 0x10) ∧ Timed s :=
  ⟨_, rfl, rfl, (held_timer_pending 0 4000 _
    (.exec_guarded (fun _ _ ok => ok) heldRun .init rfl (by decide))).1⟩

/-- The timer of the third acknowledgement expires while the transmit path still
    has the second. -/
theorem expiry_strands : ¬ ∀ s, Run.Reachable TcpAckManage.step Run.Free (tcpAckInit 0 4000) s →
    Timed s := by
  intro timed
  have late := timed _
    (.exec [sendAck 1 1, sendAck 1 2, sendAck 1 3, .timeout 0] .init rfl) 0 (by decide)
  cases late

end Aic8800.TcpAck
