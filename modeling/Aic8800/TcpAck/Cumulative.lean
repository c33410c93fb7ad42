import Mathlib
import Aic8800.TcpAck.Concurrent

/-! # Dropped acknowledgements are covered

Acknowledgement numbers are kept unwrapped here, so that a message of a connection
covers every one with a smaller number. The number a busy slot has recorded is
that of a message that was let through or that the slot holds, and a message is
dropped only for a newer one of its connection. That fails when a slot ages with a
message in it, which the next flow to get the slot drops, and when a slot ages or
changes hands between `tcp_ack_match` and the handler, which does not look again.
-/

namespace Aic8800.TcpAck

open Lib Threads

/-- Half of the ring of the numbers. -/
def half : Int := 2147483648

/-- The comparison of the source is that of the unwrapped numbers, if they are
    close. -/
theorem u32Before_ofInt {a b : Int} (low : -half < b - a) (high : b - a < half) :
    u32Before (BitVec.ofInt 32 a) (BitVec.ofInt 32 b) = true ↔ a ≤ b := by
  unfold half at low high
  have shift : (BitVec.ofInt 32 a - BitVec.ofInt 32 b).toInt = a - b := by
    rw [BitVec.toInt_sub, BitVec.toInt_ofInt, BitVec.toInt_ofInt, Int.sub_bmod_bmod,
      Int.bmod_sub_bmod]
    exact Int.bmod_eq_of_le (by omega) (by omega)
  simp only [u32Before, shift, decide_eq_true_eq]
  omega

/-- The flow and number of an acknowledgement. -/
def ackOf (msg : MsgBuf) : Option TcpAckMsg := (tcpCheckAck msg.data).bind (·.msg)

variable {κ : Type} (conn : MsgBuf → κ) (num : MsgBuf → Int)

/-- The numbers unwrap those in the frames. -/
def Unwraps : Prop := ∀ msg ack, ackOf msg = some ack → ack.seq = BitVec.ofInt 32 (num msg)

/-- The filter or a timer has let the message through. -/
def OnWay (s : Shared) (ts : List Point) (m : MsgBuf) : Prop :=
  m ∈ s.filter.passed ∨ ∃ i, Point.move m i ∈ ts

/-- A message of the connection with at least its number is on its way, or is held
    in a slot that follows its flow. -/
def Covered (s : Shared) (ts : List Point) (d : MsgBuf) : Prop :=
  ∃ m, conn m = conn d ∧ num d ≤ num m ∧
    (OnWay s ts m ∨ ∃ i ack, ackOf d = some ack ∧ (s.filter.ackInfo i).follows ack = true ∧
      (s.filter.ackInfo i).msgbuf = some m)

def Cumulative (s : Shared) (ts : List Point) : Prop :=
  ∀ d ∈ s.filter.freed, Covered conn num s ts d

/-- While a slot follows a flow its acknowledgements are of one connection, and
    each is less than half the ring away from the last that the slot recorded. -/
def inEpoch [DecidableEq κ] (c : FilterConfig) : Label Call Point (BitVec 64) → Bool
  | .run (.handle call _ i) _ =>
      !(c.shared.filter.ackInfo i).follows call.ack ||
        (c.shared.filter.ackInfo i).recorded.all fun prior =>
          decide (conn call.msg = conn prior ∧ -half < num call.msg - num prior ∧
            num call.msg - num prior < half)
  | _ => true

/-- No slot that holds a message ages or is given to a flow, and the handler finds
    the slot that was matched still with its flow. -/
def undisplaced (c : FilterConfig) : Label Call Point (BitVec 64) → Bool
  | .run (.updateSlot _ i) jiffies =>
      !(c.shared.filter.ackInfo i).old jiffies || (c.shared.filter.ackInfo i).msgbuf.isNone
  | .run (.handle call _ i) _ => (c.shared.filter.ackInfo i).follows call.ack
  | .run (.mark _ i) _ => (c.shared.filter.ackInfo i).msgbuf.isNone
  | _ => true

/-- The message that a busy slot has recorded is on its way or held there. -/
structure Follows (s : Shared) (ts : List Point) (i : Index) (prior : MsgBuf) (ack : TcpAckMsg) :
    Prop where
  recorded : (s.filter.ackInfo i).recorded = some prior
  read : ackOf prior = some ack
  flow : (s.filter.ackInfo i).follows ack = true
  seq : (s.filter.ackInfo i).ackMsg.seq = ack.seq
  safe : OnWay s ts prior ∨ (s.filter.ackInfo i).msgbuf = some prior

structure Backed (s : Shared) (ts : List Point) : Prop where
  idle : ∀ i, (s.filter.ackInfo i).busy = false → (s.filter.ackInfo i).msgbuf = none
  held : ∀ i m, (s.filter.ackInfo i).msgbuf = some m → (s.filter.ackInfo i).recorded = some m
  follows : ∀ i, (s.filter.ackInfo i).busy = true → ∃ prior ack, Follows s ts i prior ack
  covered : Cumulative conn num s ts

/-- What the invariant reads of a slot. -/
def TcpAckInfo.tenure (info : TcpAckInfo) : Bool × Option MsgBuf × TcpAckMsg × Option MsgBuf :=
  (info.busy, info.msgbuf, info.ackMsg, info.recorded)

theorem TcpAckInfo.follows_of_seq {info next : TcpAckInfo} {seq : BitVec 32} {ack : TcpAckMsg}
    (busy : next.busy = info.busy) (flow : next.ackMsg = { info.ackMsg with seq }) :
    next.follows ack = info.follows ack := by
  simp only [TcpAckInfo.follows, busy, flow]

theorem TcpAckInfo.follows_busy {info : TcpAckInfo} {ack : TcpAckMsg}
    (flow : info.follows ack = true) : info.busy = true := by
  simp only [TcpAckInfo.follows, Bool.and_eq_true] at flow
  exact flow.1.1.1.1

variable {conn num} {s t : Shared} {ts us : List Point}

/-- Covers survive a step that lets through or replaces what the slots hold. -/
theorem Covered.mono {d : MsgBuf} (h : Covered conn num s ts d)
    (onward : ∀ m, OnWay s ts m → OnWay t us m)
    (slots : ∀ i m ack, (s.filter.ackInfo i).follows ack = true →
      (s.filter.ackInfo i).msgbuf = some m →
      ∃ m', conn m' = conn m ∧ num m ≤ num m' ∧ (OnWay t us m' ∨
        ((t.filter.ackInfo i).follows ack = true ∧ (t.filter.ackInfo i).msgbuf = some m'))) :
    Covered conn num t us d := by
  obtain ⟨m, same, above, safe⟩ := h
  cases safe with
  | inl sent => exact ⟨m, same, above, .inl (onward m sent)⟩
  | inr holds =>
      obtain ⟨i, ack, read, flow, held⟩ := holds
      obtain ⟨m', same', above', safe'⟩ := slots i m ack flow held
      refine ⟨m', same'.trans same, above.trans above', ?_⟩
      cases safe' with
      | inl sent => exact .inl sent
      | inr there => exact .inr ⟨i, ack, read, there.1, there.2⟩

/-- To the invariant the slots are as they were, and what was let through still is. -/
structure Carries (s : Shared) (ts : List Point) (t : Shared) (us : List Point) : Prop where
  tenure : ∀ i, (t.filter.ackInfo i).tenure = (s.filter.ackInfo i).tenure
  onward : ∀ m, OnWay s ts m → OnWay t us m
  freed : t.filter.freed = s.filter.freed

theorem write_tenure {i : Index} {info : TcpAckInfo}
    (same : info.tenure = (s.filter.ackInfo i).tenure) (j : Index) :
    ((s.write i info).filter.ackInfo j).tenure = (s.filter.ackInfo j).tenure :=
  s.filter.setInfo_forall (P := fun j info => info.tenure = (s.filter.ackInfo j).tenure)
    (fun _ => rfl) same j

/-- Whether the call has left the filter. -/
def Point.leaves : Point → Bool
  | .move _ _ => true
  | _ => false

/-- A call that has not left the filter can go anywhere. -/
theorem onWay_of {t : Shared} {p : Point} {next : Option Point} {others : List Point}
    (inside : p.leaves = false) (passed : t.filter.passed = s.filter.passed) (m : MsgBuf)
    (sent : OnWay s (p :: others) m) : OnWay t (next.toList ++ others) m := by
  obtain before | ⟨i, moving⟩ := sent
  · exact .inl (passed ▸ before)
  · refine .inr ⟨i, List.mem_append_right _ ?_⟩
    refine (List.mem_cons.mp moving).resolve_left fun same => ?_
    subst same
    cases inside

theorem onWay_moves {m : MsgBuf} {i : Index} {others : List Point} :
    OnWay s ((some (Point.move m i)).toList ++ others) m :=
  .inr ⟨i, List.mem_cons_self⟩

namespace Backed

theorem carry (h : Backed conn num s ts) (carries : Carries s ts t us) : Backed conn num t us := by
  obtain ⟨tenure, onward, freed⟩ := carries
  have busy : ∀ i, (t.filter.ackInfo i).busy = (s.filter.ackInfo i).busy :=
    fun i => congrArg (·.1) (tenure i)
  have msgbuf : ∀ i, (t.filter.ackInfo i).msgbuf = (s.filter.ackInfo i).msgbuf :=
    fun i => congrArg (·.2.1) (tenure i)
  have ackMsg : ∀ i, (t.filter.ackInfo i).ackMsg = (s.filter.ackInfo i).ackMsg :=
    fun i => congrArg (·.2.2.1) (tenure i)
  have recorded : ∀ i, (t.filter.ackInfo i).recorded = (s.filter.ackInfo i).recorded :=
    fun i => congrArg (·.2.2.2) (tenure i)
  have flows : ∀ i ack, (t.filter.ackInfo i).follows ack = (s.filter.ackInfo i).follows ack :=
    fun i ack => by simp only [TcpAckInfo.follows, busy, ackMsg]
  constructor
  · exact fun i idle => (msgbuf i).trans (h.idle i ((busy i).symm.trans idle))
  · exact fun i m held => (recorded i).trans (h.held i m ((msgbuf i).symm.trans held))
  · intro i live
    obtain ⟨prior, ack, ⟨last, read, flow, seq, safe⟩⟩ := h.follows i ((busy i).symm.trans live)
    exact ⟨prior, ack, (recorded i).trans last, read, (flows i ack).trans flow,
      (congrArg TcpAckMsg.seq (ackMsg i)).trans seq,
      safe.imp (onward prior) ((msgbuf i).trans ·)⟩
  · intro d dropped
    refine (h.covered d (freed ▸ dropped)).mono onward fun i m ack flow held => ?_
    exact ⟨m, rfl, le_refl _, .inr ⟨(flows i ack).trans flow, (msgbuf i).trans held⟩⟩

/-- A slot that holds nothing ages. -/
theorem age (h : Backed conn num s ts) {i : Index} (empty : (s.filter.ackInfo i).msgbuf = none)
    (others : ∀ j, j ≠ i → t.filter.ackInfo j = s.filter.ackInfo j)
    (aged : t.filter.ackInfo i = { s.filter.ackInfo i with busy := false })
    (onward : ∀ m, OnWay s ts m → OnWay t us m) (freed : t.filter.freed = s.filter.freed) :
    Backed conn num t us := by
  have msgbuf : ∀ j, (t.filter.ackInfo j).msgbuf = (s.filter.ackInfo j).msgbuf := by
    intro j
    by_cases here : j = i
    · rw [here, aged]
    · rw [others j here]
  have holding : ∀ j m, (s.filter.ackInfo j).msgbuf = some m → j ≠ i := by
    intro j m held here
    subst here
    cases empty.symm.trans held
  constructor
  · intro j idle
    rw [msgbuf]
    by_cases here : j = i
    · exact here ▸ empty
    · rw [others j here] at idle
      exact h.idle j idle
  · intro j m held
    rw [msgbuf] at held
    rw [others j (holding j m held)]
    exact h.held j m held
  · intro j busy
    by_cases here : j = i
    · rw [here, aged] at busy
      cases busy
    · have same := others j here
      rw [same] at busy
      obtain ⟨prior, ack, ⟨last, read, flow, seq, safe⟩⟩ := h.follows j busy
      rw [← same] at last flow seq safe
      exact ⟨prior, ack, last, read, flow, seq, safe.imp (onward prior) id⟩
  · intro d dropped
    refine (h.covered d (freed ▸ dropped)).mono onward fun j m ack flow held => ?_
    refine ⟨m, rfl, le_refl _, .inr ?_⟩
    rw [others j (holding j m held)]
    exact ⟨flow, held⟩

/-- A message that something covers may be dropped. -/
theorem drop (h : Backed conn num s ts) {d : MsgBuf} (covered : Covered conn num s ts d)
    (withheld : List (MsgBuf × Nat)) :
    Backed conn num { s with filter := { s.filter with freed := s.filter.freed ++ [d], withheld } }
      ts := by
  refine ⟨h.idle, h.held, fun i busy => ?_, fun e dropped => ?_⟩
  · obtain ⟨prior, ack, ⟨last, read, flow, seq, safe⟩⟩ := h.follows i busy
    exact ⟨prior, ack, last, read, flow, seq, safe⟩
  · rw [List.mem_append, List.mem_singleton] at dropped
    obtain before | rfl := dropped
    · exact h.covered e before
    · exact covered

/-- One slot records a message, which is let through or held there. -/
theorem record (h : Backed conn num s ts) {i : Index} {msg : MsgBuf} {ack : TcpAckMsg}
    (read : ackOf msg = some ack)
    (others : ∀ j, j ≠ i → t.filter.ackInfo j = s.filter.ackInfo j)
    (flow : (t.filter.ackInfo i).follows ack = true)
    (seq : (t.filter.ackInfo i).ackMsg.seq = ack.seq)
    (recorded : (t.filter.ackInfo i).recorded = some msg)
    (place : (OnWay t us msg ∧ (t.filter.ackInfo i).msgbuf = none) ∨
      (t.filter.ackInfo i).msgbuf = some msg)
    (onward : ∀ m, OnWay s ts m → OnWay t us m) (covered : Cumulative conn num t us) :
    Backed conn num t us := by
  constructor
  · intro j idle
    by_cases here : j = i
    · cases (TcpAckInfo.follows_busy flow).symm.trans (here ▸ idle)
    · rw [others j here] at idle ⊢
      exact h.idle j idle
  · intro j m held
    by_cases here : j = i
    · subst here
      obtain ⟨-, none⟩ | holds := place
      · cases none.symm.trans held
      · rwa [recorded, ← holds]
    · rw [others j here] at held ⊢
      exact h.held j m held
  · intro j live
    by_cases here : j = i
    · subst here
      exact ⟨msg, ack, recorded, read, flow, seq, place.imp And.left id⟩
    · have same := others j here
      rw [same] at live
      obtain ⟨last, was, ⟨recorded', read', flow', seq', safe'⟩⟩ := h.follows j live
      rw [← same] at recorded' flow' seq' safe'
      exact ⟨last, was, recorded', read', flow', seq', safe'.imp (onward last) id⟩
  · exact covered

/-- A newer message takes the place of what the slot has recorded. -/
theorem replace (h : Backed conn num s ts) {i : Index} {prior msg : MsgBuf} {old ack : TcpAckMsg}
    (at_ : Follows s ts i prior old) (read : ackOf msg = some ack)
    (flow : (s.filter.ackInfo i).follows ack = true) (connection : conn msg = conn prior)
    (above : num prior ≤ num msg)
    (others : ∀ j, j ≠ i → t.filter.ackInfo j = s.filter.ackInfo j)
    (busy : (t.filter.ackInfo i).busy = (s.filter.ackInfo i).busy)
    (ackMsg : (t.filter.ackInfo i).ackMsg = { (s.filter.ackInfo i).ackMsg with seq := ack.seq })
    (recorded : (t.filter.ackInfo i).recorded = some msg)
    (place : (OnWay t us msg ∧ (t.filter.ackInfo i).msgbuf = none) ∨
      (t.filter.ackInfo i).msgbuf = some msg)
    (onward : ∀ m, OnWay s ts m → OnWay t us m)
    (freed : t.filter.freed = s.filter.freed ++ (s.filter.ackInfo i).msgbuf.toList) :
    Backed conn num t us := by
  have flows : ∀ other, (t.filter.ackInfo i).follows other = (s.filter.ackInfo i).follows other :=
    fun _ => TcpAckInfo.follows_of_seq busy ackMsg
  have mine : ∀ m, (s.filter.ackInfo i).msgbuf = some m → m = prior := fun m held =>
    Option.some.inj ((h.held i m held).symm.trans at_.recorded)
  have newer : ∀ other, (s.filter.ackInfo i).follows other = true → OnWay t us msg ∨
      ((t.filter.ackInfo i).follows other = true ∧ (t.filter.ackInfo i).msgbuf = some msg) :=
    fun other flow' => place.imp And.left fun holds => ⟨(flows other).trans flow', holds⟩
  have slots : ∀ j m other, (s.filter.ackInfo j).follows other = true →
      (s.filter.ackInfo j).msgbuf = some m →
      ∃ m', conn m' = conn m ∧ num m ≤ num m' ∧ (OnWay t us m' ∨
        ((t.filter.ackInfo j).follows other = true ∧ (t.filter.ackInfo j).msgbuf = some m')) := by
    intro j m other flow' held
    by_cases here : j = i
    · subst here
      obtain rfl := mine m held
      exact ⟨msg, connection, above, newer other flow'⟩
    · rw [← others j here] at flow' held
      exact ⟨m, rfl, le_refl _, .inr ⟨flow', held⟩⟩
  apply h.record read others ((flows ack).trans flow) (by rw [ackMsg]) recorded place onward
  intro d dropped
  rw [freed, List.mem_append, Option.mem_toList] at dropped
  obtain before | held := dropped
  · exact (h.covered d before).mono onward slots
  · obtain rfl := mine d held
    exact ⟨msg, connection, above, (newer old at_.flow).imp id fun there =>
      ⟨i, old, at_.read, there⟩⟩

/-- The handler finds the slot with the flow of its message, which is close to what
    the slot has recorded. -/
theorem handled {others : List Point} {call : SendCall} {type : Nat} {i : Index}
    {jiffies : BitVec 64} {next : Shared × Option Point}
    (h : Backed conn num s (.handle call type i :: others)) (unwraps : Unwraps num)
    (read : ackOf call.msg = some call.ack) (flow : (s.filter.ackInfo i).follows call.ack = true)
    (near : ∀ prior, (s.filter.ackInfo i).recorded = some prior → conn call.msg = conn prior ∧
      -half < num call.msg - num prior ∧ num call.msg - num prior < half)
    (went : s.action others (.handle call type i) jiffies = some next) :
    Backed conn num next.1 (next.2.toList ++ others) := by
  obtain ⟨prior, old, at_⟩ := h.follows i (TcpAckInfo.follows_busy flow)
  obtain ⟨connection, low, high⟩ := near prior at_.recorded
  have order : u32Before (s.filter.ackInfo i).ackMsg.seq call.ack.seq = true ↔
      num prior ≤ num call.msg := by
    rw [at_.seq, unwraps _ _ at_.read, unwraps _ _ read]
    exact u32Before_ofInt low high
  have result := (s.filter.ackInfo i).handleNew_handles call.msg call.ack s.filter.maxDropCnt jiffies
  simp only [Shared.action] at went
  revert went result
  rcases (s.filter.ackInfo i).tcpAckHandleNew call.msg call.ack s.filter.maxDropCnt jiffies with
    ⟨info, dropMsg, kept⟩
  intro result went
  have stays : ∀ {t : Shared} (next : Option Point), t.filter.passed = s.filter.passed →
      ∀ m, OnWay s (.handle call type i :: others) m → OnWay t (next.toList ++ others) m :=
    fun next passed => onWay_of rfl passed
  cases result with
  | late lastTime older =>
      obtain rfl := Option.some.inj went
      have below : num call.msg ≤ num prior := by
        have notAbove := order.not.mp (by simp [older])
        omega
      have covered : Covered conn num s (.handle call type i :: others) call.msg :=
        ⟨prior, connection.symm, below,
          at_.safe.imp id fun holds => ⟨i, call.ack, read, flow, holds⟩⟩
      exact (h.drop covered (s.filter.withheld ++ [(call.msg, type)])).carry
        ⟨write_tenure rfl, stays none rfl, rfl⟩
  | out goes newer still flow' recorded empty =>
      obtain rfl := Option.some.inj went
      have here := s.filter.setInfo_self i info
      apply h.replace at_ read flow connection (order.mp newer)
      · exact fun j other => s.filter.setInfo_other info other
      · exact (congrArg TcpAckInfo.busy here).trans still
      · exact (congrArg TcpAckInfo.ackMsg here).trans flow'
      · exact (congrArg TcpAckInfo.recorded here).trans recorded
      · exact .inl ⟨onWay_moves, (congrArg TcpAckInfo.msgbuf here).trans empty⟩
      · exact stays (some (.move call.msg Index.first)) rfl
      · rfl
  | held stays' newer still flow' recorded holds timer =>
      obtain rfl := Option.some.inj went
      have here := s.filter.setInfo_self i info
      apply h.replace at_ read flow connection (order.mp newer)
      · exact fun j other => s.filter.setInfo_other info other
      · exact (congrArg TcpAckInfo.busy here).trans still
      · exact (congrArg TcpAckInfo.ackMsg here).trans flow'
      · exact (congrArg TcpAckInfo.recorded here).trans recorded
      · exact .inr ((congrArg TcpAckInfo.msgbuf here).trans holds)
      · exact stays none rfl
      · rfl

/-- A slot given to a flow holds nothing, and the first message is let through. -/
theorem marked {others : List Point} {call : SendCall} {i : Index} {jiffies : BitVec 64}
    {next : Shared × Option Point} (h : Backed conn num s (.mark call i :: others))
    (read : ackOf call.msg = some call.ack) (empty : (s.filter.ackInfo i).msgbuf = none)
    (went : s.action others (.mark call i) jiffies = some next) :
    Backed conn num next.1 (next.2.toList ++ others) := by
  obtain rfl := Option.some.inj went
  let info := (s.filter.ackInfo i).assign call.msg call.ack call.winScale s.filter.maxDropCnt jiffies
  have here := s.filter.setInfo_self i info
  have apart : ∀ j, j ≠ i → (s.filter.setInfo i info).ackInfo j = s.filter.ackInfo j :=
    fun j other => s.filter.setInfo_other info other
  have flow : info.follows call.ack = true := by
    simp [info, TcpAckInfo.follows, TcpAckInfo.assign]
  have onward : ∀ m, OnWay s (.mark call i :: others) m →
      OnWay (s.write i info) ((some (Point.move call.msg Index.first)).toList ++ others) m :=
    onWay_of rfl rfl
  apply h.record read
  · exact apart
  · exact (congrArg (·.follows call.ack) here).trans flow
  · exact congrArg (·.ackMsg.seq) here
  · exact congrArg (·.recorded) here
  · exact .inl ⟨onWay_moves, (congrArg (·.msgbuf) here).trans empty⟩
  · exact onward
  · intro d dropped
    refine (h.covered d dropped).mono onward fun j m other follows held => ?_
    by_cases same : j = i
    · subst same
      cases empty.symm.trans held
    · exact ⟨m, rfl, le_refl _, .inr ⟨(congrArg (·.follows other) (apart j same)).trans follows,
        (congrArg (·.msgbuf) (apart j same)).trans held⟩⟩

/-- The handler of a timer lets through what the slot has recorded. -/
theorem expired {others : List Point} {i : Index} (h : Backed conn num s (.expired i :: others)) :
    Backed conn num (s.timeoutSlot i).1 ((s.timeoutSlot i).2.toList ++ others) := by
  obtain ⟨msg, held, live, -, result⟩ | ⟨-, result⟩ := (s.filter.ackInfo i).tcpAckTimeout_cases
  · simp only [Shared.timeoutSlot, result]
    obtain ⟨prior, ack, ⟨last, read, flow, seq, -⟩⟩ := h.follows i live
    obtain rfl := Option.some.inj ((h.held i msg held).symm.trans last)
    let info : TcpAckInfo :=
      { s.filter.ackInfo i with msgbuf := none, dropCnt := 0, inSendMsg := some msg.ptr }
    have here := s.filter.setInfo_self i info
    have onward : ∀ m, OnWay s (.expired i :: others) m →
        OnWay (s.write i info) ((some (Point.move msg Index.first)).toList ++ others) m :=
      onWay_of rfl rfl
    apply h.record read
    · exact fun j other => s.filter.setInfo_other info other
    · exact (congrArg (·.follows ack) here).trans flow
    · exact (congrArg (·.ackMsg.seq) here).trans seq
    · exact (congrArg (·.recorded) here).trans last
    · exact .inl ⟨onWay_moves, congrArg (·.msgbuf) here⟩
    · exact onward
    · intro d dropped
      refine (h.covered d dropped).mono onward fun j m other follows' holds => ?_
      by_cases same : j = i
      · subst same
        obtain rfl := Option.some.inj (held.symm.trans holds)
        exact ⟨msg, rfl, le_refl _, .inl onWay_moves⟩
      · have kept := s.filter.setInfo_other info same
        exact ⟨m, rfl, le_refl _, .inr ⟨(congrArg (·.follows other) kept).trans follows',
          (congrArg (·.msgbuf) kept).trans holds⟩⟩
  · simp only [Shared.timeoutSlot, result]
    exact h.carry ⟨write_tenure rfl, onWay_of rfl rfl, rfl⟩

/-- The section of `tcp_ack_update` on a slot that does not age with a message in it. -/
theorem updated {others : List Point} {msg : MsgBuf} {i : Index} {jiffies : BitVec 64}
    {next : Shared × Option Point} (h : Backed conn num s (.updateSlot msg i :: others))
    (empty : (s.filter.ackInfo i).old jiffies = true → (s.filter.ackInfo i).msgbuf = none)
    (went : s.action others (.updateSlot msg i) jiffies = some next) :
    Backed conn num next.1 (next.2.toList ++ others) := by
  obtain ⟨passed, freed⟩ : (s.updateSlot i jiffies).filter.passed = s.filter.passed ∧
      (s.updateSlot i jiffies).filter.freed = s.filter.freed := by
    simp only [Shared.updateSlot]
    split <;> exact ⟨rfl, rfl⟩
  have slots : ∀ next : Option Point,
      Backed conn num (s.updateSlot i jiffies) (next.toList ++ others) := by
    intro next
    have onward : ∀ m, OnWay s (.updateSlot msg i :: others) m →
        OnWay (s.updateSlot i jiffies) (next.toList ++ others) m := onWay_of rfl passed
    cases old : (s.filter.ackInfo i).old jiffies with
    | true =>
        have here := s.filter.setInfo_self i { s.filter.ackInfo i with busy := false }
        apply h.age (empty old) _ _ onward freed
        · intro j other
          simp only [Shared.updateSlot, old, if_true]
          exact s.filter.setInfo_other _ other
        · simp only [Shared.updateSlot, old, if_true]
          exact here
    | false =>
        refine h.carry ⟨?_, onward, freed⟩
        simp only [Shared.updateSlot, old, Bool.false_eq_true, if_false]
        exact write_tenure rfl
  simp only [Shared.action] at went
  split at went
  · rename_i k more
    obtain rfl := Option.some.inj went
    exact slots (some (.updateSlot msg k))
  · obtain rfl := Option.some.inj went
    exact (slots (some (.checkAck msg))).carry ⟨fun _ => rfl, fun _ => id, rfl⟩

end Backed

/-- The call that a point carries was read from its message. -/
def Point.calls : Point → Option SendCall
  | .matchSlot (.send call) _ | .rescale call _ | .handle call _ _ | .alloc call | .scanBegin call _
  | .scanRead call _ _ | .scanRetry call _ _ _ | .mark call _ => some call
  | _ => none

theorem matchSlot_calls (lookup : Lookup) (i j : Index) :
    (Point.matchSlot lookup j).calls = (Point.matchSlot lookup i).calls := by
  cases lookup <;> rfl

def Point.Read (p : Point) : Prop := ∀ call ∈ p.calls, ackOf call.msg = some call.ack

/-- Whether a section changes what the invariant reads of a slot. -/
def Point.handsOver : Point → Bool
  | .updateSlot _ _ | .handle _ _ _ | .mark _ _ | .expired _ => true
  | _ => false

theorem moveSlot_tenure (msg : MsgBuf) (i j : Index) :
    ((s.moveSlot msg i).filter.ackInfo j).tenure = (s.filter.ackInfo j).tenure := by
  simp only [Shared.moveSlot]
  split
  · refine write_tenure (s := s) ?_ j
    rfl
  · exact write_tenure (i := i) rfl j

theorem rescaleSlot_carries (call : SendCall) (i : Index) :
    (∀ j, ((s.rescaleSlot call i).filter.ackInfo j).tenure = (s.filter.ackInfo j).tenure) ∧
      (s.rescaleSlot call i).filter.passed = s.filter.passed ∧
      (s.rescaleSlot call i).filter.freed = s.filter.freed := by
  simp only [Shared.rescaleSlot]
  split
  · exact ⟨write_tenure rfl, rfl, rfl⟩
  · exact ⟨fun _ => rfl, rfl, rfl⟩

/-- The loop of `move_tcpack_msg`, behind which the message is passed on. -/
theorem move_carries {others : List Point} {msg : MsgBuf} {i : Index} {jiffies : BitVec 64}
    {next : Shared × Option Point} (went : s.action others (.move msg i) jiffies = some next) :
    Carries s (.move msg i :: others) next.1 (next.2.toList ++ others) := by
  have passes : ∀ {t : Shared}, t.filter.passed = s.filter.passed ++ [msg] → ∀ m,
      OnWay s (.move msg i :: others) m →
        OnWay t ((none : Option Point).toList ++ others) m := by
    intro t passed m sent
    obtain before | ⟨k, moving⟩ := sent
    · exact .inl (passed ▸ List.mem_append_left _ before)
    · cases List.mem_cons.mp moving with
      | inl same =>
          cases same
          exact .inl (passed ▸ List.mem_append_right _ List.mem_cons_self)
      | inr other => exact .inr ⟨k, other⟩
  obtain ⟨passed, freed⟩ : (s.moveSlot msg i).filter.passed = s.filter.passed ∧
      (s.moveSlot msg i).filter.freed = s.filter.freed := by
    simp only [Shared.moveSlot]
    split <;> exact ⟨rfl, rfl⟩
  simp only [Shared.action] at went
  split at went
  · split at went
    · obtain rfl := Option.some.inj went
      refine ⟨moveSlot_tenure msg i, fun m sent => ?_, freed⟩
      obtain before | ⟨j, moving⟩ := sent
      · exact .inl (passed ▸ before)
      · cases List.mem_cons.mp moving with
        | inl same =>
            cases same
            exact onWay_moves
        | inr other => exact .inr ⟨j, List.mem_append_right _ other⟩
    · obtain rfl := Option.some.inj went
      exact ⟨moveSlot_tenure msg i, passes (congrArg (· ++ [msg]) passed), freed⟩
  · obtain rfl := Option.some.inj went
    exact ⟨fun _ => rfl, passes rfl, rfl⟩

theorem Point.Read.of_none {p : Point} (none : p.calls = none) : p.Read := fun call some => by
  rw [none] at some
  cases some

theorem move_reads {others : List Point} {msg : MsgBuf} {i : Index} {jiffies : BitVec 64}
    {next : Shared × Option Point} (went : s.action others (.move msg i) jiffies = some next) :
    ∀ q ∈ next.2, q.Read := by
  simp only [Shared.action] at went
  repeat' split at went
  all_goals obtain rfl := Option.some.inj went
  · exact moves (.of_none rfl)
  · exact nofun
  · exact nofun

/-- What the other sections do: they hand no message over, and go on with the call
    that they were in. -/
theorem quiet_carries {others : List Point} {p : Point} {jiffies : BitVec 64}
    {next : Shared × Option Point} (quiet : p.handsOver = false) (read : p.Read)
    (went : s.action others p jiffies = some next) :
    Carries s (p :: others) next.1 (next.2.toList ++ others) ∧ ∀ q ∈ next.2, q.Read := by
  cases p with
  | updateSlot msg i => cases quiet
  | handle call type i => cases quiet
  | mark call i => cases quiet
  | expired i => cases quiet
  | update msg =>
      simp only [Shared.action] at went
      split at went
      · obtain rfl := Option.some.inj went
        exact ⟨⟨fun _ => rfl, onWay_of rfl rfl, rfl⟩, moves (.of_none rfl)⟩
      · obtain rfl := Option.some.inj went
        exact ⟨⟨fun _ => rfl, onWay_of rfl rfl, rfl⟩, moves (.of_none rfl)⟩
  | updateLock msg =>
      simp only [Shared.action, Option.ite_none_left_eq_some] at went
      obtain ⟨-, went⟩ := went
      obtain rfl := Option.some.inj went
      exact ⟨⟨fun _ => rfl, onWay_of rfl rfl, rfl⟩, moves (.of_none rfl)⟩
  | checkAck msg =>
      simp only [Shared.action] at went
      obtain ⟨check, checked, went⟩ := Option.bind_eq_some_iff.mp went
      split at went
      · obtain rfl := Option.some.inj went
        exact ⟨⟨fun _ => rfl, onWay_of rfl rfl, rfl⟩, moves (.of_none rfl)⟩
      · obtain ⟨ack, filled, rfl⟩ := Option.map_eq_some_iff.mp went
        refine ⟨⟨fun _ => rfl, onWay_of rfl rfl, rfl⟩, moves fun call same => ?_⟩
        obtain rfl := Option.some.inj same
        simp [ackOf, checked, filled]
  | matchSlot lookup i =>
      have goes : ∀ q : Point, q.calls = (Point.matchSlot lookup i).calls →
          Carries s (.matchSlot lookup i :: others) s ((some q).toList ++ others) ∧
            ∀ p ∈ some q, p.Read := fun q same =>
        ⟨⟨fun _ => rfl, onWay_of rfl rfl, rfl⟩, moves fun call mine => read call (same ▸ mine)⟩
      simp only [Shared.action] at went
      split at went
      · cases lookup with
        | send call =>
            obtain rfl := Option.some.inj went
            exact goes (.rescale call i) rfl
        | rx ack =>
            obtain rfl := Option.some.inj went
            exact goes (.quick ack i) rfl
      · split at went
        · obtain rfl := Option.some.inj went
          exact goes _ (matchSlot_calls _ _ _)
        · obtain rfl := Option.some.inj went
          exact goes (.alloc _) rfl
        · obtain rfl := Option.some.inj went
          exact ⟨⟨fun _ => rfl, onWay_of rfl rfl, rfl⟩, nofun⟩
  | rescale call i =>
      obtain ⟨tenure, passed, freed⟩ := rescaleSlot_carries (s := s) call i
      simp only [Shared.action] at went
      split at went
      · obtain rfl := Option.some.inj went
        exact ⟨⟨tenure, onWay_of rfl passed, freed⟩, moves read⟩
      · obtain rfl := Option.some.inj went
        exact ⟨⟨tenure, onWay_of rfl passed, freed⟩, moves (.of_none rfl)⟩
  | alloc call =>
      simp only [Shared.action, Option.ite_none_left_eq_some] at went
      obtain ⟨-, went⟩ := went
      split at went
      · obtain rfl := Option.some.inj went
        exact ⟨⟨fun _ => rfl, onWay_of rfl rfl, rfl⟩, moves (.of_none rfl)⟩
      · split at went
        · obtain rfl := Option.some.inj went
          exact ⟨⟨fun _ => rfl, onWay_of rfl rfl, rfl⟩, moves read⟩
        · obtain rfl := Option.some.inj went
          exact ⟨⟨fun _ => rfl, onWay_of rfl rfl, rfl⟩, moves read⟩
  | scanBegin call i =>
      obtain rfl := Option.some.inj went
      exact ⟨⟨fun _ => rfl, onWay_of rfl rfl, rfl⟩, moves read⟩
  | scanRead call i start =>
      simp only [Shared.action] at went
      split at went
      · obtain rfl := Option.some.inj went
        exact ⟨⟨fun _ => rfl, onWay_of rfl rfl, rfl⟩, moves read⟩
      · obtain rfl := Option.some.inj went
        exact ⟨⟨fun _ => rfl, onWay_of rfl rfl, rfl⟩, moves read⟩
  | scanRetry call i start found =>
      simp only [Shared.action] at went
      split at went
      · obtain rfl := Option.some.inj went
        exact ⟨⟨fun _ => rfl, onWay_of rfl rfl, rfl⟩, moves read⟩
      · split at went
        · obtain rfl := Option.some.inj went
          exact ⟨⟨fun _ => rfl, onWay_of rfl rfl, rfl⟩, moves read⟩
        · split at went
          · obtain rfl := Option.some.inj went
            exact ⟨⟨fun _ => rfl, onWay_of rfl rfl, rfl⟩, moves read⟩
          · obtain rfl := Option.some.inj went
            exact ⟨⟨fun _ => rfl, onWay_of rfl rfl, rfl⟩, moves (.of_none rfl)⟩
  | quick ack i =>
      obtain rfl := Option.some.inj went
      exact ⟨⟨write_tenure rfl, onWay_of rfl rfl, rfl⟩, nofun⟩
  | move msg i => exact ⟨move_carries went, move_reads went⟩

/-- What starts outside of the filter hands no message over. -/
theorem event_carries {e : Call} {next : Shared × Option Point}
    (went : s.event ts e = some next) :
    Carries s ts next.1 (next.2.toList ++ ts) ∧ ∀ q ∈ next.2, q.Read := by
  have started : ∀ {t : Shared} {next : Option Point}, s.filter.passed ⊆ t.filter.passed → ∀ m,
      OnWay s ts m → OnWay t (next.toList ++ ts) m := fun passed m sent =>
    sent.imp (fun before => passed before) fun ⟨i, moving⟩ => ⟨i, List.mem_append_right _ moving⟩
  cases e with
  | send msg =>
      simp only [Shared.event] at went
      split at went
      · obtain rfl := Option.some.inj went
        exact ⟨⟨fun _ => rfl, started (List.Subset.refl _), rfl⟩,
          moves (.of_none rfl)⟩
      · obtain rfl := Option.some.inj went
        exact ⟨⟨fun _ => rfl, started (List.subset_append_left _ _), rfl⟩, nofun⟩
  | rx buf plen =>
      simp only [Shared.event] at went
      split at went
      · obtain rfl := Option.some.inj went
        exact ⟨⟨fun _ => rfl, started (List.Subset.refl _), rfl⟩, nofun⟩
      · obtain ⟨answer, -, rfl⟩ := Option.map_eq_some_iff.mp went
        cases answer with
        | none => exact ⟨⟨fun _ => rfl, started (List.Subset.refl _), rfl⟩, nofun⟩
        | some ack =>
            exact ⟨⟨fun _ => rfl, started (List.Subset.refl _), rfl⟩,
              moves (.of_none rfl)⟩
  | timeout i =>
      simp only [Shared.event, Option.ite_none_right_eq_some] at went
      obtain ⟨-, went⟩ := went
      obtain rfl := Option.some.inj went
      have tenure : ({ s.filter.ackInfo i with timer := false } : TcpAckInfo).tenure =
          (s.filter.ackInfo i).tenure := rfl
      exact ⟨⟨write_tenure tenure, started (List.Subset.refl _), rfl⟩, moves (.of_none rfl)⟩

theorem backed_init (jiffies timeout : BitVec 64) :
    Backed conn num (.init jiffies timeout) [] := by
  constructor
  · exact fun _ _ => rfl
  · exact fun _ _ held => by cases held
  · exact fun _ busy => by cases busy
  · exact fun _ dropped => by cases dropped

theorem Backed.perm (h : Backed conn num s ts) (same : ts.Perm us) : Backed conn num s us :=
  h.carry ⟨fun _ => rfl, fun _ sent => sent.imp_right fun ⟨i, moving⟩ =>
    ⟨i, same.subset moving⟩, rfl⟩

/-- The invariant of the slots, and what each call carries. -/
def cumulativeProof (conn : MsgBuf → κ) (num : MsgBuf → Int) : Proof Shared Point :=
  ⟨Backed conn num, fun _ p => p.Read⟩

/-- Each action keeps the invariant, if its slot is not displaced. -/
theorem action_backed [DecidableEq κ] {c : FilterConfig} {p : Point} {jiffies : BitVec 64}
    {next : Shared × Option Point} (unwraps : Unwraps num)
    (h : (cumulativeProof conn num).Holds c.shared (p :: c.threads.erase p))
    (epoch : inEpoch conn num c (.run p jiffies) = true)
    (placed : undisplaced c (.run p jiffies) = true)
    (went : c.shared.action (c.threads.erase p) p jiffies = some next) :
    (cumulativeProof conn num).Keeps (c.threads.erase p) next := by
  obtain ⟨backed, points⟩ := h
  have read : p.Read := points p List.mem_cons_self
  have rest : ∀ q ∈ c.threads.erase p, q.Read := fun q other =>
    points q (List.mem_cons_of_mem p other)
  cases hands : p.handsOver with
  | false =>
      obtain ⟨carries, reads⟩ := quiet_carries hands read went
      exact ⟨backed.carry carries, reads, rest⟩
  | true =>
      cases p with
      | updateSlot msg i =>
          simp only [undisplaced, Bool.or_eq_true, Bool.not_eq_true', Option.isNone_iff_eq_none]
            at placed
          refine ⟨backed.updated (fun old => placed.resolve_left (by simp [old])) went, ?_, rest⟩
          simp only [Shared.action] at went
          split at went
          · obtain rfl := Option.some.inj went
            exact moves (.of_none rfl)
          · obtain rfl := Option.some.inj went
            exact moves (.of_none rfl)
      | handle call type i =>
          simp only [undisplaced] at placed
          have near : ∀ prior, (c.shared.filter.ackInfo i).recorded = some prior →
              conn call.msg = conn prior ∧ -half < num call.msg - num prior ∧
                num call.msg - num prior < half := by
            intro prior last
            simpa [inEpoch, placed, last] using epoch
          refine ⟨backed.handled unwraps (read call rfl) placed near went, ?_, rest⟩
          simp only [Shared.action] at went
          split at went
          · obtain rfl := Option.some.inj went
            exact nofun
          · obtain rfl := Option.some.inj went
            exact moves (.of_none rfl)
      | mark call i =>
          simp only [undisplaced, Option.isNone_iff_eq_none] at placed
          refine ⟨backed.marked (read call rfl) placed went, ?_, rest⟩
          obtain rfl := Option.some.inj went
          exact moves (.of_none rfl)
      | expired i =>
          obtain rfl := Option.some.inj went
          refine ⟨backed.expired, ?_, rest⟩
          simp only [Shared.timeoutSlot]
          split
          · exact moves (.of_none rfl)
          · exact nofun
      | _ => cases hands

/-- In a run in which no slot that holds a message ages or changes hands, and each
    acknowledgement is handled in a slot of its flow, those that are dropped are
    covered. -/
theorem dropped_covered [DecidableEq κ] (conn : MsgBuf → κ) (num : MsgBuf → Int)
    (unwraps : Unwraps num) (jiffies timeout : BitVec 64) (c : FilterConfig)
    (run : Run.Reachable filterProgram.step
      (fun c label => inEpoch conn num c label = true ∧ undisplaced c label = true)
      ⟨.init jiffies timeout, []⟩ c) : Cumulative conn num c.shared c.threads := by
  have holds : (cumulativeProof conn num).Holds c.shared c.threads := by
    apply (cumulativeProof conn num).invariant _ (backed_init jiffies timeout) _ _ run
    · exact fun same backed => backed.perm same
    · intro c e next holds _ went
      obtain ⟨carries, reads⟩ := event_carries went
      exact ⟨holds.1.carry carries, reads, holds.2⟩
    · exact fun c p choice next holds guarded went =>
        action_backed unwraps holds guarded.1 guarded.2 went
  exact holds.1.covered

/-! ## Runs of sample calls -/

/-- The flow of a sample message. -/
def samplePort (msg : MsgBuf) : Nat := msg.ptr / 256

def sampleNum (msg : MsgBuf) : Int := (ackOf msg).elim 0 fun ack => ack.seq.toNat

theorem sampleNum_unwraps : Unwraps sampleNum := fun msg ack read => by simp [sampleNum, read]

/-- An acknowledgement of the flow from `port`, as it is looked up. -/
def ackCall (port number : UInt8) : SendCall :=
  { msg := sampleMsg port number 0x10
    ack := { source := port.toNat, dest := 80, saddr := 1, daddr := 2
             seq := BitVec.ofNat 32 number.toNat, win := 65535 }
    drop := 1, winScale := 0 }

abbrev FilterLabel := Label Call Point (BitVec 64)

/-- Lookup in the first slot, and the handler. -/
def handles (call : SendCall) (jiffies : BitVec 64) : List FilterLabel :=
  [.event (.send call.msg), .run (.update call.msg) jiffies, .run (.checkAck call.msg) jiffies,
    .run (.matchSlot (.send call) Index.first) jiffies, .run (.rescale call Index.first) jiffies,
    .run (.handle call 1 Index.first) jiffies]

/-- Lookup in all slots, and the first one is taken. -/
def takes (call : SendCall) (jiffies : BitVec 64) : List FilterLabel :=
  (List.finRange 32).map (fun i => .run (.matchSlot (.send call) i) jiffies) ++
    [.run (.alloc call) jiffies, .run (.mark call Index.first) jiffies]

/-- The way out through `move_tcpack_msg`. -/
def leaves (call : SendCall) : List FilterLabel :=
  (List.finRange 32).map fun i => .run (.move call.msg i) 0

/-- The first acknowledgement of a flow, which is given the first slot. -/
def firstAck (port : UInt8) : List FilterLabel :=
  [.event (.send (ackCall port 1).msg), .run (.update (ackCall port 1).msg) 0,
    .run (.checkAck (ackCall port 1).msg) 0] ++ takes (ackCall port 1) 0 ++ leaves (ackCall port 1)

/-- Four acknowledgements of one flow, of which the last replaces the third. -/
def replacedCalls : List FilterLabel :=
  firstAck 1 ++ handles (ackCall 1 2) 0 ++ leaves (ackCall 1 2) ++ handles (ackCall 1 3) 0 ++
    handles (ackCall 1 4) 0

theorem dropped_covered_replaced : ∃ c,
    Run.exec filterProgram.step ⟨.init 0 4000, []⟩ replacedCalls = some c ∧
      c.shared.filter.freed = [sampleMsg 1 3 0x10] ∧
      Cumulative samplePort sampleNum c.shared c.threads := by
  have ends : (Run.exec filterProgram.step ⟨.init 0 4000, []⟩ replacedCalls).map
      (fun c => c.shared.filter.freed) = some [sampleMsg 1 3 0x10] := by decide +kernel
  obtain ⟨c, run, freed⟩ := Option.map_eq_some_iff.mp ends
  have guarded : ∀ c label, (inEpoch samplePort sampleNum c label && undisplaced c label) = true →
      inEpoch samplePort sampleNum c label = true ∧ undisplaced c label = true :=
    fun _ _ ok => by simpa using ok
  exact ⟨c, run, freed, dropped_covered samplePort sampleNum sampleNum_unwraps 0 4000 c
    (.exec_guarded guarded replacedCalls .init run (by decide +kernel))⟩

/-- The third acknowledgement of a flow is held, and its timer expires while the
    second is in transmission; at 5000 the slot ages and goes to another flow. -/
def reusedCalls : List FilterLabel :=
  firstAck 1 ++ handles (ackCall 1 2) 0 ++ handles (ackCall 1 3) 0 ++
    [.event (.timeout Index.first), .run (.expired Index.first) 0] ++ leaves (ackCall 1 2) ++
    [.event (.send (ackCall 2 1).msg), .run (.update (ackCall 2 1).msg) 5000,
      .run (.updateLock (ackCall 2 1).msg) 5000] ++
    (List.finRange 32).reverse.map (fun i => .run (.updateSlot (ackCall 2 1).msg i) 5000) ++
    [.run (.checkAck (ackCall 2 1).msg) 5000] ++ takes (ackCall 2 1) 5000 ++
    leaves (ackCall 2 1) ++ handles (ackCall 2 2) 5000

/-- The second acknowledgement of the flow that gets the slot drops the third of
    the flow that had it. -/
theorem reuse_drops : ¬ ∀ (conn : MsgBuf → Nat) (num : MsgBuf → Int), Unwraps num →
    ∀ c, Run.Reachable filterProgram.step (fun c label => inEpoch conn num c label = true)
      ⟨.init 0 4000, []⟩ c → Cumulative conn num c.shared c.threads := by
  intro covered
  have ends : (Run.exec filterProgram.step ⟨.init 0 4000, []⟩ reusedCalls).map
      (fun c => (c.shared.filter.passed.map fun m => (samplePort m, sampleNum m),
        c.shared.filter.freed, c.threads,
        (List.finRange 32).map fun i => ((c.shared.filter.ackInfo i).msgbuf.map samplePort))) =
      some ([(1, 1), (1, 2), (2, 1)], [sampleMsg 1 3 0x10],
        [.move (sampleMsg 2 2 0x10) Index.first], List.replicate 32 none) := by
    decide +kernel
  obtain ⟨c, run, facts⟩ := Option.map_eq_some_iff.mp ends
  simp only [Prod.mk.injEq] at facts
  obtain ⟨passed, freed, threads, slots⟩ := facts
  have third := covered samplePort sampleNum sampleNum_unwraps c
    (.exec_guarded (fun _ _ ok => ok) reusedCalls .init run (by decide +kernel))
    (sampleMsg 1 3 0x10) (by simp [freed])
  obtain ⟨m, flow, above, (sent | ⟨i, moving⟩) | ⟨i, ack, -, -, held⟩⟩ := third
  · have known := List.mem_map_of_mem (f := fun m => (samplePort m, sampleNum m)) sent
    have port : samplePort (sampleMsg 1 3 0x10) = 1 := rfl
    have number : sampleNum (sampleMsg 1 3 0x10) = 3 := rfl
    rw [port] at flow
    rw [number] at above
    simp only [passed, flow, List.mem_cons, Prod.mk.injEq, List.not_mem_nil, or_false] at known
    omega
  · rw [threads, List.mem_singleton] at moving
    obtain ⟨rfl, rfl⟩ := Point.move.inj moving
    exact absurd flow (by decide)
  · have slot := List.mem_map_of_mem
      (f := fun i => (c.shared.filter.ackInfo i).msgbuf.map samplePort) (List.mem_finRange i)
    rw [slots, held] at slot
    cases List.eq_of_mem_replicate slot

end Aic8800.TcpAck
