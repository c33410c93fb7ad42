import Aic8800.Sched.Queues
import Mathlib.Data.List.Rotate

/-! # The scheduler lists

The list bit of a TX queue agrees with the list of its hardware queue, and what is
linked has buffers and credits, as long as nobody initialises or flushes a queue
that is linked, and the two places that link a queue without a look at its buffers
meet one that has some.
-/

namespace Aic8800.Sched

open Lib

/-- A queue has the list bit exactly when it is linked, once, in the list of its
    hardware queue, what is linked has buffers and credits, and no `BUG_ON` was met. -/
structure Consistent (s : Hw) : Prop where
  linked : ∀ q h, (s.lists h).count q =
    if (s.txqs q).inHwqList = true ∧ (s.txqs q).hwq = some h then 1 else 0
  ready : ∀ h, ∀ q ∈ s.lists h, (s.txqs q).skList ≠ [] ∧ 0 < (s.txqs q).credits.toInt
  safe : s.crashed = false

/-- The steps that keep the lists consistent. -/
def Schedulable (s : Hw) : Op → Prop
  | .init q _ _ | .flush q => (s.txqs q).inHwqList = false
  | .txdatacfm q _ cfm _ =>
      ((s.txqs q).retries cfm = true → (s.txqs q).credits.toInt < 127) ∧
        ((s.txqs q).continuesSp cfm = true → (s.txqs q).skList ≠ [])
  | .trafficReq (.multicast vifIdx) pktReq p =>
      (s.ps (.multicast vifIdx)).active = true ∧ Hw.interrupts pktReq p = false ∧
        s.startsSp (.multicast vifIdx) p = true → (s.txqs (.bcmc vifIdx)).skList ≠ []
  | _ => True

/-! ## What the lists depend on -/

/-- `t` agrees with `s` on all that the lists depend on. -/
structure SameLinks (s t : Hw) : Prop where
  listed : ∀ q, (t.txqs q).inHwqList = (s.txqs q).inHwqList
  active : ∀ q, (t.txqs q).active = (s.txqs q).active
  credits : ∀ q, (t.txqs q).credits = (s.txqs q).credits
  skList : ∀ q, (t.txqs q).skList = (s.txqs q).skList
  hwq : ∀ q, (t.txqs q).hwq = (s.txqs q).hwq
  lists : t.lists = s.lists
  crashed : t.crashed = s.crashed
  scan : t.scan = s.scan

namespace SameLinks

theorem refl (s : Hw) : SameLinks s s :=
  ⟨fun _ => rfl, fun _ => rfl, fun _ => rfl, fun _ => rfl, fun _ => rfl, rfl, rfl, rfl⟩

theorem trans {s t u : Hw} (h : SameLinks s t) (h' : SameLinks t u) : SameLinks s u where
  listed q := (h'.listed q).trans (h.listed q)
  active q := (h'.active q).trans (h.active q)
  credits q := (h'.credits q).trans (h.credits q)
  skList q := (h'.skList q).trans (h.skList q)
  hwq q := (h'.hwq q).trans (h.hwq q)
  lists := h'.lists.trans h.lists
  crashed := h'.crashed.trans h.crashed
  scan := h'.scan.trans h.scan

theorem onTxq (s : Hw) (q : TxqId) (f : Txq → Txq)
    (listed : (f (s.txqs q)).inHwqList = (s.txqs q).inHwqList)
    (active : (f (s.txqs q)).active = (s.txqs q).active)
    (credits : (f (s.txqs q)).credits = (s.txqs q).credits)
    (skList : (f (s.txqs q)).skList = (s.txqs q).skList)
    (hwq : (f (s.txqs q)).hwq = (s.txqs q).hwq) : SameLinks s (s.onTxq q f) := by
  constructor <;> try rfl
  all_goals
    intro q'
    by_cases same : q' = q
    · subst same
      simpa [Hw.onTxq]
    · simp [Hw.onTxq, same]

theorem onPs (s : Hw) (st : StaId) (f : StaPs → StaPs) : SameLinks s (s.onPs st f) :=
  ⟨fun _ => rfl, fun _ => rfl, fun _ => rfl, fun _ => rfl, fun _ => rfl, rfl, rfl, rfl⟩

theorem accountPs (s : Hw) (q : TxqId) (f : StaPs → StaPs) : SameLinks s (s.accountPs q f) := by
  unfold Hw.accountPs
  split
  · split
    · exact onPs s _ f
    · exact refl s
  · exact refl s

theorem setPushLimit (s : Hw) (q : TxqId) (n : Nat) :
    SameLinks s (s.onTxq q (·.setPushLimit n)) :=
  onTxq s q _ (Txq.inHwqList_congr rfl) rfl rfl rfl rfl

theorem clearPushLimits (s : Hw) (st : StaId) : SameLinks s (s.clearPushLimits st) := by
  unfold Hw.clearPushLimits
  induction st.txqs generalizing s with
  | nil => exact refl s
  | cons q rest ih => exact (setPushLimit s q 0).trans (ih _)

theorem txPush (s : Hw) (q : TxqId) : SameLinks s (s.txPush q) := by
  have counted : SameLinks s (s.accountPs q (·.pushed (s.txqs q).psId)) := accountPs s q _
  exact counted.trans (onTxq _ q Txq.countPush (Txq.inHwqList_congr rfl) rfl rfl rfl rfl)

theorem txPushes (s : Hw) (q : TxqId) (n : Nat) : SameLinks s (s.txPushes q n) := by
  induction n generalizing s with
  | zero => exact refl s
  | succ n ih => exact (txPush s q).trans (ih _)

theorem abortLegacy (s : Hw) (q : TxqId) : SameLinks s (s.abortLegacy q) := by
  unfold Hw.abortLegacy
  split
  · split
    · exact (onPs s _ _).trans (setPushLimit _ q 0)
    · exact refl s
  · exact refl s

theorem flowCtrlRestart (s : Hw) (q : TxqId) : SameLinks s (s.onTxq q Txq.flowCtrlRestart) := by
  apply onTxq s q _ _ rfl rfl rfl rfl
  unfold Txq.flowCtrlRestart
  split <;> simp [Txq.inHwqList, ndevFlowCtrl]

end SameLinks

/-! ## The invariant -/

/-- The invariant of the queues and lists, but for what is linked having buffers. -/
structure Ordered (s : Hw) : Prop where
  own : ∀ q h, (s.txqs q).hwq = some h → h = q.hwq
  blank : ∀ q, (s.txqs q).hwq = none →
    (s.txqs q).active = false ∧ (s.txqs q).skList = [] ∧ (s.txqs q).inHwqList = false
  credits : ∀ q, 0 ≤ (s.txqs q).credits.toInt ∧
    ((s.txqs q).hwq ≠ none → (s.txqs q).credits.toInt ≠ 0)
  linked : ∀ q h, (s.lists h).count q =
    if (s.txqs q).inHwqList = true ∧ (s.txqs q).hwq = some h then 1 else 0

def Ready (s : Hw) : Prop := ∀ q, (s.txqs q).inHwqList = true → (s.txqs q).skList ≠ []

theorem SameLinks.ordered {s t : Hw} (same : SameLinks s t) (ord : Ordered s) : Ordered t where
  own q h := by simpa [same.hwq] using ord.own q h
  blank q := by simpa [same.hwq, same.active, same.skList, same.listed] using ord.blank q
  credits q := by simpa [same.hwq, same.credits] using ord.credits q
  linked q h := by simpa [same.hwq, same.listed, same.lists] using ord.linked q h

theorem SameLinks.ready {s t : Hw} (same : SameLinks s t) (rdy : Ready s) : Ready t := by
  intro q
  simpa [same.listed, same.skList] using rdy q

namespace Ordered

variable {s : Hw} {q : TxqId}

theorem mem_iff (ord : Ordered s) {h : HwqId} :
    q ∈ s.lists h ↔ (s.txqs q).inHwqList = true ∧ (s.txqs q).hwq = some h := by
  rw [← List.count_pos_iff, ord.linked q h]
  split <;> simp_all

theorem nodup (ord : Ordered s) (h : HwqId) : (s.lists h).Nodup := by
  rw [List.nodup_iff_count_le_one]
  intro q
  rw [ord.linked q h]
  split <;> simp

/-- One queue changes, and its links and hardware queue stay. -/
theorem onTxq (ord : Ordered s) (f : Txq → Txq)
    (listed : (f (s.txqs q)).inHwqList = (s.txqs q).inHwqList)
    (hwq : (f (s.txqs q)).hwq = (s.txqs q).hwq)
    (blank : (s.txqs q).hwq = none → (f (s.txqs q)).active = false ∧ (f (s.txqs q)).skList = [])
    (credits : 0 ≤ (f (s.txqs q)).credits.toInt ∧
      ((s.txqs q).hwq ≠ none → (f (s.txqs q)).credits.toInt ≠ 0)) :
    Ordered (s.onTxq q f) := by
  constructor
  · intro q' h
    by_cases same : q' = q
    · subst same
      simpa [Hw.onTxq, hwq] using ord.own q' h
    · simpa [Hw.onTxq, same] using ord.own q' h
  · intro q'
    by_cases same : q' = q
    · subst same
      intro none
      have bare : (s.txqs q').hwq = .none := by simpa [Hw.onTxq, hwq] using none
      have parts := blank bare
      simpa [Hw.onTxq, listed, parts] using (ord.blank q' bare).2.2
    · simpa [Hw.onTxq, same] using ord.blank q'
  · intro q'
    by_cases same : q' = q
    · subst same
      simpa [Hw.onTxq, hwq] using credits
    · simpa [Hw.onTxq, same] using ord.credits q'
  · intro q' h
    by_cases same : q' = q
    · subst same
      simpa [Hw.onTxq, listed, hwq] using ord.linked q' h
    · simpa [Hw.onTxq, same] using ord.linked q' h

theorem init (ord : Ordered s) (unlinked : (s.txqs q).inHwqList = false) (status : StopReason)
    (uapsd : Bool) : Ordered (s.onTxq q fun _ => .init q status uapsd) := by
  have listed : (Txq.init q status uapsd).inHwqList = false := status.notListed
  constructor
  · intro q' h
    by_cases same : q' = q
    · subst same
      simp [Hw.onTxq, Txq.init, eq_comm]
    · simpa [Hw.onTxq, same] using ord.own q' h
  · intro q'
    by_cases same : q' = q
    · subst same
      simp [Hw.onTxq, Txq.init]
    · simpa [Hw.onTxq, same] using ord.blank q'
  · intro q'
    by_cases same : q' = q
    · subst same
      simp [Hw.onTxq, Txq.init]
    · simpa [Hw.onTxq, same] using ord.credits q'
  · intro q' h
    by_cases same : q' = q
    · subst same
      simpa [Hw.onTxq, listed, unlinked] using ord.linked q' h
    · simpa [Hw.onTxq, same] using ord.linked q' h

/-- A queue is linked at the end of its list. -/
theorem add (ord : Ordered s) (placed : (s.txqs q).hwq ≠ none) : Ordered (s.addToHwList q) := by
  unfold Hw.addToHwList
  cases already : (s.txqs q).inHwqList with
  | true => simpa using ord
  | false =>
      obtain ⟨h, home⟩ := Option.ne_none_iff_exists'.mp placed
      simp only [home, Bool.false_eq_true, if_false]
      constructor
      · intro q' h'
        by_cases same : q' = q
        · subst same
          simpa using ord.own q' h'
        · simpa [same] using ord.own q' h'
      · intro q' bare
        by_cases same : q' = q
        · subst same
          simp [home] at bare
        · simpa [same] using ord.blank q' (by simpa [same] using bare)
      · intro q'
        by_cases same : q' = q
        · subst same
          simpa using ord.credits q'
        · simpa [same] using ord.credits q'
      · intro q' h'
        have before := ord.linked q' h'
        by_cases same : q' = q
        · subst same
          by_cases its : h' = h
          · subst its
            simpa [home, already] using before
          · simpa [home, already, its, Ne.symm its] using before
        · by_cases its : h' = h
          · subst its
            simpa [same, List.count_append, List.count_cons, Ne.symm same] using before
          · simpa [same, its] using before

/-- A queue is taken out of its list. -/
theorem del (ord : Ordered s) : Ordered (s.delFromHwList q) := by
  unfold Hw.delFromHwList
  cases linked : (s.txqs q).inHwqList with
  | false => simpa using ord
  | true =>
      simp only [if_true]
      constructor
      · intro q' h'
        by_cases same : q' = q
        · subst same
          simpa using ord.own q' h'
        · simpa [same] using ord.own q' h'
      · intro q' bare
        by_cases same : q' = q
        · subst same
          have blank := ord.blank q' (by simpa using bare)
          simp [blank.2.2] at linked
        · simpa [same] using ord.blank q' (by simpa [same] using bare)
      · intro q'
        by_cases same : q' = q
        · subst same
          simpa using ord.credits q'
        · simpa [same] using ord.credits q'
      · intro q' h'
        have before := ord.linked q' h'
        by_cases same : q' = q
        · subst same
          simp only [List.count_erase_self, before, Hw.onTxq_self, Txq.inHwqList_setStatus_del]
          split <;> simp
        · simpa [same, List.count_erase_of_ne same] using before

theorem not_listed_del (s : Hw) (q : TxqId) :
    ((s.delFromHwList q).txqs q).inHwqList = false := by
  unfold Hw.delFromHwList
  split
  · simp
  · exact Bool.eq_false_iff.mpr ‹_›

end Ordered

/-- The invariant between two runs of the loop of `rwnx_hwq_process`. -/
structure Idle (s : Hw) : Prop where
  ordered : Ordered s
  ready : Ready s
  safe : s.crashed = false
  free : s.scan = none

theorem SameLinks.idle {s t : Hw} (same : SameLinks s t) (idle : Idle s) : Idle t where
  ordered := same.ordered idle.ordered
  ready := same.ready idle.ready
  safe := same.crashed.trans idle.safe
  free := same.scan.trans idle.free

namespace Idle

variable {s : Hw} {q : TxqId}

theorem skList (idle : Idle s) (filled : (s.txqs q).skList ≠ []) : (s.txqs q).hwq ≠ none := by
  intro bare
  exact filled (idle.ordered.blank q bare).2.1

/-- One queue changes but keeps its links and its hardware queue. -/
theorem onTxq (idle : Idle s) (f : Txq → Txq)
    (listed : (f (s.txqs q)).inHwqList = (s.txqs q).inHwqList)
    (hwq : (f (s.txqs q)).hwq = (s.txqs q).hwq)
    (blank : (s.txqs q).hwq = none → (f (s.txqs q)).active = false ∧ (f (s.txqs q)).skList = [])
    (credits : 0 ≤ (f (s.txqs q)).credits.toInt ∧
      ((s.txqs q).hwq ≠ none → (f (s.txqs q)).credits.toInt ≠ 0))
    (filled : (s.txqs q).skList ≠ [] → (f (s.txqs q)).skList ≠ []) :
    Idle (s.onTxq q f) where
  ordered := idle.ordered.onTxq f listed hwq blank credits
  ready := by
    intro q' linked
    by_cases same : q' = q
    · subst same
      rw [Hw.onTxq_self] at linked ⊢
      exact filled (idle.ready q' (listed.symm.trans linked))
    · rw [Hw.onTxq_of_ne s f same] at linked ⊢
      exact idle.ready q' linked
  safe := idle.safe
  free := idle.free

theorem setStatus (idle : Idle s) (b : Txq → BitVec 8)
    (listed : ((s.txqs q).setStatus (b (s.txqs q))).inHwqList = (s.txqs q).inHwqList) :
    Idle (s.onTxq q fun t => t.setStatus (b t)) := by
  apply idle.onTxq _ listed rfl
  · exact fun bare => ⟨(idle.ordered.blank q bare).1, (idle.ordered.blank q bare).2.1⟩
  · exact idle.ordered.credits q
  · exact id

theorem add (idle : Idle s) (filled : (s.txqs q).skList ≠ []) : Idle (s.addToHwList q) where
  ordered := idle.ordered.add (idle.skList filled)
  ready := by
    intro q' linked
    by_cases same : q' = q
    · subst same
      have same : ((s.addToHwList q').txqs q').skList = (s.txqs q').skList :=
        Txq.skList_eq_of_account ((SameBooks.addToHwList s q').txqs q')
      rw [same]
      exact filled
    · rw [Hw.addToHwList_of_ne s same] at linked ⊢
      exact idle.ready q' linked
  safe := (Hw.addToHwList_crashed s (idle.skList filled)).trans idle.safe
  free := (Hw.addToHwList_scan s q).trans idle.free

theorem del (idle : Idle s) : Idle (s.delFromHwList q) where
  ordered := idle.ordered.del
  ready := by
    intro q' linked
    by_cases same : q' = q
    · subst same
      rw [Ordered.not_listed_del] at linked
      contradiction
    · rw [Hw.delFromHwList_of_ne s same] at linked ⊢
      exact idle.ready q' linked
  safe := (Hw.delFromHwList_crashed s q).trans idle.safe
  free := (Hw.delFromHwList_scan s q).trans idle.free

theorem start (idle : Idle s) (reason : StopReason) : Idle (s.start q reason) := by
  unfold Hw.start
  split
  · have cleared := idle.setStatus (q := q) (fun t => t.status &&& ~~~reason.bits)
      (Txq.inHwqList_setStatus_start _ reason)
    dsimp only
    split
    · rename_i runs
      exact cleared.add runs.2
    · exact cleared
  · exact idle

theorem stop (idle : Idle s) (reason : StopReason) : Idle (s.stop q reason) := by
  unfold Hw.stop
  split
  · exact (idle.setStatus (fun t => t.status ||| reason.bits)
      (Txq.inHwqList_setStatus_stop _ reason)).del
  · exact idle

theorem staStart (idle : Idle s) (st : StaId) (reason : StopReason) :
    Idle (s.staStart st reason) := by
  unfold Hw.staStart
  induction st.txqs generalizing s with
  | nil => exact idle
  | cons q rest ih => exact ih (idle.start reason)

theorem staStop (idle : Idle s) (st : StaId) (reason : StopReason) :
    Idle (s.staStop st reason) := by
  unfold Hw.staStop
  induction st.txqs generalizing s with
  | nil => exact idle
  | cons q rest ih => exact ih (idle.stop reason)

theorem deinit (idle : Idle s) : Idle (s.deinit q) := by
  unfold Hw.deinit
  split
  · have gone := idle.del (q := q)
    apply gone.onTxq (fun t => { t with active := false }) (Txq.inHwqList_congr rfl) rfl
    · exact fun bare => ⟨rfl, (gone.ordered.blank q bare).2.1⟩
    · exact gone.ordered.credits q
    · exact id
  · exact idle

/-- A buffer is queued on a queue that has been initialised. -/
theorem queueSkb (idle : Idle s) (placed : (s.txqs q).hwq ≠ none) (skb : Nat) (retry tbusy : Bool) :
    Idle (s.queueSkb q skb retry tbusy) := by
  have counted : Idle (s.accountPs q (·.queued (s.txqs q).psId)) :=
    (SameLinks.accountPs s q _).idle idle
  have placed' : ((s.accountPs q (·.queued (s.txqs q).psId)).txqs q).hwq ≠ none := by
    rw [(SameLinks.accountPs s q _).hwq]
    exact placed
  have put : Idle ((s.accountPs q (·.queued (s.txqs q).psId)).onTxq q
      (·.queued q skb retry tbusy)) := by
    apply counted.onTxq (·.queued q skb retry tbusy) (Txq.queued_inHwqList ..) rfl
    · exact fun bare => absurd bare placed'
    · exact counted.ordered.credits q
    · exact fun _ => Txq.queued_ne_nil _ _ _ _ _
  unfold Hw.queueSkb
  dsimp only
  split
  · exact put
  · apply put.add
    rw [Hw.onTxq_self]
    exact Txq.queued_ne_nil _ _ _ _ _

theorem txRetry (idle : Idle s) (placed : (s.txqs q).hwq ≠ none)
    (below : (s.txqs q).credits.toInt < 127) (skb : Nat) (tbusy : Bool) :
    Idle (s.txRetry q skb tbusy) := by
  have bounds := idle.ordered.credits q
  have raised : (Int8.ofInt ((s.txqs q).credits.toInt + 1)).toInt =
      (s.txqs q).credits.toInt + 1 := by
    apply Int8.toInt_ofInt_of_le <;> omega
  have counted : Idle (s.onTxq q Txq.addCredit) := by
    apply idle.onTxq Txq.addCredit (Txq.inHwqList_congr rfl) rfl
    · exact fun bare => absurd bare placed
    · simp only [Txq.addCredit, raised]
      omega
    · exact id
  have placed' : ((s.onTxq q Txq.addCredit).txqs q).hwq ≠ none := by
    rw [Hw.onTxq_self]
    exact placed
  unfold Hw.txRetry
  dsimp only
  split
  · have same := Txq.hwq_eq_of_account
      ((SameBooks.start (s.onTxq q Txq.addCredit) q .full).txqs q)
    apply (counted.start .full).queueSkb
    exact fun none => placed' (same.symm.trans none)
  · exact counted.queueSkb placed' skb true tbusy

theorem active (idle : Idle s) (active : (s.txqs q).active = true) : (s.txqs q).hwq ≠ none := by
  intro bare
  simp [(idle.ordered.blank q bare).1] at active

theorem txdatacfm (idle : Idle s) {skb : Nat} {cfm : TxCfm} {tbusy : Bool}
    (ok : Schedulable s (.txdatacfm q skb cfm tbusy)) : Idle (s.txdatacfm q skb cfm tbusy) := by
  unfold Hw.txdatacfm
  split
  · rename_i retries
    have active : (s.txqs q).active = true := by
      simp only [Txq.retries, Bool.and_eq_true] at retries
      exact retries.2.1.2
    exact idle.txRetry (idle.active active) (ok.1 retries) skb tbusy
  · split
    · rename_i continues
      exact idle.add (ok.2 continues)
    · exact idle

theorem creditUpdate (idle : Idle s) : Idle (s.creditUpdate q) := by
  unfold Hw.creditUpdate
  split
  · exact idle
  · split
    · exact idle.stop .full
    · exact idle.start .full

/-- A queue with buffers is given a part of a service period. -/
theorem grant (idle : Idle s) (filled : (s.txqs q).skList ≠ []) (st : StaId) (p : PsId) (n : Nat) :
    Idle (s.grant st p q n) := by
  have given := (SameLinks.setPushLimit s q n).trans (SameLinks.onPs _ st (·.grant p n))
  apply (given.idle idle).add
  rw [given.skList]
  exact filled

/-- Only queues that have buffers are given a part. -/
theorem dispatch (idle : Idle s) (st : StaId) (p : PsId) (qs : List TxqId) (pktReq : Nat) :
    Idle (s.dispatch st p qs pktReq) := by
  induction qs generalizing s pktReq with
  | nil => exact idle
  | cons q rest ih =>
      unfold Hw.dispatch
      dsimp only
      split
      · exact ih idle pktReq
      · rename_i some
        have filled : (s.txqs q).skList ≠ [] := by
          intro empty
          have sound := (idle.ordered.credits q).1
          simp [Txq.available, empty] at some
          omega
        split
        · exact ih (idle.grant filled st p _) _
        · exact idle.grant filled st p pktReq

theorem trafficReq (idle : Idle s) {st : StaId} {pktReq : UInt16} {p : PsId}
    (ok : Schedulable s (.trafficReq st pktReq p)) : Idle (s.trafficReq st pktReq p) := by
  unfold Hw.trafficReq
  split
  · exact idle
  · rename_i asleep
    split
    · exact (SameLinks.clearPushLimits _ st).idle ((SameLinks.onPs s st _).idle idle)
    · rename_i goesOn
      split
      · exact idle
      · rename_i starts
        cases st with
        | multicast vifIdx =>
            apply idle.grant
            exact ok ⟨by simpa using asleep, by simpa using goesOn, by simpa using starts⟩
        | remote staIdx => exact idle.dispatch _ p _ _

theorem psEnable (idle : Idle s) (st : StaId) : Idle (s.psEnable st) := by
  unfold Hw.psEnable
  dsimp only
  exact (SameLinks.onPs _ st _).idle (((SameLinks.onPs s st _).idle idle).staStop st .staPs)

/-- The hardware queue of an initialised multicast queue is best effort already. -/
theorem resetHwq (idle : Idle s) {st : StaId} (placed : ∀ q ∈ st.txqs, (s.txqs q).hwq ≠ none) :
    s.resetHwq st = s := by
  cases st with
  | remote staIdx => rfl
  | multicast vifIdx =>
      obtain ⟨h, home⟩ := Option.ne_none_iff_exists'.mp (placed (.bcmc vifIdx) (by simp [StaId.txqs]))
      obtain rfl := idle.ordered.own _ h home
      have same : { s.txqs (.bcmc vifIdx) with hwq := some .be } = s.txqs (.bcmc vifIdx) := by
        rw [← show (s.txqs (.bcmc vifIdx)).hwq = some .be from home]
      simp only [Hw.resetHwq, Hw.onTxq, same, Function.update_eq_self]

theorem psDisable (idle : Idle s) {st : StaId}
    (placed : ∀ q ∈ st.txqs, (s.txqs q).hwq ≠ none) : Idle (s.psDisable st) := by
  have awake : Idle (s.onPs st fun ps => { ps with active := false }) :=
    (SameLinks.onPs s st _).idle idle
  unfold Hw.psDisable
  dsimp only
  rw [awake.resetHwq placed]
  exact ((SameLinks.clearPushLimits _ st).idle awake).staStart st .staPs

end Idle

/-! ## Runs -/

/-- The invariant of every state. The loop of `rwnx_hwq_process` has the end of its
    list before it. -/
structure Kept (s : Hw) : Prop where
  ordered : Ordered s
  ready : Ready s
  safe : s.crashed = false
  scanned : ∀ h rest, s.scan = some (h, rest) → rest <:+ s.lists h

theorem Idle.kept {s : Hw} (idle : Idle s) : Kept s where
  ordered := idle.ordered
  ready := idle.ready
  safe := idle.safe
  scanned h rest scan := by
    rw [idle.free] at scan
    contradiction

namespace Kept

variable {s : Hw} {q : TxqId}

theorem idle (kept : Kept s) (free : s.scan = none) : Idle s :=
  ⟨kept.ordered, kept.ready, kept.safe, free⟩

theorem consistent (kept : Kept s) : Consistent s where
  linked := kept.ordered.linked
  ready := by
    intro h q member
    obtain ⟨listed, home⟩ := kept.ordered.mem_iff.mp member
    have credits := kept.ordered.credits q
    have charged := credits.2 (by simp [home])
    exact ⟨kept.ready q listed, by omega⟩
  safe := kept.safe

theorem init (kept : Kept s) (unlinked : (s.txqs q).inHwqList = false) (status : StopReason)
    (uapsd : Bool) : Kept (s.onTxq q fun _ => .init q status uapsd) where
  ordered := kept.ordered.init unlinked status uapsd
  ready := by
    intro q' listed
    by_cases same : q' = q
    · subst same
      rw [Hw.onTxq_self, show (Txq.init q' status uapsd).inHwqList = false from
        status.notListed] at listed
      contradiction
    · rw [Hw.onTxq_of_ne s _ same] at listed ⊢
      exact kept.ready q' listed
  safe := kept.safe
  scanned := kept.scanned

theorem flush (kept : Kept s) (unlinked : (s.txqs q).inHwqList = false) : Kept (s.flush q) where
  ordered := by
    apply kept.ordered.onTxq (fun t => { t with skList := [] }) (Txq.inHwqList_congr rfl) rfl
    · exact fun bare => ⟨(kept.ordered.blank q bare).1, rfl⟩
    · exact kept.ordered.credits q
  ready := by
    intro q' listed
    by_cases same : q' = q
    · subst same
      have still : ((s.flush q').txqs q').inHwqList = (s.txqs q').inHwqList := by
        rw [Hw.flush, Hw.onTxq_self]
        exact Txq.inHwqList_congr rfl
      rw [still, unlinked] at listed
      contradiction
    · rw [Hw.flush, Hw.onTxq_of_ne s _ same] at listed ⊢
      exact kept.ready q' listed
  safe := kept.safe
  scanned := kept.scanned

end Kept

theorem SameLinks.kept {s t : Hw} (same : SameLinks s t) (kept : Kept s) : Kept t where
  ordered := same.ordered kept.ordered
  ready := same.ready kept.ready
  safe := same.crashed.trans kept.safe
  scanned h rest := by
    rw [same.scan, same.lists]
    exact kept.scanned h rest

/-! ### The loop of `rwnx_hwq_process` -/

section

variable {q : TxqId} {rest l : List TxqId}

theorem suffix_erase (suffix : q :: rest <:+ l) (nodup : l.Nodup) : rest <:+ l.erase q := by
  obtain ⟨before, rfl⟩ := suffix
  have absent : q ∉ before := fun member =>
    (List.disjoint_of_nodup_append nodup) member List.mem_cons_self
  rw [List.erase_append_right _ absent, List.erase_cons_head]
  exact List.suffix_append before rest

theorem suffix_rotate (suffix : q :: rest <:+ l) :
    (if rest = [] then [] else rest ++ l.take 1) <:+ l.rotate 1 := by
  split
  · exact List.nil_suffix
  · obtain ⟨before, rfl⟩ := suffix
    cases before with
    | nil => simp
    | cons x before =>
        simp only [List.cons_append, List.rotate_cons_succ, List.rotate_zero, List.take_succ_cons,
          List.take_zero]
        exact ⟨before ++ [q], by simp⟩

end

variable {s : Hw} {q : TxqId} {h : HwqId} {rest : List TxqId}

/-- The queue at hand may be empty only if it leaves the list. -/
theorem Ordered.requeue (ord : Ordered s) (safe : s.crashed = false)
    (suffix : q :: rest <:+ s.lists h)
    (others : ∀ q', q' ≠ q → (s.txqs q').inHwqList = true → (s.txqs q').skList ≠ [])
    {txqEmpty : Bool} (left : txqEmpty = false → (s.txqs q).skList ≠ []) :
    Kept (s.requeue h q rest txqEmpty) := by
  have rewound (t : Hw) : SameLinks t (t.onTxq q fun t => { t with pktSent := 0 }) :=
    SameLinks.onTxq t q _ (Txq.inHwqList_congr rfl) rfl rfl rfl rfl
  have filled (more : txqEmpty = false) : Ready s := by
    intro q' listed
    by_cases same : q' = q
    · subst same
      exact left more
    · exact others q' same listed
  unfold Hw.requeue
  cases txqEmpty with
  | true =>
      have gone := (rewound (s.delFromHwList q)).ordered ord.del
      exact {
        ordered := ⟨gone.own, gone.blank, gone.credits, gone.linked⟩
        ready := by
          apply (rewound (s.delFromHwList q)).ready
          intro q' listed
          by_cases same : q' = q
          · subst same
            rw [Ordered.not_listed_del] at listed
            contradiction
          · rw [Hw.delFromHwList_of_ne s same] at listed ⊢
            exact others q' same listed
        safe := (Hw.delFromHwList_crashed s q).trans safe
        scanned := by
          rintro h' rest' ⟨⟩
          have listed := (ord.mem_iff.mp (suffix.subset List.mem_cons_self)).1
          simpa [Hw.delFromHwList, listed] using suffix_erase suffix (ord.nodup h) }
  | false =>
      have same := rewound s
      rw [if_neg (by decide)]
      split
      · exact {
          ordered := {
            own := (same.ordered ord).own
            blank := (same.ordered ord).blank
            credits := (same.ordered ord).credits
            linked := by
              intro q' h'
              have before := (same.ordered ord).linked q' h'
              by_cases its : h' = h
              · subst its
                simpa [(List.rotate_perm _ 1).count_eq] using before
              · simpa [its] using before }
          ready := same.ready (filled rfl)
          safe := safe
          scanned := by
            rintro h' rest' ⟨⟩
            simpa using suffix_rotate suffix }
      · exact {
          ordered := ⟨ord.own, ord.blank, ord.credits, ord.linked⟩
          ready := filled rfl
          safe := safe
          scanned := by
            rintro h' rest' ⟨⟩
            exact (List.suffix_cons q rest).trans suffix }

theorem Kept.visit (kept : Kept s) (scan : s.scan = some (h, q :: rest)) :
    Kept (s.visit h q rest) := by
  have suffix := kept.scanned h _ scan
  have member : q ∈ s.lists h := suffix.subset List.mem_cons_self
  have listed := (kept.ordered.mem_iff.mp member).1
  obtain ⟨filled, credits⟩ := kept.consistent.ready h q member
  unfold Hw.visit
  dsimp only
  rw [if_neg (by simp [listed])]
  split
  · -- the queue was de-initialised while it was linked
    have gone : Kept { s.delFromHwList q with scan := some (h, rest) } := by
      have out := kept.ordered.del (q := q)
      exact {
        ordered := ⟨out.own, out.blank, out.credits, out.linked⟩
        ready := by
          intro q' linked
          by_cases same : q' = q
          · subst same
            rw [Ordered.not_listed_del] at linked
            contradiction
          · rw [Hw.delFromHwList_of_ne s same] at linked ⊢
            exact kept.ready q' linked
        safe := (Hw.delFromHwList_crashed s q).trans kept.safe
        scanned := by
          rintro h' rest' ⟨⟩
          simpa [Hw.delFromHwList, listed] using suffix_erase suffix (kept.ordered.nodup h) }
    exact gone.flush (Ordered.not_listed_del s q)
  · rw [if_neg (by simp only [filled, or_false]; omega)]
    have counts := Txq.length_getSkbToPush (s.txqs q) credits
    generalize (s.txqs q).getSkbToPush = round at counts
    obtain ⟨n, txqEmpty⟩ := round
    have taken : Ordered (s.onTxq q (·.extract n)) := by
      apply kept.ordered.onTxq (·.extract n) (Txq.inHwqList_congr rfl) rfl
      · intro bare
        simp [(kept.ordered.blank q bare).2.1] at filled
      · exact kept.ordered.credits q
    have pushed := SameLinks.txPushes (s.onTxq q (·.extract n)) q n
    have after : Kept (((s.onTxq q (·.extract n)).txPushes q n).requeue h q rest txqEmpty) := by
      apply (pushed.ordered taken).requeue
      · exact pushed.crashed.trans kept.safe
      · rw [pushed.lists]
        exact suffix
      · intro q' other
        rw [pushed.listed, pushed.skList, Hw.onTxq_of_ne s _ other]
        exact kept.ready q'
      · intro more
        rw [pushed.skList, Hw.onTxq_self, ← List.length_pos_iff]
        have fewer := counts.2 more
        simp only [Txq.extract, List.length_drop]
        omega
    exact ((SameLinks.abortLegacy _ q).trans (SameLinks.flowCtrlRestart _ q)).kept after

/-- Every step that is schedulable keeps the invariant. -/
theorem Kept.perform (kept : Kept s) {op : Op} (enabled : s.enabled op = true)
    (ok : Schedulable s op) : Kept (s.perform op) := by
  cases op with
  | init q status uapsd => exact kept.init ok status uapsd
  | flush q => exact kept.flush ok
  | visit =>
      cases scan : s.scan with
      | none => simp [Hw.enabled, scan] at enabled
      | some entry =>
          obtain ⟨h, rest⟩ := entry
          cases rest with
          | nil =>
              simp only [Hw.perform, scan]
              exact ⟨⟨kept.ordered.own, kept.ordered.blank, kept.ordered.credits,
                kept.ordered.linked⟩, kept.ready, kept.safe, fun _ _ none => nomatch none⟩
          | cons q rest =>
              simp only [Hw.perform, scan]
              exact kept.visit scan
  | deinit q => exact (kept.idle (Option.isNone_iff_eq_none.mp enabled)).deinit.kept
  | start q reason => exact ((kept.idle (Option.isNone_iff_eq_none.mp enabled)).start reason).kept
  | stop q reason => exact ((kept.idle (Option.isNone_iff_eq_none.mp enabled)).stop reason).kept
  | queueSkb q skb tbusy =>
      simp only [Hw.enabled, Bool.and_eq_true, Option.isNone_iff_eq_none] at enabled
      exact ((kept.idle enabled.1).queueSkb (Option.isSome_iff_ne_none.mp enabled.2) skb false
        tbusy).kept
  | txdatacfm q skb cfm tbusy =>
      exact ((kept.idle (Option.isNone_iff_eq_none.mp enabled)).txdatacfm ok).kept
  | creditUpdate q => exact (kept.idle (Option.isNone_iff_eq_none.mp enabled)).creditUpdate.kept
  | psEnable st =>
      simp only [Hw.enabled, Bool.and_eq_true, Option.isNone_iff_eq_none] at enabled
      exact ((kept.idle enabled.1).psEnable st).kept
  | psDisable st =>
      simp only [Hw.enabled, Bool.and_eq_true, Option.isNone_iff_eq_none, List.all_eq_true,
        Option.isSome_iff_ne_none] at enabled
      exact ((kept.idle enabled.1).psDisable enabled.2).kept
  | psState st active =>
      exact (SameLinks.onPs s st fun ps => { ps with active := active }).kept kept
  | trafficReq st pktReq p =>
      exact ((kept.idle (Option.isNone_iff_eq_none.mp enabled)).trafficReq ok).kept
  | process h =>
      exact ⟨⟨kept.ordered.own, kept.ordered.blank, kept.ordered.credits, kept.ordered.linked⟩,
        kept.ready, kept.safe, by
          rintro h' rest ⟨⟩
          exact List.suffix_rfl⟩

theorem Kept.fresh : Kept Hw.fresh where
  ordered := by
    have unlisted : Txq.unused.inHwqList = false := by decide
    constructor
    · exact fun _ _ none => nomatch none
    · exact fun _ _ => ⟨rfl, rfl, unlisted⟩
    · exact fun _ => ⟨(by decide : 0 ≤ Txq.unused.credits.toInt), fun placed => absurd rfl placed⟩
    · intro q h
      simp [Hw.fresh, unlisted]
  ready q listed := by
    have unlisted : Txq.unused.inHwqList = false := by decide
    exact absurd (unlisted.symm.trans listed) Bool.false_ne_true
  safe := rfl
  scanned _ _ none := nomatch none

/-- In every run of schedulable steps the lists are consistent. -/
theorem scheduling_consistent {s : Hw} (run : Run.Reachable Hw.step Schedulable Hw.fresh s) :
    Consistent s := by
  have kept : Kept s := by
    apply run.invariant Kept Kept.fresh
    intro s op t kept ok taken
    obtain ⟨⟨-, enabled⟩, rfl⟩ := Hw.step_eq_some.mp taken
    exact kept.perform enabled ok
  exact kept.consistent

instance (s : Hw) (op : Op) : Decidable (Schedulable s op) :=
  match op with
  | .init q _ _ => inferInstanceAs (Decidable ((s.txqs q).inHwqList = false))
  | .flush q => inferInstanceAs (Decidable ((s.txqs q).inHwqList = false))
  | .txdatacfm q _ cfm _ => inferInstanceAs (Decidable
      (((s.txqs q).retries cfm = true → (s.txqs q).credits.toInt < 127) ∧
        ((s.txqs q).continuesSp cfm = true → (s.txqs q).skList ≠ [])))
  | .trafficReq (.multicast vifIdx) pktReq p => inferInstanceAs (Decidable
      ((s.ps (.multicast vifIdx)).active = true ∧ Hw.interrupts pktReq p = false ∧
        s.startsSp (.multicast vifIdx) p = true → (s.txqs (.bcmc vifIdx)).skList ≠ []))
  | .trafficReq (.remote _) _ _ | .deinit _ | .start _ _ | .stop _ _ | .queueSkb _ _ _
  | .creditUpdate _ | .psEnable _ | .psDisable _ | .psState _ _ | .process _ | .visit =>
      inferInstanceAs (Decidable True)

/-- A multicast station falls asleep, and a service period is started for it. -/
def sleepRun : List Op :=
  [.init (.bcmc 0) .clear false, .queueSkb (.bcmc 0) 1 false, .process .be, .visit, .visit,
    .psEnable (.multicast 0), .queueSkb (.bcmc 0) 2 false, .queueSkb (.bcmc 0) 3 false,
    .trafficReq (.multicast 0) (.ofNat 1) .legacy]

theorem scheduling_consistent_sleep :
    ∃ s, Run.exec Hw.step Hw.fresh sleepRun = some s ∧ s.lists .be = [.bcmc 0] ∧ Consistent s := by
  have facts : (Run.exec Hw.step Hw.fresh sleepRun).map (fun s => s.lists .be) =
      some [.bcmc 0] := by decide +kernel
  obtain ⟨s, run, linked⟩ := Option.map_eq_some_iff.mp facts
  exact ⟨s, run, linked, scheduling_consistent
    (Run.Reachable.exec_guarded (fun _ _ => of_decide_eq_true) _ .init run (by decide +kernel))⟩

/-- A frame for an unknown peer waits for the channel, and the queue is initialised
    once more before the frame is pushed. -/
def reinitRun : List Op :=
  [.init (.unk 0) .clear false, .stop (.unk 0) .chan, .queueSkb (.unk 0) 1 false,
    .start (.unk 0) .chan, .init (.unk 0) .clear false, .process .vo, .visit]

theorem reinit_meets_bug_on :
    ∃ s, Run.Reachable Hw.step Run.Free Hw.fresh s ∧ s.crashed = true ∧ ¬ Consistent s := by
  have facts : (Run.exec Hw.step Hw.fresh reinitRun).map (fun s => s.crashed) = some true := by
    decide +kernel
  obtain ⟨s, run, crashed⟩ := Option.map_eq_some_iff.mp facts
  refine ⟨s, Run.Reachable.exec _ .init run, crashed, fun consistent => ?_⟩
  rw [consistent.safe] at crashed
  contradiction

end Aic8800.Sched
