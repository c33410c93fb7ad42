import Aic8800.Sched.Queues
import Mathlib

/-! # The accounting of power save

While a station sleeps, the driver counts the buffers that wait for it and those
that are left of its service period, for legacy and U-APSD power save apart. The
counts are those of the station's queues, as long as nothing is pushed outside a
service period and no queue is emptied or set up behind the back of the counts.
-/

namespace Aic8800.Sched

open Lib

/-- The counts of a station are those of its queues, and fit the `u16` counters. -/
structure Accounted (s : Hw) (st : StaId) : Prop where
  ready : ∀ p, (s.ps st).pktReady p = s.tally st p (·.skList.length)
  service : ∀ p, (s.ps st).spCnt p = s.tally st p (·.pushLimit)
  readyFits : ∀ p, (s.ps st).pktReady p < 65536
  serviceFits : ∀ p, (s.ps st).spCnt p < 65536

def PsAccounted (s : Hw) : Prop := ∀ st, (s.ps st).active = true → Accounted s st

/-- Whether the station of the queue is in power save. -/
def Hw.asleep (s : Hw) (q : TxqId) : Bool :=
  match q.station with
  | some st => (s.ps st).active
  | none => false

/-- Whether the station's counter has room for one more buffer of the queue. -/
def Hw.hasRoom (s : Hw) (q : TxqId) : Prop :=
  ∀ st ∈ q.station, (s.ps st).pktReady (s.txqs q).psId + 1 < 65536

/-- The condition for the queue that the loop of `rwnx_hwq_process` takes next: its
    station is awake or in a service period. -/
def Hw.visitable (s : Hw) (q : TxqId) : Prop :=
  s.asleep q = true → (s.txqs q).inHwqList = true →
    if (s.txqs q).active = true then
      0 < (s.txqs q).credits.toInt ∧ (s.txqs q).skList ≠ [] → (s.txqs q).pushLimit ≠ 0
    else (s.txqs q).skList = []

/-- What queues can take of a service period -/
def Hw.taken (s : Hw) (p : PsId) (qs : List TxqId) : Nat :=
  (qs.map fun q => if (s.txqs q).psId = p then (s.txqs q).available else 0).sum

/-- In the comparison of a `u16` with its credits a queue whose credits are negative has room for
    all that is left of the request, which its push limit has to hold then. -/
def Hw.limited (s : Hw) (p : PsId) (qs : List TxqId) (pktReq : Nat) : Prop :=
  ∀ q ∈ qs, (s.txqs q).psId = p → 0 ≤ (s.txqs q).credits.toInt ∨
    (s.txqs q).hwq ≠ none ∧ pktReq - s.taken p (qs.takeWhile (· ≠ q)) < 256

/-- A service period is spread over the queues of a peer, or is for the multicast queue. -/
def Hw.spreads (s : Hw) (p : PsId) (pktReq : Nat) : StaId → Prop
  | .remote staIdx => s.limited p (nxTidPrio.map (.sta staIdx)) pktReq
  | .multicast vifIdx => 0 ≤ (s.txqs (.bcmc vifIdx)).credits.toInt

/-- The steps that keep the counts. -/
def Accountable (s : Hw) : Op → Prop
  | .init q _ _ => s.asleep q = false
  | .flush q => s.asleep q = true → (s.txqs q).skList = []
  | .queueSkb q _ _ => s.asleep q = true → s.hasRoom q
  | .txdatacfm q _ cfm _ => (s.txqs q).retries cfm = true → s.asleep q = true → s.hasRoom q
  | .psEnable st =>
      (∀ q ∈ st.txqs, (s.txqs q).pushLimit = 0) ∧ ∀ p, s.tally st p (·.skList.length) < 65536
  | .psState st active => active = true →
      (∀ q ∈ st.txqs, (s.txqs q).skList = [] ∧ (s.txqs q).pushLimit = 0) ∧
        ∀ p, (s.ps st).pktReady p = 0 ∧ (s.ps st).spCnt p = 0
  | .trafficReq st pktReq p =>
      (s.ps st).active = true →
        if Hw.interrupts pktReq p = true then (s.ps st).spCnt .legacy = 0
        else s.startsSp st p = true → s.spreads p (s.adaptReq st pktReq p) st
  | .visit =>
      match s.scan with
      | some (_, q :: _) => s.visitable q
      | _ => True
  | _ => True

/-! ## Sums over the queues of a station -/

section

variable {s t : Hw} {st : StaId} {q : TxqId} {p : PsId} {f : Txq → Nat}

/-- What a queue adds to the tally. -/
def share (p : PsId) (f : Txq → Nat) (t : Txq) : Nat := if t.psId = p then f t else 0

theorem tally_eq (s : Hw) (st : StaId) (p : PsId) (f : Txq → Nat) :
    s.tally st p f = (st.txqs.map fun q => share p f (s.txqs q)).sum := rfl

theorem tally_congr (same : ∀ q ∈ st.txqs, share p f (t.txqs q) = share p f (s.txqs q)) :
    t.tally st p f = s.tally st p f := by
  rw [tally_eq, tally_eq, List.map_congr_left same]

/-- One queue changes, and the tally by its share. -/
theorem tally_change (mem : q ∈ st.txqs)
    (others : ∀ q' ∈ st.txqs, q' ≠ q → share p f (t.txqs q') = share p f (s.txqs q')) :
    t.tally st p f + share p f (s.txqs q) = s.tally st p f + share p f (t.txqs q) := by
  have rest : ((st.txqs.erase q).map fun q => share p f (t.txqs q)) =
      (st.txqs.erase q).map fun q => share p f (s.txqs q) := by
    apply List.map_congr_left
    intro q' member
    have parts := (st.nodup_txqs.mem_erase_iff).mp member
    exact others q' parts.2 parts.1
  have before := List.sum_map_erase (fun q => share p f (s.txqs q)) mem
  have after := List.sum_map_erase (fun q => share p f (t.txqs q)) mem
  rw [rest] at after
  rw [tally_eq, tally_eq, ← before, ← after]
  omega

theorem share_le_tally (mem : q ∈ st.txqs) : share p f (s.txqs q) ≤ s.tally st p f := by
  have split := List.sum_map_erase (fun q => share p f (s.txqs q)) mem
  rw [tally_eq, ← split]
  exact Nat.le_add_right _ _

end

/-! ## The invariant -/

/-- An initialised queue belongs to its station, and one that is not has nothing. -/
structure Layout (s : Hw) : Prop where
  placed : ∀ q, (s.txqs q).hwq ≠ none → (s.txqs q).sta = q.station
  blank : ∀ q, (s.txqs q).hwq = none → (s.txqs q).active = false ∧ (s.txqs q).skList = [] ∧
    (s.txqs q).pushLimit = 0 ∧ (s.txqs q).sta = none
  multicast : ∀ vifIdx, (s.txqs (.bcmc vifIdx)).psId = .legacy

/-- The counts are right, and the queues belong where they should. -/
structure Books (s : Hw) : Prop extends Layout s where
  accounted : PsAccounted s

section

variable {s t : Hw} {st : StaId} {q : TxqId}

theorem share_length_congr {t u : Txq} (same : t.account = u.account) (p : PsId) :
    share p (·.skList.length) t = share p (·.skList.length) u := by
  simp only [share, Txq.psId_eq_of_account same, Txq.skList_eq_of_account same]

/-- A station that has nothing to count is accounted. -/
theorem Accounted.blank (empty : ∀ q ∈ st.txqs, (s.txqs q).skList = [] ∧ (s.txqs q).pushLimit = 0)
    (zero : ∀ p, (s.ps st).pktReady p = 0 ∧ (s.ps st).spCnt p = 0) : Accounted s st := by
  have none (p : PsId) (f : Txq → Nat) (blank : ∀ q ∈ st.txqs, f (s.txqs q) = 0) :
      s.tally st p f = 0 := by
    rw [tally_eq, List.sum_eq_zero_iff_forall_eq_nat]
    intro n member
    obtain ⟨q, its, rfl⟩ := List.mem_map.mp member
    rw [share, blank q its]
    exact ite_self 0
  constructor
  · intro p
    rw [(zero p).1, none p _ fun q its => by rw [(empty q its).1]; rfl]
  · intro p
    rw [(zero p).2, none p _ fun q its => (empty q its).2]
  · intro p
    rw [(zero p).1]
    exact Nat.succ_pos _
  · intro p
    rw [(zero p).2]
    exact Nat.succ_pos _

theorem share_limit_congr {t u : Txq} (same : t.account = u.account) (p : PsId) :
    share p (·.pushLimit) t = share p (·.pushLimit) u := by
  simp only [share, Txq.psId_eq_of_account same, Txq.pushLimit_eq_of_account same]

/-- A station whose counters and queues stay is accounted as before. -/
theorem Accounted.congr (acc : Accounted s st) (ps : t.ps st = s.ps st)
    (txqs : ∀ q ∈ st.txqs, (t.txqs q).account = (s.txqs q).account) : Accounted t st := by
  have lengths (p : PsId) : t.tally st p (·.skList.length) = s.tally st p (·.skList.length) :=
    tally_congr fun q member => share_length_congr (txqs q member) p
  have limits (p : PsId) : t.tally st p (·.pushLimit) = s.tally st p (·.pushLimit) :=
    tally_congr fun q member => share_limit_congr (txqs q member) p
  constructor
  · intro p
    rw [ps, lengths, acc.ready]
  · intro p
    rw [ps, limits, acc.service]
  · rw [ps]
    exact acc.readyFits
  · rw [ps]
    exact acc.serviceFits

/-- One queue of the station changes, and the two counters with it. -/
theorem Accounted.change (acc : Accounted s st) (mem : q ∈ st.txqs)
    (others : ∀ q' ∈ st.txqs, q' ≠ q → (t.txqs q').account = (s.txqs q').account)
    (psId : (t.txqs q).psId = (s.txqs q).psId)
    (elsewhere : ∀ p, p ≠ (s.txqs q).psId → (t.ps st).pktReady p = (s.ps st).pktReady p ∧
      (t.ps st).spCnt p = (s.ps st).spCnt p)
    (ready : (t.ps st).pktReady (s.txqs q).psId + (s.txqs q).skList.length =
      (s.ps st).pktReady (s.txqs q).psId + (t.txqs q).skList.length)
    (service : (t.ps st).spCnt (s.txqs q).psId + (s.txqs q).pushLimit =
      (s.ps st).spCnt (s.txqs q).psId + (t.txqs q).pushLimit)
    (readyFits : (t.ps st).pktReady (s.txqs q).psId < 65536)
    (serviceFits : (t.ps st).spCnt (s.txqs q).psId < 65536) : Accounted t st := by
  have lengths (p : PsId) := tally_change (s := s) (t := t) mem
    fun q' member other => share_length_congr (others q' member other) p
  have limits (p : PsId) := tally_change (s := s) (t := t) mem
    fun q' member other => share_limit_congr (others q' member other) p
  constructor
  · intro p
    have sums := lengths p
    have before := acc.ready p
    by_cases its : (s.txqs q).psId = p
    · subst its
      simp only [share, psId, if_true] at sums
      omega
    · simp only [share, psId, its, if_false, Nat.add_zero] at sums
      rw [(elsewhere p (Ne.symm its)).1, before, sums]
  · intro p
    have sums := limits p
    have before := acc.service p
    by_cases its : (s.txqs q).psId = p
    · subst its
      simp only [share, psId, if_true] at sums
      omega
    · simp only [share, psId, its, if_false, Nat.add_zero] at sums
      rw [(elsewhere p (Ne.symm its)).2, before, sums]
  · intro p
    by_cases its : p = (s.txqs q).psId
    · rw [its]
      exact readyFits
    · rw [(elsewhere p its).1]
      exact acc.readyFits p
  · intro p
    by_cases its : p = (s.txqs q).psId
    · rw [its]
      exact serviceFits
    · rw [(elsewhere p its).2]
      exact acc.serviceFits p

/-- A change of one queue concerns its own station only. -/
theorem PsAccounted.change (acc : PsAccounted s)
    (ps : ∀ st, q.station ≠ some st → t.ps st = s.ps st)
    (txqs : ∀ q', q' ≠ q → (t.txqs q').account = (s.txqs q').account)
    (its : ∀ st, q.station = some st → (t.ps st).active = true → Accounted t st) :
    PsAccounted t := by
  intro st active
  by_cases home : q.station = some st
  · exact its st home active
  · rw [ps st home] at active
    apply (acc st active).congr (ps st home)
    intro q' member
    apply txqs
    rintro rfl
    exact home (StaId.mem_txqs.mp member)

theorem Layout.congr (layout : Layout s)
    (same : ∀ q, (t.txqs q).account = (s.txqs q).account) : Layout t where
  placed q := by
    rw [Txq.hwq_eq_of_account (same q), Txq.sta_eq_of_account (same q)]
    exact layout.placed q
  blank q := by
    rw [Txq.hwq_eq_of_account (same q), Txq.sta_eq_of_account (same q),
      Txq.active_eq_of_account (same q), Txq.skList_eq_of_account (same q),
      Txq.pushLimit_eq_of_account (same q)]
    exact layout.blank q
  multicast vifIdx := by
    rw [Txq.psId_eq_of_account (same _)]
    exact layout.multicast vifIdx

theorem SameBooks.books (same : SameBooks s t) (books : Books s) : Books t where
  toLayout := books.toLayout.congr same.txqs
  accounted st active := by
    rw [same.ps] at active
    exact (books.accounted st active).congr (by rw [same.ps]) fun q _ => same.txqs q

theorem Books.relist (books : Books s) (ps : t.ps = s.ps) (txqs : t.txqs = s.txqs) : Books t :=
  SameBooks.books ⟨ps, fun q => by rw [txqs]⟩ books

/-- One queue changes, but not where it belongs. -/
theorem Layout.onTxq (layout : Layout s) (f : Txq → Txq)
    (hwq : (f (s.txqs q)).hwq = none ↔ (s.txqs q).hwq = none)
    (sta : (f (s.txqs q)).sta = (s.txqs q).sta) (psId : (f (s.txqs q)).psId = (s.txqs q).psId)
    (blank : (s.txqs q).hwq = none → (f (s.txqs q)).active = false ∧
      (f (s.txqs q)).skList = [] ∧ (f (s.txqs q)).pushLimit = 0) : Layout (s.onTxq q f) := by
  constructor
  · intro q'
    by_cases same : q' = q
    · subst same
      rw [Hw.onTxq_self, ne_eq, hwq, sta]
      exact layout.placed q'
    · rw [Hw.onTxq_of_ne s f same]
      exact layout.placed q'
  · intro q' bare
    by_cases same : q' = q
    · subst same
      rw [Hw.onTxq_self] at bare ⊢
      rw [hwq] at bare
      have parts := blank bare
      exact ⟨parts.1, parts.2.1, parts.2.2, sta.trans (layout.blank q' bare).2.2.2⟩
    · rw [Hw.onTxq_of_ne s f same] at bare ⊢
      exact layout.blank q' bare
  · intro vifIdx
    by_cases same : .bcmc vifIdx = q
    · subst same
      rw [Hw.onTxq_self, psId]
      exact layout.multicast vifIdx
    · rw [Hw.onTxq_of_ne s f same]
      exact layout.multicast vifIdx

end

/-! ## The operations -/

namespace Hw

variable {s : Hw} {q : TxqId} {st : StaId}

theorem asleep_eq (home : q.station = some st) : s.asleep q = (s.ps st).active := by
  simp [asleep, home]

/-- The counters of the queue's station change, and only while it sleeps. -/
theorem accountPs_ps (its : (s.txqs q).sta = q.station) (f : StaPs → StaPs) (st : StaId) :
    (s.accountPs q f).ps st =
      if q.station = some st ∧ (s.ps st).active = true then f (s.ps st) else s.ps st := by
  unfold accountPs
  rw [its]
  cases home : q.station with
  | none => simp
  | some st' =>
      by_cases same : st = st'
      · subst same
        cases active : (s.ps st).active <;> simp [active]
      · cases active : (s.ps st').active <;> simp [active, same, Ne.symm same]

@[simp] theorem accountPs_txqs (s : Hw) (q : TxqId) (f : StaPs → StaPs) :
    (s.accountPs q f).txqs = s.txqs := by
  unfold accountPs
  split
  · split <;> rfl
  · rfl

theorem txPushes_of_ne (s : Hw) {q q' : TxqId} (other : q' ≠ q) (n : Nat) :
    (s.txPushes q n).txqs q' = s.txqs q' := by
  induction n generalizing s with
  | zero => rfl
  | succ n ih =>
      rw [txPushes, ih, txPush, onTxq_of_ne _ _ other, accountPs_txqs]

theorem txPushes_account (s : Hw) (q : TxqId) (n : Nat) :
    ((s.txPushes q n).txqs q).account =
      { (s.txqs q).account with pushLimit := (s.txqs q).pushLimit - n } := by
  induction n generalizing s with
  | zero => rfl
  | succ n ih =>
      rw [txPushes, ih, txPush, onTxq_self, accountPs_txqs]
      simp [Txq.account, Txq.countPush, Nat.sub_sub, Nat.add_comm]

theorem txPushes_ps (its : (s.txqs q).sta = q.station) (n : Nat) (st : StaId) :
    (s.txPushes q n).ps st =
      if q.station = some st ∧ (s.ps st).active = true then
        (fun ps => ps.pushed (s.txqs q).psId)^[n] (s.ps st)
      else s.ps st := by
  induction n generalizing s with
  | zero => simp [txPushes]
  | succ n ih =>
      have after : (s.txPush q).txqs q = (s.txqs q).countPush := by
        rw [txPush, onTxq_self, accountPs_txqs]
      have counted : (s.txPush q).ps st =
          if q.station = some st ∧ (s.ps st).active = true then
            (s.ps st).pushed (s.txqs q).psId
          else s.ps st := by
        rw [txPush, onTxq_ps, accountPs_ps its]
      rw [txPushes, ih (by rw [after]; exact its), after, counted]
      split
      · rename_i sleeps
        rw [if_pos ⟨sleeps.1, sleeps.2⟩, Function.iterate_succ_apply]
        rfl
      · rfl

end Hw

/-- Pushes that the counters allow take what they push. -/
theorem StaPs.iterate_pushed (ps : StaPs) (p : PsId) (n : Nat) (ready : n ≤ ps.pktReady p)
    (service : n ≤ ps.spCnt p) (readyFits : ps.pktReady p < 65536)
    (serviceFits : ps.spCnt p < 65536) :
    ((fun ps => ps.pushed p)^[n] ps).pktReady =
        Function.update ps.pktReady p (ps.pktReady p - n) ∧
      ((fun ps => ps.pushed p)^[n] ps).spCnt = Function.update ps.spCnt p (ps.spCnt p - n) := by
  induction n generalizing ps with
  | zero => simp
  | succ n ih =>
      have counts := ih (ps.pushed p)
      rw [pushed_pktReady, pushed_spCnt, Function.update_self, Function.update_self] at counts
      obtain ⟨ready', service'⟩ := counts (by omega) (by omega) (by omega) (by omega)
      have less (x : Nat) (some : n + 1 ≤ x) (fits : x < 65536) :
          (x + 65535) % 65536 - n = x - (n + 1) := by omega
      rw [Function.iterate_succ_apply, ready', service']
      simp only [pushed, Function.update_idem, less _ ready readyFits, less _ service serviceFits,
        and_self]

theorem StaPs.iterate_pushed_active (ps : StaPs) (p : PsId) (n : Nat) :
    ((fun ps => ps.pushed p)^[n] ps).active = ps.active := by
  induction n generalizing ps with
  | zero => rfl
  | succ n ih => exact ih (ps.pushed p)

/-- What a round of pushes makes of the queue. -/
def Txq.drained (t : Txq) (n : Nat) : Txq :=
  { t with skList := t.skList.drop n, pushLimit := t.pushLimit - n }

namespace Books

variable {s : Hw} {q : TxqId} {st : StaId}

theorem filled (books : Books s) (some : (s.txqs q).skList ≠ []) : (s.txqs q).hwq ≠ none := by
  intro bare
  exact some (books.blank q bare).2.1

/-- One queue changes in nothing that is counted. -/
theorem retouch (books : Books s) (f : Txq → Txq)
    (hwq : (f (s.txqs q)).hwq = none ↔ (s.txqs q).hwq = none)
    (sta : (f (s.txqs q)).sta = (s.txqs q).sta) (psId : (f (s.txqs q)).psId = (s.txqs q).psId)
    (skList : (f (s.txqs q)).skList = (s.txqs q).skList)
    (pushLimit : (f (s.txqs q)).pushLimit = (s.txqs q).pushLimit)
    (idle : (s.txqs q).hwq = none → (f (s.txqs q)).active = false) : Books (s.onTxq q f) where
  toLayout := by
    apply books.toLayout.onTxq f hwq sta psId
    intro bare
    have parts := books.blank q bare
    exact ⟨idle bare, skList.trans parts.2.1, pushLimit.trans parts.2.2.1⟩
  accounted := by
    apply books.accounted.change (q := q)
    · exact fun _ _ => rfl
    · exact fun q' other => by rw [Hw.onTxq_of_ne s f other]
    · intro st home active
      have acc := books.accounted st active
      apply acc.change (StaId.mem_txqs.mpr home)
      · exact fun q' _ other => by rw [Hw.onTxq_of_ne s f other]
      · rw [Hw.onTxq_self, psId]
      · exact fun _ _ => ⟨rfl, rfl⟩
      · rw [Hw.onTxq_self, skList, Hw.onTxq_ps]
      · rw [Hw.onTxq_self, pushLimit, Hw.onTxq_ps]
      · exact acc.readyFits _
      · exact acc.serviceFits _

/-- The queue is initialised while its station is awake. -/
theorem init (books : Books s) (awake : s.asleep q = false) (status : StopReason) (uapsd : Bool) :
    Books (s.onTxq q fun _ => .init q status uapsd) where
  placed := by
    intro q'
    by_cases same : q' = q
    · subst same
      simp [Txq.init]
    · rw [Hw.onTxq_of_ne s _ same]
      exact books.placed q'
  blank := by
    intro q'
    by_cases same : q' = q
    · subst same
      simp [Txq.init]
    · rw [Hw.onTxq_of_ne s _ same]
      exact books.blank q'
  multicast := by
    intro vifIdx
    by_cases same : .bcmc vifIdx = q
    · subst same
      simp [Txq.init]
    · rw [Hw.onTxq_of_ne s _ same]
      exact books.multicast vifIdx
  accounted := by
    apply books.accounted.change (q := q)
    · exact fun _ _ => rfl
    · exact fun q' other => by rw [Hw.onTxq_of_ne s _ other]
    · intro st home active
      rw [Hw.asleep_eq home] at awake
      simp [awake] at active

theorem flush (books : Books s) (empty : s.asleep q = true → (s.txqs q).skList = []) :
    Books (s.flush q) where
  toLayout := by
    apply books.toLayout.onTxq (fun t => { t with skList := [] }) Iff.rfl rfl rfl
    exact fun bare => ⟨(books.blank q bare).1, rfl, (books.blank q bare).2.2.1⟩
  accounted := by
    apply books.accounted.change (q := q)
    · exact fun _ _ => rfl
    · exact fun q' other => by rw [Hw.flush, Hw.onTxq_of_ne s _ other]
    · intro st home active
      have nothing := empty ((Hw.asleep_eq home).trans active)
      apply Accounted.congr (t := s.flush q) (books.accounted st active) rfl
      intro q' _
      by_cases same : q' = q
      · subst same
        rw [Hw.flush, Hw.onTxq_self, ← nothing]
      · rw [Hw.flush, Hw.onTxq_of_ne s _ same]

/-- A buffer is queued, and counted while the station sleeps. -/
theorem queueSkb (books : Books s) (placed : (s.txqs q).hwq ≠ none)
    (room : s.asleep q = true → s.hasRoom q) (skb : Nat) (retry tbusy : Bool) :
    Books (s.queueSkb q skb retry tbusy) := by
  have put : Books ((s.accountPs q (·.queued (s.txqs q).psId)).onTxq q
      (·.queued q skb retry tbusy)) := {
    toLayout := by
      have counted : Layout (s.accountPs q (·.queued (s.txqs q).psId)) := by
        constructor
        · simpa using books.placed
        · simpa using books.blank
        · simpa using books.multicast
      apply counted.onTxq (·.queued q skb retry tbusy) Iff.rfl rfl rfl
      exact fun bare => absurd (by simpa using bare) placed
    accounted := by
      apply books.accounted.change (q := q)
      · intro st away
        rw [Hw.onTxq_ps, Hw.accountPs_ps (books.placed q placed), if_neg (fun h => away h.1)]
      · intro q' other
        rw [Hw.onTxq_of_ne _ _ other, Hw.accountPs_txqs]
      · intro st home active
        rw [Hw.onTxq_ps, Hw.accountPs_ps (books.placed q placed)] at active
        have sleeps : (s.ps st).active = true := by
          split at active
          · exact active
          · exact active
        have fits := room ((Hw.asleep_eq home).trans sleeps) st home
        have acc := books.accounted st sleeps
        have here : (s.accountPs q (·.queued (s.txqs q).psId)).ps st =
            (s.ps st).queued (s.txqs q).psId := by
          rw [Hw.accountPs_ps (books.placed q placed), if_pos ⟨home, sleeps⟩]
        apply acc.change (StaId.mem_txqs.mpr home)
        · intro q' _ other
          rw [Hw.onTxq_of_ne _ _ other, Hw.accountPs_txqs]
        · rw [Hw.onTxq_self, Hw.accountPs_txqs]
          rfl
        · intro p other
          simp only [Hw.onTxq_ps, here, StaPs.queued_pktReady, StaPs.queued_spCnt,
            Function.update_of_ne other, and_self]
        · simp only [Hw.onTxq_ps, here, StaPs.queued_pktReady, Function.update_self, Hw.onTxq_self,
            Hw.accountPs_txqs, Txq.length_queued]
          omega
        · simp only [Hw.onTxq_ps, here, StaPs.queued_spCnt, Hw.onTxq_self, Hw.accountPs_txqs]
          rfl
        · simp only [Hw.onTxq_ps, here, StaPs.queued_pktReady, Function.update_self]
          omega
        · simp only [Hw.onTxq_ps, here, StaPs.queued_spCnt]
          exact acc.serviceFits _ }
  unfold Hw.queueSkb
  dsimp only
  split
  · exact put
  · exact (SameBooks.addToHwList _ q).books put

/-- A round of pushes takes buffers off the queue, and while the station sleeps no
    more than the service period has left. -/
theorem pushRound (books : Books s) (placed : (s.txqs q).hwq ≠ none) {n : Nat}
    (enough : n ≤ (s.txqs q).skList.length)
    (period : s.asleep q = true → n ≤ (s.txqs q).pushLimit) :
    Books ((s.onTxq q (·.extract n)).txPushes q n) := by
  have others (q' : TxqId) (other : q' ≠ q) :
      ((s.onTxq q (·.extract n)).txPushes q n).txqs q' = s.txqs q' := by
    rw [Hw.txPushes_of_ne _ other, Hw.onTxq_of_ne _ _ other]
  have after : (((s.onTxq q (·.extract n)).txPushes q n).txqs q).account =
      ((s.txqs q).drained n).account := by
    rw [Hw.txPushes_account, Hw.onTxq_self]
    rfl
  have its : ((s.onTxq q (·.extract n)).txqs q).sta = q.station := by
    rw [Hw.onTxq_self]
    exact books.placed q placed
  have counters (st : StaId) : ((s.onTxq q (·.extract n)).txPushes q n).ps st =
      if q.station = some st ∧ (s.ps st).active = true then
        (fun ps => ps.pushed (s.txqs q).psId)^[n] (s.ps st)
      else s.ps st := by
    rw [Hw.txPushes_ps its, Hw.onTxq_self]
    rfl
  constructor
  · have drained : Layout (s.onTxq q (·.drained n)) := by
      apply books.toLayout.onTxq (·.drained n) Iff.rfl rfl rfl
      exact fun bare => absurd bare placed
    apply drained.congr
    intro q'
    by_cases same : q' = q
    · subst same
      rw [after, Hw.onTxq_self]
    · rw [others q' same, Hw.onTxq_of_ne _ _ same]
  · apply books.accounted.change (q := q)
    · intro st away
      rw [counters, if_neg fun h => away h.1]
    · exact fun q' other => by rw [others q' other]
    · intro st home active
      have sleeps : (s.ps st).active = true := by
        rw [counters] at active
        split at active
        · rwa [StaPs.iterate_pushed_active] at active
        · exact active
      have acc := books.accounted st sleeps
      have mem := StaId.mem_txqs.mpr home
      have limited := period ((Hw.asleep_eq home).trans sleeps)
      have lengths := share_le_tally (s := s) (p := (s.txqs q).psId) (f := (·.skList.length)) mem
      have limits := share_le_tally (s := s) (p := (s.txqs q).psId) (f := (·.pushLimit)) mem
      simp only [share, if_true, ← acc.ready, ← acc.service] at lengths limits
      obtain ⟨ready, service⟩ := StaPs.iterate_pushed (s.ps st) (s.txqs q).psId n (by omega)
        (by omega) (acc.readyFits _) (acc.serviceFits _)
      have here := counters st
      rw [if_pos ⟨home, sleeps⟩] at here
      rw [← here] at ready service
      apply acc.change mem
      · exact fun q' _ other => by rw [others q' other]
      · have psId := Txq.psId_eq_of_account after
        exact psId
      · intro p other
        rw [ready, service, Function.update_of_ne other, Function.update_of_ne other]
        exact ⟨rfl, rfl⟩
      · rw [ready, Function.update_self, Txq.skList_eq_of_account after]
        simp only [Txq.drained, List.length_drop]
        omega
      · rw [service, Function.update_self, Txq.pushLimit_eq_of_account after]
        simp only [Txq.drained]
        omega
      · rw [ready, Function.update_self]
        have fits := acc.readyFits (s.txqs q).psId
        omega
      · rw [service, Function.update_self]
        have fits := acc.serviceFits (s.txqs q).psId
        omega

/-- A legacy service period gives up what is left of it. -/
theorem abortLegacy (books : Books s) : Books (s.abortLegacy q) := by
  unfold Hw.abortLegacy
  split
  · rename_i st sta
    split
    · rename_i left
      have placed : (s.txqs q).hwq ≠ none := by
        intro bare
        rw [(books.blank q bare).2.2.2] at sta
        contradiction
      have home : q.station = some st := (books.placed q placed).symm.trans sta
      constructor
      · have counted : Layout (s.onPs st (·.abort .legacy (s.txqs q).pushLimit)) :=
          books.toLayout.congr fun _ => rfl
        apply counted.onTxq (·.setPushLimit 0) Iff.rfl rfl rfl
        exact fun bare => absurd bare placed
      · apply books.accounted.change (q := q)
        · intro st' away
          rw [Hw.onTxq_ps, Hw.onPs_of_ne]
          rintro rfl
          exact away home
        · exact fun q' other => by rw [Hw.onTxq_of_ne _ _ other, Hw.onPs_txqs]
        · intro st' home' active
          obtain rfl := Option.some.inj (home.symm.trans home')
          rw [Hw.onTxq_ps, Hw.onPs_self] at active
          have acc := books.accounted st active
          have mem := StaId.mem_txqs.mpr home
          have limits := share_le_tally (s := s) (p := .legacy) (f := (·.pushLimit)) mem
          have fits := acc.serviceFits .legacy
          simp only [share, left.2, if_true, ← acc.service] at limits
          apply acc.change mem
          · exact fun q' _ other => by rw [Hw.onTxq_of_ne _ _ other, Hw.onPs_txqs]
          · rw [Hw.onTxq_self]
            rfl
          · intro p other
            rw [left.2] at other
            rw [Hw.onTxq_ps, Hw.onPs_self, StaPs.abort_spCnt, Function.update_of_ne other]
            exact ⟨rfl, rfl⟩
          · rw [Hw.onTxq_ps, Hw.onPs_self, Hw.onTxq_self]
            rfl
          · rw [Hw.onTxq_ps, Hw.onPs_self, Hw.onTxq_self, left.2, StaPs.abort_spCnt,
              Function.update_self]
            simp only [Txq.setPushLimit]
            omega
          · rw [Hw.onTxq_ps, Hw.onPs_self]
            exact acc.readyFits _
          · rw [Hw.onTxq_ps, Hw.onPs_self, left.2, StaPs.abort_spCnt, Function.update_self]
            omega
    · exact books
  · exact books

end Books

theorem SameBooks.requeue (s : Hw) (h : HwqId) (q : TxqId) (rest : List TxqId) (txqEmpty : Bool) :
    SameBooks s (s.requeue h q rest txqEmpty) := by
  have rewound (t : Hw) : SameBooks t (t.onTxq q fun t => { t with pktSent := 0 }) :=
    SameBooks.onTxq t q _ fun _ => rfl
  unfold Hw.requeue
  split
  · have out := (SameBooks.delFromHwList s q).trans (rewound _)
    exact ⟨out.ps, out.txqs⟩
  · split
    · exact ⟨rfl, (rewound s).txqs⟩
    · exact ⟨rfl, fun _ => rfl⟩

namespace Books

variable {s : Hw} {q : TxqId} {st : StaId}

theorem visit (books : Books s) (h : HwqId) (rest : List TxqId) (ok : s.visitable q) :
    Books (s.visit h q rest) := by
  unfold Hw.visit
  dsimp only
  split
  · exact books.relist rfl rfl
  · rename_i listed
    have linked : (s.txqs q).inHwqList = true := by simpa using listed
    split
    · rename_i gone
      have del := SameBooks.delFromHwList s q
      have flushed : Books ((s.delFromHwList q).flush q) := by
        apply (del.books books).flush
        intro sleeps
        have still : s.asleep q = true := by
          simpa [Hw.asleep, del.ps] using sleeps
        have empty := ok still linked
        rw [if_neg (by simp [gone])] at empty
        rw [Txq.skList_eq_of_account (del.txqs q)]
        exact empty
      exact flushed.relist rfl rfl
    · rename_i active
      split
      · exact books.relist rfl rfl
      · rename_i goes
        have pushes : 0 < (s.txqs q).credits.toInt ∧ (s.txqs q).skList ≠ [] :=
          ⟨not_le.mp fun low => goes (.inl low), fun empty => goes (.inr empty)⟩
        have counts := Txq.length_getSkbToPush (s.txqs q) pushes.1
        have pushed : Books ((s.onTxq q (·.extract (s.txqs q).getSkbToPush.1)).txPushes q
            (s.txqs q).getSkbToPush.1) := by
          apply books.pushRound (books.filled pushes.2) counts.1
          intro sleeps
          have limit := ok sleeps linked
          rw [if_pos (by simpa using active)] at limit
          exact Txq.getSkbToPush_le (limit pushes)
        have queued := (SameBooks.requeue _ h q rest (s.txqs q).getSkbToPush.2).books pushed
        exact (SameBooks.onTxq _ q Txq.flowCtrlRestart fun _ => rfl).books queued.abortLegacy

theorem deinit (books : Books s) : Books (s.deinit q) := by
  unfold Hw.deinit
  split
  · apply ((SameBooks.delFromHwList s q).books books).retouch (fun t => { t with active := false })
      Iff.rfl rfl rfl rfl rfl
    exact fun _ => rfl
  · exact books

theorem txRetry (books : Books s) (placed : (s.txqs q).hwq ≠ none)
    (room : s.asleep q = true → s.hasRoom q) (skb : Nat) (tbusy : Bool) :
    Books (s.txRetry q skb tbusy) := by
  have earned := SameBooks.onTxq s q Txq.addCredit fun _ => rfl
  have ready {t : Hw} (same : SameBooks s t) : Books (t.queueSkb q skb true tbusy) := by
    apply (same.books books).queueSkb
    · rw [Txq.hwq_eq_of_account (same.txqs q)]
      exact placed
    · intro sleeps st home
      rw [same.ps, Txq.psId_eq_of_account (same.txqs q)]
      exact room (by simpa [Hw.asleep, same.ps] using sleeps) st home
  unfold Hw.txRetry
  dsimp only
  split
  · exact ready (earned.trans (SameBooks.start _ q .full))
  · exact ready earned

theorem txdatacfm (books : Books s) {skb : Nat} {cfm : TxCfm} {tbusy : Bool}
    (ok : Accountable s (.txdatacfm q skb cfm tbusy)) : Books (s.txdatacfm q skb cfm tbusy) := by
  unfold Hw.txdatacfm
  split
  · rename_i retries
    have active : (s.txqs q).active = true := by
      simp only [Txq.retries, Bool.and_eq_true] at retries
      exact retries.2.1.2
    have placed : (s.txqs q).hwq ≠ none := by
      intro bare
      simp [(books.blank q bare).1] at active
    exact books.txRetry placed (ok retries) skb tbusy
  · split
    · exact (SameBooks.addToHwList s q).books books
    · exact books

theorem creditUpdate (books : Books s) : Books (s.creditUpdate q) := by
  unfold Hw.creditUpdate
  split
  · exact books
  · split
    · exact (SameBooks.stop s q .full).books books
    · exact (SameBooks.start s q .full).books books

/-- What concerns a station only while it sleeps is not asked of one that is awake. -/
theorem awaken (books : Books s) (st : StaId) :
    Books (s.onPs st fun ps => { ps with active := false }) where
  toLayout := books.toLayout.congr fun _ => rfl
  accounted := by
    intro st' active
    by_cases same : st' = st
    · subst same
      simp at active
    · rw [Hw.onPs_of_ne _ _ same] at active
      exact Accounted.congr (books.accounted st' active) (Hw.onPs_of_ne _ _ same) fun _ _ => rfl

end Books

/-! ### Service periods -/

section

variable {s : Hw} {q : TxqId} {st : StaId} {p : PsId}

@[simp] theorem clearPushLimits_ps (s : Hw) (st : StaId) : (s.clearPushLimits st).ps = s.ps := by
  unfold Hw.clearPushLimits
  induction st.txqs generalizing s with
  | nil => rfl
  | cons q rest ih => exact ih (s.onTxq q (·.setPushLimit 0))

theorem clearPushLimits_txqs (s : Hw) (st : StaId) (q : TxqId) :
    (s.clearPushLimits st).txqs q =
      if q ∈ st.txqs then (s.txqs q).setPushLimit 0 else s.txqs q := by
  unfold Hw.clearPushLimits
  induction st.txqs generalizing s with
  | nil => rfl
  | cons q' rest ih =>
      rw [List.foldl_cons, ih]
      by_cases same : q = q'
      · subst same
        simp only [Hw.onTxq_self, List.mem_cons_self, if_true]
        split <;> rfl
      · simp [same]

theorem Layout.clearPushLimits (layout : Layout s) (st : StaId) :
    Layout (s.clearPushLimits st) := by
  constructor
  · intro q
    rw [clearPushLimits_txqs]
    split
    · exact layout.placed q
    · exact layout.placed q
  · intro q
    rw [clearPushLimits_txqs]
    split
    · exact fun bare => ⟨(layout.blank q bare).1, (layout.blank q bare).2.1, rfl,
        (layout.blank q bare).2.2.2⟩
    · exact layout.blank q
  · intro vifIdx
    rw [clearPushLimits_txqs]
    split
    · exact layout.multicast vifIdx
    · exact layout.multicast vifIdx

/-- Other stations are not concerned by the push limits of one. -/
theorem Accounted.clearPushLimits (acc : Accounted s st) {other : StaId} (apart : st ≠ other) :
    Accounted (s.clearPushLimits other) st := by
  apply acc.congr (by rw [clearPushLimits_ps])
  intro q member
  have home := StaId.mem_txqs.mp member
  rw [clearPushLimits_txqs, if_neg]
  intro its
  exact apart (Option.some.inj (home.symm.trans (StaId.mem_txqs.mp its)))

theorem grant_of_ne (s : Hw) (st : StaId) (p : PsId) {q q' : TxqId} (other : q' ≠ q) (n : Nat) :
    (s.grant st p q n).txqs q' = s.txqs q' := by
  rw [Hw.grant, Hw.addToHwList_of_ne _ other, Hw.onPs_txqs, Hw.onTxq_of_ne _ _ other]

theorem grant_ps (s : Hw) (st : StaId) (p : PsId) (q : TxqId) (n : Nat) :
    (s.grant st p q n).ps = Function.update s.ps st ((s.ps st).grant p n) := by
  rw [Hw.grant, (SameBooks.addToHwList _ q).ps]
  rfl

namespace Books

/-- A queue that has no part of a service period is given one. -/
theorem grant (books : Books s) (home : q.station = some st)
    (placed : (s.txqs q).hwq ≠ none) (its : (s.txqs q).psId = p)
    (unused : (s.txqs q).pushLimit = 0) {n : Nat} (small : n < 256)
    (room : (s.ps st).spCnt p + n < 65536) : Books (s.grant st p q n) := by
  have given : Books ((s.onTxq q (·.setPushLimit n)).onPs st (·.grant p n)) := by
    constructor
    · have limited : Layout (s.onTxq q (·.setPushLimit n)) := by
        apply books.toLayout.onTxq (·.setPushLimit n) Iff.rfl rfl rfl
        exact fun bare => absurd bare placed
      exact limited.congr fun _ => rfl
    · apply books.accounted.change (q := q)
      · intro st' away
        rw [Hw.onPs_of_ne, Hw.onTxq_ps]
        rintro rfl
        exact away home
      · exact fun q' other => by rw [Hw.onPs_txqs, Hw.onTxq_of_ne _ _ other]
      · intro st' home' active
        obtain rfl := Option.some.inj (home.symm.trans home')
        rw [Hw.onPs_self, Hw.onTxq_ps] at active
        have acc := books.accounted st active
        apply acc.change (StaId.mem_txqs.mpr home)
        · exact fun q' _ other => by rw [Hw.onPs_txqs, Hw.onTxq_of_ne _ _ other]
        · rw [Hw.onPs_txqs, Hw.onTxq_self]
          rfl
        · intro p' other
          rw [its] at other
          rw [Hw.onPs_self, StaPs.grant_spCnt, Function.update_of_ne other]
          exact ⟨rfl, rfl⟩
        · rw [Hw.onPs_self, Hw.onPs_txqs, Hw.onTxq_self]
          rfl
        · rw [Hw.onPs_self, Hw.onPs_txqs, Hw.onTxq_self, its, StaPs.grant_spCnt,
            Function.update_self, Hw.onTxq_ps, unused]
          simp only [Txq.setPushLimit]
          omega
        · rw [Hw.onPs_self]
          exact acc.readyFits _
        · rw [Hw.onPs_self, its, StaPs.grant_spCnt, Function.update_self]
          omega
  exact (SameBooks.addToHwList _ q).books given

/-- A queue is given what its push limit holds. -/
theorem given_small (books : Books s) {n : Nat}
    (limited : 0 ≤ (s.txqs q).credits.toInt ∨ (s.txqs q).hwq ≠ none ∧ n < 256)
    (takes : (s.txqs q).available ≠ 0) : (s.txqs q).hwq ≠ none ∧
      ((s.txqs q).available < n → (s.txqs q).available < 256) ∧
      (¬(s.txqs q).available < n → n < 256) := by
  rcases limited with credits | ⟨placed, small⟩
  · have bound := Txq.available_le credits
    exact ⟨books.filled (Txq.skList_of_available credits takes), fun _ => by omega,
      fun _ => by omega⟩
  · exact ⟨placed, fun _ => by omega, fun _ => small⟩

theorem taken_congr {t : Hw} {qs : List TxqId} (same : ∀ q ∈ qs, t.txqs q = s.txqs q) :
    t.taken p qs = s.taken p qs := by
  unfold Hw.taken
  rw [List.map_congr_left fun q member => by rw [same q member]]

/-- What is left for the queues behind the first is limited. -/
theorem limited_tail {t : Hw} {q : TxqId} {rest : List TxqId} {pktReq left : Nat} (absent : q ∉ rest)
    (limited : s.limited p (q :: rest) pktReq) (same : ∀ q' ∈ rest, t.txqs q' = s.txqs q')
    (less : left = pktReq - if (s.txqs q).psId = p then (s.txqs q).available else 0) :
    t.limited p rest left := by
  intro q' member its
  rw [same q' member] at its ⊢
  have before := limited q' (List.mem_cons_of_mem q member) its
  have apart : q ≠ q' := fun eq => absent (eq ▸ member)
  have shift : s.taken p ((q :: rest).takeWhile (· ≠ q')) =
      (if (s.txqs q).psId = p then (s.txqs q).available else 0) +
        s.taken p (rest.takeWhile (· ≠ q')) := by
    rw [List.takeWhile_cons, if_pos (decide_eq_true apart)]
    exact List.sum_cons
  rw [shift, Nat.sub_add_eq, ← less] at before
  rwa [taken_congr fun q'' inside => same q'' ((List.takeWhile_subset _) inside)]

/-- The request is spread over queues that have no part yet. The induction is on the
    queues still to come: what is given out and what is left stay within the `u16`. -/
theorem dispatch (books : Books s) (qs : List TxqId) (nodup : qs.Nodup)
    (home : ∀ q ∈ qs, q.station = some st)
    (unused : ∀ q ∈ qs, (s.txqs q).psId = p → (s.txqs q).pushLimit = 0)
    (pktReq : Nat) (limited : s.limited p qs pktReq)
    (room : (s.ps st).spCnt p + pktReq < 65536) : Books (s.dispatch st p qs pktReq) := by
  induction qs generalizing s pktReq with
  | nil => exact books
  | cons q rest ih =>
      obtain ⟨absent, nodup'⟩ := List.nodup_cons.mp nodup
      have home' : ∀ q' ∈ rest, q'.station = some st := fun q' member =>
        home q' (List.mem_cons_of_mem q member)
      have unused' : ∀ q' ∈ rest, (s.txqs q').psId = p → (s.txqs q').pushLimit = 0 :=
        fun q' member => unused q' (List.mem_cons_of_mem q member)
      unfold Hw.dispatch
      dsimp only
      split
      · rename_i passed
        apply ih books nodup' home' unused' pktReq _ room
        apply limited_tail absent limited fun _ _ => rfl
        split
        · rename_i its
          rw [passed.resolve_left (not_not.mpr its), Nat.sub_zero]
        · rfl
      · rename_i takes
        have its : (s.txqs q).psId = p := by
          by_contra other
          exact takes (.inl other)
        have none := unused q List.mem_cons_self its
        have own := limited q List.mem_cons_self its
        rw [List.takeWhile_cons_of_neg (by simp), show s.taken p [] = 0 from rfl, Nat.sub_zero]
          at own
        obtain ⟨placed, part, whole⟩ := books.given_small own fun zero => takes (.inr zero)
        split
        · rename_i less
          have others : ∀ q' ∈ rest,
              (s.grant st p q (s.txqs q).available).txqs q' = s.txqs q' := by
            intro q' member
            apply grant_of_ne
            rintro rfl
            exact absent member
          have given := books.grant (home q List.mem_cons_self) placed its none
            (n := (s.txqs q).available) (part less) (by omega)
          apply ih given nodup' home'
          · intro q' member
            rw [others q' member]
            exact unused' q' member
          · exact limited_tail absent limited others (by rw [if_pos its])
          · rw [grant_ps, Function.update_self, StaPs.grant_spCnt, Function.update_self]
            omega
        · rename_i most
          exact books.grant (home q List.mem_cons_self) placed its none (whole most) room

/-- What a traffic request that starts a service period asks for is ready. -/
theorem adaptReq_le (s : Hw) (st : StaId) (pktReq : UInt16) (p : PsId) :
    s.adaptReq st pktReq p ≤ (s.ps st).pktReady p := by
  unfold Hw.adaptReq
  dsimp only
  split <;> omega

/-- When no service period runs, no queue has a part of one. -/
theorem pushLimit_eq_zero (books : Books s) (asleep : (s.ps st).active = true)
    (none : (s.ps st).spCnt p = 0) (member : q ∈ st.txqs) (its : (s.txqs q).psId = p) :
    (s.txqs q).pushLimit = 0 := by
  have part := share_le_tally (s := s) (p := p) (f := (·.pushLimit)) member
  rw [← (books.accounted st asleep).service, none] at part
  simpa [share, its] using part

theorem grantMulticast (books : Books s) {vifIdx : Nat} {pktReq : UInt16}
    (asleep : (s.ps (.multicast vifIdx)).active = true)
    (starts : s.startsSp (.multicast vifIdx) p = true)
    (credits : 0 ≤ (s.txqs (.bcmc vifIdx)).credits.toInt) :
    Books (s.grantMulticast vifIdx p (s.adaptReq (.multicast vifIdx) pktReq p)) := by
  simp only [Hw.startsSp, decide_eq_true_eq] at starts
  have acc := books.accounted _ asleep
  have member : TxqId.bcmc vifIdx ∈ (StaId.multicast vifIdx).txqs := List.mem_singleton_self _
  have sum : s.tally (.multicast vifIdx) p (·.skList.length) =
      share p (·.skList.length) (s.txqs (.bcmc vifIdx)) := by
    simp [tally_eq, StaId.txqs]
  have waiting := acc.ready p
  rw [sum] at waiting
  have its : (s.txqs (.bcmc vifIdx)).psId = p := by
    by_contra other
    rw [share, if_neg other] at waiting
    omega
  rw [share, if_pos its] at waiting
  have filled : (s.txqs (.bcmc vifIdx)).skList ≠ [] := by
    rw [← List.length_pos_iff]
    omega
  have bound := adaptReq_le s (.multicast vifIdx) pktReq p
  have fits := acc.readyFits p
  have small := (s.txqs (.bcmc vifIdx)).credits.toInt_lt
  unfold Hw.grantMulticast
  apply books.grant rfl (books.filled filled) its
    (books.pushLimit_eq_zero asleep starts.1 member its)
  · split <;> omega
  · split <;> omega

/-- A service period is given up, and no other one was running. -/
theorem interrupt (books : Books s) (asleep : (s.ps st).active = true)
    (none : (s.ps st).spCnt .legacy = 0) :
    Books ((s.onPs st fun ps => { ps with spCnt := Function.update ps.spCnt .uapsd 0 })
      |>.clearPushLimits st) where
  toLayout := by
    apply Layout.clearPushLimits
    exact books.toLayout.congr fun _ => rfl
  accounted := by
    intro st' active
    rw [clearPushLimits_ps] at active
    by_cases same : st' = st
    · subst same
      have acc := books.accounted st' asleep
      constructor
      · intro p
        rw [clearPushLimits_ps, Hw.onPs_self, acc.ready]
        symm
        apply tally_congr
        intro q member
        rw [clearPushLimits_txqs, if_pos member]
        rfl
      · intro p
        have cleared : ((s.onPs st' fun ps =>
            { ps with spCnt := Function.update ps.spCnt .uapsd 0 }).clearPushLimits st').tally st' p
            (·.pushLimit) = 0 := by
          rw [tally_eq, List.sum_eq_zero_iff_forall_eq_nat]
          intro n some
          obtain ⟨q, member, rfl⟩ := List.mem_map.mp some
          rw [clearPushLimits_txqs, if_pos member]
          exact ite_self 0
        rw [cleared, clearPushLimits_ps, Hw.onPs_self]
        cases p with
        | legacy => exact none
        | uapsd => rfl
      · rw [clearPushLimits_ps, Hw.onPs_self]
        exact acc.readyFits
      · intro p
        rw [clearPushLimits_ps, Hw.onPs_self]
        cases p with
        | legacy => exact acc.serviceFits .legacy
        | uapsd => exact Nat.succ_pos _
    · rw [Hw.onPs_of_ne _ _ same] at active
      apply Accounted.clearPushLimits _ same
      exact Accounted.congr (books.accounted st' active) (Hw.onPs_of_ne _ _ same) fun _ _ => rfl

theorem trafficReq (books : Books s) {pktReq : UInt16}
    (ok : Accountable s (.trafficReq st pktReq p)) : Books (s.trafficReq st pktReq p) := by
  unfold Hw.trafficReq
  split
  · exact books
  · rename_i sleeps
    have asleep : (s.ps st).active = true := by simpa using sleeps
    have allowed := ok asleep
    split
    · rename_i interrupts
      rw [if_pos interrupts] at allowed
      have uapsd : p = .uapsd := by
        simp only [Hw.interrupts, decide_eq_true_eq] at interrupts
        exact interrupts.2
      subst uapsd
      exact books.interrupt asleep allowed
    · rename_i goesOn
      rw [if_neg goesOn] at allowed
      split
      · exact books
      · rename_i starts
        have begins : s.startsSp st p = true := by simpa using starts
        have credits := allowed begins
        have counters : (s.ps st).spCnt p = 0 := by
          simp only [Hw.startsSp, decide_eq_true_eq] at begins
          exact begins.1
        cases st with
        | multicast vifIdx => exact books.grantMulticast asleep begins credits
        | remote staIdx =>
            have home : ∀ q ∈ nxTidPrio.map (TxqId.sta staIdx),
                q.station = some (.remote staIdx) := by
              intro q member
              obtain ⟨tid, -, rfl⟩ := List.mem_map.mp member
              rfl
            apply books.dispatch _ _ home _ _ credits
            · have bound := adaptReq_le s (.remote staIdx) pktReq p
              have fits := (books.accounted _ asleep).readyFits p
              omega
            · apply List.Nodup.map
              · exact fun _ _ same => (TxqId.sta.inj same).2
              · decide
            · intro q member its
              have mem := StaId.mem_txqs.mpr (home q member)
              exact books.pushLimit_eq_zero asleep counters mem its

/-- The power state is told, and the counters of a station that falls asleep agree
    already. -/
theorem psState (books : Books s) {active : Bool} (agree : active = true → Accounted s st) :
    Books (s.onPs st fun ps => { ps with active := active }) where
  toLayout := books.toLayout.congr fun _ => rfl
  accounted := by
    intro st' asleep
    by_cases same : st' = st
    · subst same
      rw [Hw.onPs_self] at asleep
      have acc := agree asleep
      constructor
      · rw [Hw.onPs_self]
        exact acc.ready
      · rw [Hw.onPs_self]
        exact acc.service
      · rw [Hw.onPs_self]
        exact acc.readyFits
      · rw [Hw.onPs_self]
        exact acc.serviceFits
    · rw [Hw.onPs_of_ne _ _ same] at asleep
      exact Accounted.congr (books.accounted st' asleep) (Hw.onPs_of_ne _ _ same) fun _ _ => rfl

theorem countReady_eq (layout : Layout s) (fits : s.tally st p (·.skList.length) < 65536) :
    s.countReady st p = s.tally st p (·.skList.length) := by
  cases st with
  | remote staIdx => exact Nat.mod_eq_of_lt fits
  | multicast vifIdx =>
      have only : s.tally (.multicast vifIdx) p (·.skList.length) =
          share p (·.skList.length) (s.txqs (.bcmc vifIdx)) := by
        simp [tally_eq, StaId.txqs]
      rw [only] at fits ⊢
      cases p with
      | legacy =>
          rw [share, if_pos (layout.multicast vifIdx)] at fits ⊢
          exact Nat.mod_eq_of_lt fits
      | uapsd =>
          rw [share, if_neg (by simp [layout.multicast vifIdx])]
          rfl

/-- The counters are set up while the queues are stopped. -/
theorem psEnable (books : Books s) (unused : ∀ q ∈ st.txqs, (s.txqs q).pushLimit = 0)
    (fits : ∀ p, s.tally st p (·.skList.length) < 65536) : Books (s.psEnable st) := by
  unfold Hw.psEnable
  dsimp only
  generalize before : s.onPs st (fun ps => { ps with active := true, spCnt := fun _ => 0 }) = u
  have stopped := SameBooks.staStop u st .staPs
  have same (q : TxqId) : ((u.staStop st .staPs).txqs q).account = (s.txqs q).account := by
    rw [stopped.txqs, ← before]
    rfl
  have layout : Layout (u.staStop st .staPs) := books.toLayout.congr same
  have lengths (p : PsId) :
      (u.staStop st .staPs).tally st p (·.skList.length) = s.tally st p (·.skList.length) :=
    tally_congr fun q _ => share_length_congr (same q) p
  have limits (p : PsId) : (u.staStop st .staPs).tally st p (·.pushLimit) = 0 := by
    rw [tally_eq, List.sum_eq_zero_iff_forall_eq_nat]
    intro n member
    obtain ⟨q, its, rfl⟩ := List.mem_map.mp member
    rw [share_limit_congr (same q), share, unused q its]
    exact ite_self 0
  have counters : ((u.staStop st .staPs).ps st).spCnt = fun _ => 0 := by
    rw [stopped.ps, ← before, Hw.onPs_self]
  have ready (p : PsId) : (u.staStop st .staPs).countReady st p =
      (u.staStop st .staPs).tally st p (·.skList.length) := by
    apply countReady_eq layout
    rw [lengths]
    exact fits p
  constructor
  · exact layout.congr fun _ => rfl
  · intro st' asleep
    by_cases its : st' = st
    · subst its
      constructor
      · intro p
        rw [Hw.onPs_self]
        exact ready p
      · intro p
        rw [Hw.onPs_self]
        exact (congrFun counters p).trans (limits p).symm
      · intro p
        rw [Hw.onPs_self]
        dsimp only
        rw [ready, lengths]
        exact fits p
      · intro p
        rw [Hw.onPs_self]
        dsimp only
        rw [counters]
        exact Nat.succ_pos _
    · have awake : (s.ps st').active = true := by
        rw [Hw.onPs_of_ne _ _ its, stopped.ps, ← before, Hw.onPs_of_ne _ _ its] at asleep
        exact asleep
      apply (books.accounted st' awake).congr
      · rw [Hw.onPs_of_ne _ _ its, stopped.ps, ← before, Hw.onPs_of_ne _ _ its]
      · exact fun q _ => same q

theorem psDisable (books : Books s) (placed : ∀ q ∈ st.txqs, (s.txqs q).hwq ≠ none) :
    Books (s.psDisable st) := by
  have awake := books.awaken st
  have reset : Books ((s.onPs st fun ps => { ps with active := false }).resetHwq st) := by
    cases st with
    | remote staIdx => exact awake
    | multicast vifIdx =>
        apply awake.retouch (fun t => { t with hwq := some .be }) _ rfl rfl rfl rfl
        · exact fun bare => absurd bare (placed _ (List.mem_singleton_self _))
        · exact ⟨nofun, fun bare => absurd bare (placed _ (List.mem_singleton_self _))⟩
  have off : (((s.onPs st fun ps => { ps with active := false }).resetHwq st).ps st).active =
      false := by
    cases st with
    | remote staIdx => simp [Hw.resetHwq]
    | multicast vifIdx => simp [Hw.resetHwq]
  have cleared : Books (((s.onPs st fun ps => { ps with active := false }).resetHwq st)
      |>.clearPushLimits st) := by
    constructor
    · exact reset.toLayout.clearPushLimits st
    · intro st' asleep
      rw [clearPushLimits_ps] at asleep
      by_cases its : st' = st
      · subst its
        rw [off] at asleep
        contradiction
      · exact (reset.accounted st' asleep).clearPushLimits its
  exact (SameBooks.staStart _ st .staPs).books cleared

/-- Every accountable step keeps the invariant. -/
theorem perform (books : Books s) {op : Op} (enabled : s.enabled op = true)
    (ok : Accountable s op) : Books (s.perform op) := by
  cases op with
  | init q status uapsd => exact books.init ok status uapsd
  | deinit q => exact books.deinit
  | flush q => exact books.flush ok
  | start q reason => exact (SameBooks.start s q reason).books books
  | stop q reason => exact (SameBooks.stop s q reason).books books
  | queueSkb q skb tbusy =>
      simp only [Hw.enabled, Bool.and_eq_true] at enabled
      exact books.queueSkb (Option.isSome_iff_ne_none.mp enabled.2) ok skb false tbusy
  | txdatacfm q skb cfm tbusy => exact books.txdatacfm ok
  | creditUpdate q => exact books.creditUpdate
  | psEnable st => exact books.psEnable ok.1 ok.2
  | psDisable st =>
      simp only [Hw.enabled, Bool.and_eq_true, List.all_eq_true, Option.isSome_iff_ne_none]
        at enabled
      exact books.psDisable enabled.2
  | psState st active => exact books.psState fun on => .blank (ok on).1 (ok on).2
  | trafficReq st pktReq p => exact books.trafficReq ok
  | process h => exact books.relist rfl rfl
  | visit =>
      cases scan : s.scan with
      | none => simp [Hw.enabled, scan] at enabled
      | some entry =>
          obtain ⟨h, rest⟩ := entry
          cases rest with
          | nil =>
              simp only [Hw.perform, scan]
              exact books.relist rfl rfl
          | cons q rest =>
              simp only [Hw.perform, scan]
              simp only [Accountable, scan] at ok
              exact books.visit h rest ok

theorem fresh : Books Hw.fresh where
  placed _ placed := absurd rfl placed
  blank _ _ := ⟨rfl, rfl, rfl, rfl⟩
  multicast _ := rfl
  accounted _ asleep := nomatch asleep

end Books

end

/-- In every run of accountable steps the counters of a sleeping station are those
    of its queues. -/
theorem power_save_accounted {s : Hw} (run : Run.Reachable Hw.step Accountable Hw.fresh s) :
    PsAccounted s := by
  have books : Books s := by
    apply run.invariant Books Books.fresh
    intro s op t books ok taken
    obtain ⟨⟨-, enabled⟩, rfl⟩ := Hw.step_eq_some.mp taken
    exact books.perform enabled ok
  exact books.accounted

instance {P : PsId → Prop} [DecidablePred P] : Decidable (∀ p, P p) :=
  decidable_of_iff (P .legacy ∧ P .uapsd)
    ⟨fun both p => by cases p with
      | legacy => exact both.1
      | uapsd => exact both.2,
    fun all => ⟨all .legacy, all .uapsd⟩⟩

instance (s : Hw) (q : TxqId) : Decidable (s.hasRoom q) :=
  inferInstanceAs (Decidable (∀ st ∈ q.station, _))

instance (s : Hw) (q : TxqId) : Decidable (s.visitable q) :=
  inferInstanceAs (Decidable (s.asleep q = true → (s.txqs q).inHwqList = true →
    if (s.txqs q).active = true then
      0 < (s.txqs q).credits.toInt ∧ (s.txqs q).skList ≠ [] → (s.txqs q).pushLimit ≠ 0
    else (s.txqs q).skList = []))

instance (s : Hw) (p : PsId) (qs : List TxqId) (pktReq : Nat) :
    Decidable (s.limited p qs pktReq) :=
  inferInstanceAs (Decidable (∀ q ∈ qs, (s.txqs q).psId = p → 0 ≤ (s.txqs q).credits.toInt ∨
    (s.txqs q).hwq ≠ none ∧ pktReq - s.taken p (qs.takeWhile (· ≠ q)) < 256))

instance (s : Hw) (p : PsId) (pktReq : Nat) : (st : StaId) → Decidable (s.spreads p pktReq st)
  | .remote staIdx =>
      inferInstanceAs (Decidable (s.limited p (nxTidPrio.map (.sta staIdx)) pktReq))
  | .multicast vifIdx =>
      inferInstanceAs (Decidable (0 ≤ (s.txqs (.bcmc vifIdx)).credits.toInt))

instance (s : Hw) (op : Op) : Decidable (Accountable s op) :=
  match op with
  | .init q _ _ => inferInstanceAs (Decidable (s.asleep q = false))
  | .flush q => inferInstanceAs (Decidable (s.asleep q = true → (s.txqs q).skList = []))
  | .queueSkb q _ _ => inferInstanceAs (Decidable (s.asleep q = true → s.hasRoom q))
  | .txdatacfm q _ cfm _ => inferInstanceAs (Decidable
      ((s.txqs q).retries cfm = true → s.asleep q = true → s.hasRoom q))
  | .psEnable st => inferInstanceAs (Decidable
      ((∀ q ∈ st.txqs, (s.txqs q).pushLimit = 0) ∧ ∀ p, s.tally st p (·.skList.length) < 65536))
  | .psState st active => inferInstanceAs (Decidable (active = true →
      (∀ q ∈ st.txqs, (s.txqs q).skList = [] ∧ (s.txqs q).pushLimit = 0) ∧
        ∀ p, (s.ps st).pktReady p = 0 ∧ (s.ps st).spCnt p = 0))
  | .trafficReq st pktReq p => inferInstanceAs (Decidable
      ((s.ps st).active = true →
        if Hw.interrupts pktReq p = true then (s.ps st).spCnt .legacy = 0
        else s.startsSp st p = true → s.spreads p (s.adaptReq st pktReq p) st))
  | .visit =>
      match found : s.scan with
      | some (_, q :: _) => decidable_of_iff (s.visitable q) (by simp only [Accountable, found])
      | some (_, []) => isTrue (by simp only [Accountable, found])
      | none => isTrue (by simp only [Accountable, found])
  | .deinit _ | .start _ _ | .stop _ _ | .creditUpdate _ | .psDisable _ | .process _ =>
      inferInstanceAs (Decidable True)

/-- The queues of a peer. -/
def joinRun (uapsd : Bool) : List Op := (StaId.remote 0).txqs.map fun q => .init q .clear uapsd

/-- A sleeping peer asks for two frames, and gets one of each of two queues. -/
def pollRun : List Op :=
  joinRun false ++
    [.psEnable (.remote 0), .queueSkb (.sta 0 (Fin.ofNat 9 0)) 1 false,
      .queueSkb (.sta 0 (Fin.ofNat 9 0)) 2 false, .queueSkb (.sta 0 (Fin.ofNat 9 6)) 3 false,
      .trafficReq (.remote 0) (.ofNat 2) .legacy, .process .vo, .visit, .visit, .process .be,
      .visit, .visit]

theorem power_save_accounted_poll :
    ∃ s, (s.ps (.remote 0)).active = true ∧ (s.ps (.remote 0)).pktReady .legacy = 1 ∧
      (s.ps (.remote 0)).spCnt .legacy = 0 ∧ PsAccounted s := by
  have facts : (Run.exec Hw.step Hw.fresh pollRun).map (fun s => ((s.ps (.remote 0)).active,
      (s.ps (.remote 0)).pktReady .legacy, (s.ps (.remote 0)).spCnt .legacy)) =
      some (true, 1, 0) := by decide +kernel
  obtain ⟨s, run, counts⟩ := Option.map_eq_some_iff.mp facts
  obtain ⟨asleep, rest⟩ := Prod.mk.inj counts
  obtain ⟨ready, service⟩ := Prod.mk.inj rest
  exact ⟨s, asleep, ready, service, power_save_accounted
    (Run.Reachable.exec_guarded (fun _ _ => of_decide_eq_true) _ .init run (by decide +kernel))⟩

/-- The U-APSD service period of a peer is interrupted before its queue is processed. -/
def interruptRun : List Op :=
  joinRun true ++
    [.psEnable (.remote 0), .queueSkb (.sta 0 (Fin.ofNat 9 0)) 1 false,
      .queueSkb (.sta 0 (Fin.ofNat 9 0)) 2 false, .trafficReq (.remote 0) (.ofNat 1) .uapsd,
      .trafficReq (.remote 0) (.ofNat 255) .uapsd, .process .be, .visit]

theorem interrupted_period_wraps :
    ∃ s, Run.Reachable Hw.step Run.Free Hw.fresh s ∧ (s.ps (.remote 0)).active = true ∧
      (s.ps (.remote 0)).spCnt .uapsd = 65534 ∧ ¬ PsAccounted s := by
  have facts : (Run.exec Hw.step Hw.fresh interruptRun).map (fun s => ((s.ps (.remote 0)).active,
      (s.ps (.remote 0)).spCnt .uapsd, s.tally (.remote 0) .uapsd (·.pushLimit))) =
      some (true, 65534, 0) := by decide +kernel
  obtain ⟨s, run, counts⟩ := Option.map_eq_some_iff.mp facts
  obtain ⟨asleep, rest⟩ := Prod.mk.inj counts
  obtain ⟨service, limits⟩ := Prod.mk.inj rest
  refine ⟨s, Run.Reachable.exec _ .init run, asleep, service, fun accounted => ?_⟩
  have same := (accounted _ asleep).service .uapsd
  omega

end Aic8800.Sched
