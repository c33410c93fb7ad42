import Aic8800.Lib.Rings
import Aic8800.Sched.Queues
import Mathlib

/-! # The retries of a queue

A packet that the firmware gives back is queued again before all packets that are new to the
firmware. The queue only knows how many such packets it has, and which one is the last.
-/

namespace Aic8800.Sched.Retries

open Lib Rings

/-! ## The list that is split -/

section Extract

variable {α : Type} [DecidableEq α]

def setNext (l : Links α) (a b : α) : Links α := { l with next := Function.update l.next a b }

def setPrev (l : Links α) (a b : α) : Links α := { l with prev := Function.update l.prev a b }

/-- The links that `skb_queue_extract` leaves. -/
def skbQueueExtract (l : Links α) (list head : α) (nbElt : Nat) : Links α :=
  let first := l.next list
  let ptr := l.next^[nbElt] first
  let last := l.prev ptr
  let l := setPrev (setNext l list ptr) ptr list
  let l := setNext l last head
  let l := setNext l (l.prev head) first
  let l := setPrev l first (l.prev head)
  setPrev l head last

variable {l : Links α} {list head : α} {as bs cs : List α}

/-- The six writes, when what is read on the way is what the two rings say. -/
theorem skbQueueExtract_eq {n : Nat} {first ptr last h : α} (begins : l.next list = first)
    (walks : l.next^[n] first = ptr) (back : l.prev ptr = last) (ends : l.prev head = h)
    (other : head ≠ ptr) : skbQueueExtract l list head n =
      ⟨Function.update (Function.update (Function.update l.next list ptr) last head) h first,
        Function.update (Function.update (Function.update l.prev ptr list) first h) head last⟩ := by
  simp only [skbQueueExtract, setNext, setPrev, begins, walks, back, ends,
    Function.update_of_ne other]

omit [DecidableEq α] in
/-- What is read of the list that is moved from -/
theorem ring_front {first last ptr : α} {rest : List α} (from_ : Ring l list (as ++ bs))
    (hfirst : as.head? = some first) (hlast : as.getLast? = some last)
    (split : bs ++ [list] = ptr :: rest) :
    l.next list = first ∧ l.next^[as.length] first = ptr ∧ l.prev ptr = last := by
  have chain := from_.chain
  rw [List.append_assoc, split] at chain
  have begins : l.next list = first := by
    cases as with
    | nil => cases hfirst
    | cons a as =>
        rw [List.cons_append, List.isChain_cons_cons] at chain
        exact chain.1.1.trans (Option.some.inj hfirst)
  have walks : l.next^[as.length] first = ptr := by
    rw [List.append_cons, ← List.cons_append] at chain
    rw [← begins]
    exact iterate_next chain.left_of_append
  have back : l.prev ptr = last := by
    rw [← List.cons_append, List.isChain_append] at chain
    exact (chain.2.2 last (List.mem_getLast?_cons hlast) ptr rfl).2
  exact ⟨begins, walks, back⟩

omit [DecidableEq α] in
theorem ring_last {h : α} (to_ : Ring l head cs) (hh : (head :: cs).getLast? = some h) :
    l.prev head = h := by
  have ring := to_.chain
  rw [← List.cons_append, List.isChain_append] at ring
  exact (ring.2.2 h hh head rfl).2

theorem skbQueueExtract_moved (from_ : Ring l list (as ++ bs)) (to_ : Ring l head cs)
    (apart : (list :: (as ++ bs)).Disjoint (head :: cs)) (some : as ≠ []) :
    Moved l (skbQueueExtract l list head as.length) list head as bs cs := by
  obtain ⟨first, hfirst⟩ := Option.isSome_iff_exists.mp (List.isSome_head?.mpr some)
  obtain ⟨last, hlast⟩ := Option.isSome_iff_exists.mp (List.getLast?_isSome.mpr some)
  obtain ⟨ptr, rest, split⟩ := List.exists_cons_of_ne_nil (List.concat_ne_nil list bs)
  obtain ⟨h, hh⟩ := Option.isSome_iff_exists.mp
    (List.getLast?_isSome.mpr (List.cons_ne_nil head cs))
  have firstIn := List.mem_of_mem_head? hfirst
  have lastIn := List.mem_of_mem_getLast? hlast
  have hIn := List.mem_of_mem_getLast? hh
  have ptrIn : ptr ∈ bs ++ [list] := split ▸ List.mem_cons_self
  have ptrAs : ptr ∉ as := by
    intro there
    have nodup := from_.nodup
    rw [List.nodup_cons, List.nodup_append, List.mem_append, not_or] at nodup
    rcases List.mem_append.mp ptrIn with here | here
    · exact nodup.2.2.2 ptr there ptr here rfl
    · exact nodup.1.1 (List.mem_singleton.mp here ▸ there)
  have listAs : list ∉ as := by
    have nodup := from_.nodup
    rw [List.nodup_cons, List.mem_append, not_or] at nodup
    exact nodup.1.1
  have asTo : ∀ x ∈ as, x ∉ head :: cs := fun x member =>
    apart (List.mem_cons_of_mem _ (List.mem_append_left _ member))
  have listTo : list ∉ head :: cs := apart List.mem_cons_self
  have ptrTo : ptr ∉ head :: cs := by
    rcases List.mem_append.mp ptrIn with here | here
    · exact apart (List.mem_cons_of_mem _ (List.mem_append_right _ here))
    · exact List.mem_singleton.mp here ▸ listTo
  obtain ⟨begins, walks, back⟩ := ring_front from_ hfirst hlast split
  have ends : l.prev head = h := ring_last to_ hh
  have headPtr : head ≠ ptr := fun same => ptrTo (same ▸ List.mem_cons_self)
  have headFirst : head ≠ first := fun same => asTo first firstIn (same ▸ List.mem_cons_self)
  rw [skbQueueExtract_eq begins walks back ends headPtr]
  have listH : list ≠ h := fun same => listTo (same ▸ hIn)
  have listLast : list ≠ last := fun same => listAs (same ▸ lastIn)
  have lastH : last ≠ h := fun same => asTo last lastIn (same ▸ hIn)
  have ptrFirst : ptr ≠ first := fun same => ptrAs (same ▸ firstIn)
  refine ⟨some, ?_, ?_, ?_, ?_, ?_⟩
  · intro x notList notLast notH
    rw [hlast] at notLast
    rw [hh] at notH
    have one : x ≠ last := fun same => notLast (same ▸ rfl)
    have two : x ≠ h := fun same => notH (same ▸ rfl)
    simp only [Function.update_of_ne two, Function.update_of_ne one, Function.update_of_ne notList]
  · intro x notHead notFirst notPtr
    rw [hfirst] at notFirst
    rw [split] at notPtr
    have one : x ≠ first := fun same => notFirst (same ▸ rfl)
    have two : x ≠ ptr := fun same => notPtr (same ▸ rfl)
    simp only [Function.update_of_ne notHead, Function.update_of_ne one, Function.update_of_ne two]
  · intro x here
    rw [split] at here
    obtain rfl : ptr = x := Option.some.inj here
    constructor
    · simp only [Function.update_of_ne listH, Function.update_of_ne listLast, Function.update_self]
    · simp only [Function.update_of_ne headPtr.symm, Function.update_of_ne ptrFirst,
        Function.update_self]
  · intro x hx y hy
    obtain rfl : h = x := Option.some.inj (hh.symm.trans hx)
    obtain rfl : first = y := Option.some.inj (hfirst.symm.trans hy)
    constructor
    · simp only [Function.update_self]
    · simp only [Function.update_of_ne headFirst.symm, Function.update_self]
  · intro x hx
    obtain rfl : last = x := Option.some.inj (hlast.symm.trans hx)
    constructor
    · simp only [Function.update_of_ne lastH, Function.update_self]
    · simp only [Function.update_self]

/-- The first nodes of a list are moved behind those of another. None is lost, and none is in both
    lists. -/
theorem skbQueueExtract_rings (from_ : Ring l list (as ++ bs)) (to_ : Ring l head cs)
    (apart : (list :: (as ++ bs)).Disjoint (head :: cs)) (some : as ≠ []) :
    Ring (skbQueueExtract l list head as.length) list bs ∧
      Ring (skbQueueExtract l list head as.length) head (cs ++ as) :=
  have moved := skbQueueExtract_moved from_ to_ apart some
  ⟨moved.ring_left from_ to_ apart, moved.ring_right from_ to_ apart⟩

end Extract

/-! ## Runs -/

/-- What the packets, and the heads of the two lists, are to the links. -/
inductive Node where
  | skList
  | skListPush
  | skb (n : Nat)
  deriving DecidableEq

inductive Event where
  | enqueue
  /-- Power save sets a limit. -/
  | limit (n : Nat)
  | push
  | done (skb : Nat)
  | retry (skb : Nat)
  deriving DecidableEq

/-- The queue, the packets that are with the firmware or done with, and, in order, those that were
    pushed for the first time, and those that were given back to be retried. -/
structure State where
  txq : Txq
  next : Nat
  inFlight : List Nat
  finished : List Nat
  transmitted : List Nat
  returned : List Nat

namespace State

variable (s : State)

def step (e : Event) : Option State :=
  match e with
  | .enqueue => some { s with txq := s.txq.enqueue s.next false, next := s.next + 1 }
  | .limit n => some { s with txq := s.txq.setPushLimit n }
  | .push =>
      -- `rwnx_hwq_process` has a `BUG_ON` for each of the two
      if 0 < s.txq.credits.toInt ∧ s.txq.skList ≠ [] then
        let n := s.txq.getSkbToPush.1
        let pushed := s.txq.skList.take n
        some
          { s with
            txq := Txq.countPush^[n] (s.txq.extract n)
            inFlight := s.inFlight ++ pushed
            transmitted := s.transmitted ++ pushed.filter (· ∉ s.transmitted) }
      else none
  | .done skb =>
      if skb ∈ s.inFlight then
        some { s with inFlight := s.inFlight.erase skb, finished := s.finished ++ [skb] }
      else none
  | .retry skb =>
      if skb ∈ s.inFlight then
        some
          { s with
            txq := s.txq.addCredit.enqueue skb true
            inFlight := s.inFlight.erase skb
            returned := s.returned ++ [skb] }
      else none

/-- The packets in the queue that were pushed before. -/
def retried : List Nat := s.txq.skList.filter (· ∈ s.transmitted)

def fresh : List Nat := s.txq.skList.filter (· ∉ s.transmitted)

/-- A packet was pushed for the first time before another one was. -/
def Before (p p' : Nat) : Prop := s.transmitted.idxOf p < s.transmitted.idxOf p'

instance (p p' : Nat) : Decidable (s.Before p p') := inferInstanceAs (Decidable (_ < _))

end State

/-- A queue as `rwnx_txq_init` leaves it. -/
def init (q : TxqId) (status : StopReason) (uapsd : Bool) : State :=
  ⟨.init q status uapsd, 0, [], [], [], []⟩

structure Sound (s : State) : Prop where
  precede : s.txq.skList = s.retried ++ s.fresh
  /-- The retries wait in the order in which they were given back. -/
  inOrder : s.retried <:+ s.returned
  counted : s.txq.nbRetry = s.retried.length
  last : s.txq.lastRetrySkb = s.retried.getLast?
  /-- No packet is lost, and none is there twice. -/
  kept : (s.txq.skList ++ s.inFlight ++ s.finished).Perm (List.range s.next)
  /-- Each retry has added one to the credits, as long as there is room for it. -/
  credits : s.returned.length ≤ 63 → s.txq.credits.toInt = 64 + s.returned.length
  /-- When the list is split, the links split it. -/
  extracts : 0 < s.txq.credits.toInt → s.txq.getSkbToPush.1 < s.txq.skList.length →
    ∀ l : Links Node, Ring l .skList (s.txq.skList.map .skb) → Ring l .skListPush [] →
      let n := s.txq.getSkbToPush.1
      let l := skbQueueExtract l .skList .skListPush n
      Ring l .skList ((s.txq.skList.drop n).map .skb) ∧
        Ring l .skListPush ((s.txq.skList.take n).map .skb)

/-! ## The invariant -/

structure Inv (s : State) (retried fresh : List Nat) : Prop where
  list : s.txq.skList = retried ++ fresh
  pushed : ∀ p ∈ retried, p ∈ s.transmitted
  new : ∀ p ∈ fresh, p ∉ s.transmitted
  inOrder : retried <:+ s.returned
  counted : s.txq.nbRetry = retried.length
  last : s.txq.lastRetrySkb = retried.getLast?
  kept : (retried ++ fresh ++ s.inFlight ++ s.finished).Perm (List.range s.next)
  credits : s.returned.length ≤ 63 → s.txq.credits.toInt = 64 + s.returned.length
  sent : ∀ p ∈ s.inFlight, p ∈ s.transmitted
  numbered : ∀ p ∈ s.transmitted, p < s.next

/-- The pushes of one round count the retries down, and forget the last one when it is pushed. -/
theorem countPush_iterate (t : Txq) (n : Nat) :
    (Txq.countPush^[n] t).skList = t.skList ∧ (Txq.countPush^[n] t).credits = t.credits ∧
      (Txq.countPush^[n] t).nbRetry = t.nbRetry - n ∧
      (Txq.countPush^[n] t).lastRetrySkb =
        if t.nbRetry ≠ 0 ∧ t.nbRetry ≤ n then none else t.lastRetrySkb := by
  induction n with
  | zero =>
      refine ⟨rfl, rfl, rfl, ?_⟩
      rw [if_neg (by omega)]
      rfl
  | succ n ih =>
      obtain ⟨list, credits, count, last⟩ := ih
      rw [Function.iterate_succ_apply']
      refine ⟨list, credits, ?_, ?_⟩
      · show (Txq.countPush^[n] t).nbRetry - 1 = t.nbRetry - (n + 1)
        omega
      · show (if (Txq.countPush^[n] t).nbRetry = 1 then none else
          (Txq.countPush^[n] t).lastRetrySkb) = _
        rw [count, last]
        by_cases one : t.nbRetry - n = 1
        · rw [if_pos one, if_pos (by omega)]
        · rw [if_neg one]
          by_cases gone : t.nbRetry ≠ 0 ∧ t.nbRetry ≤ n
          · rw [if_pos gone, if_pos (by omega)]
          · rw [if_neg gone, if_neg (by omega)]

theorem skbAppend_last {old skb : Nat} {xs ys : List Nat} (first : old ∉ xs) :
    skbAppend old skb (xs ++ old :: ys) = xs ++ old :: skb :: ys := by
  induction xs with
  | nil => exact if_pos rfl
  | cons x xs ih =>
      rw [List.mem_cons, not_or] at first
      rw [List.cons_append, skbAppend, if_neg (Ne.symm first.1), ih first.2]
      rfl

section Steps

variable {s : State} {retried fresh : List Nat}

theorem Inv.retried_eq (h : Inv s retried fresh) : s.retried = retried := by
  have none : fresh.filter (· ∈ s.transmitted) = [] :=
    List.filter_eq_nil_iff.mpr fun p member => by simpa using h.new p member
  rw [State.retried, h.list, List.filter_append, none, List.append_nil]
  exact List.filter_eq_self.mpr fun p member => by simpa using h.pushed p member

theorem Inv.fresh_eq (h : Inv s retried fresh) : s.fresh = fresh := by
  have none : retried.filter (· ∉ s.transmitted) = [] :=
    List.filter_eq_nil_iff.mpr fun p member => by simpa using h.pushed p member
  rw [State.fresh, h.list, List.filter_append, none, List.nil_append]
  exact List.filter_eq_self.mpr fun p member => by simpa using h.new p member

theorem Inv.nodup (h : Inv s retried fresh) :
    (retried ++ fresh ++ s.inFlight ++ s.finished).Nodup :=
  h.kept.nodup_iff.mpr List.nodup_range

theorem Inv.below (h : Inv s retried fresh) {p : Nat} (member : p ∈ retried ++ fresh) :
    p < s.next := by
  rw [← List.mem_range, ← h.kept.mem_iff, List.append_assoc]
  exact List.mem_append_left _ member

theorem Inv.init (q : TxqId) (status : StopReason) (uapsd : Bool) :
    Inv (init q status uapsd) [] [] where
  list := rfl
  pushed := nofun
  new := nofun
  inOrder := List.suffix_rfl
  counted := rfl
  last := rfl
  kept := .nil
  credits _ := rfl
  sent := nofun
  numbered := nofun

theorem Inv.enqueue (h : Inv s retried fresh) :
    Inv { s with txq := s.txq.enqueue s.next false, next := s.next + 1 } retried
      (fresh ++ [s.next]) where
  list := by
    show s.txq.skList ++ [s.next] = _
    rw [h.list, List.append_assoc]
  pushed := h.pushed
  new p member := by
    rcases List.mem_append.mp member with old | new
    · exact h.new p old
    · rw [List.mem_singleton.mp new]
      exact fun there => absurd (h.numbered _ there) (Nat.lt_irrefl _)
  inOrder := h.inOrder
  counted := h.counted
  last := h.last
  kept := by
    have kept := List.perm_iff_count.mp h.kept
    rw [List.range_succ, List.perm_iff_count]
    intro p
    have same := kept p
    simp only [List.count_append] at same ⊢
    omega
  credits := h.credits
  sent := h.sent
  numbered p there := (h.numbered p there).trans (Nat.lt_succ_self _)

theorem Inv.limit (h : Inv s retried fresh) (n : Nat) :
    Inv { s with txq := s.txq.setPushLimit n } retried fresh := { h with }

theorem Inv.done (h : Inv s retried fresh) {skb : Nat} (there : skb ∈ s.inFlight) :
    Inv { s with inFlight := s.inFlight.erase skb, finished := s.finished ++ [skb] } retried
      fresh where
  list := h.list
  pushed := h.pushed
  new := h.new
  inOrder := h.inOrder
  counted := h.counted
  last := h.last
  kept := by
    have kept := List.perm_iff_count.mp h.kept
    have taken := List.perm_iff_count.mp (List.perm_cons_erase there)
    rw [List.perm_iff_count]
    intro p
    have same := kept p
    have moved := taken p
    rw [← List.singleton_append] at moved
    simp only [List.count_append] at same moved ⊢
    omega
  credits := h.credits
  sent p member := h.sent p (List.mem_of_mem_erase member)
  numbered := h.numbered

theorem Inv.retry (h : Inv s retried fresh) {skb : Nat} (there : skb ∈ s.inFlight) :
    Inv { s with
      txq := s.txq.addCredit.enqueue skb true
      inFlight := s.inFlight.erase skb
      returned := s.returned ++ [skb] } (retried ++ [skb]) fresh where
  list := by
    have nodup := h.nodup
    simp only [Txq.enqueue, Txq.addCredit, if_true, h.last, h.list]
    rw [List.append_assoc, List.append_assoc, List.nodup_append] at nodup
    cases last : retried.getLast? with
    | none =>
        rw [List.getLast?_eq_none_iff.mp last]
        rfl
    | some old =>
        obtain ⟨before, rfl⟩ := List.getLast?_eq_some_iff.mp last
        have first : old ∉ before := by
          intro there
          have both := List.nodup_append.mp nodup.1
          exact both.2.2 old there old (List.mem_singleton_self _) rfl
        simp only [List.append_assoc, List.singleton_append]
        exact skbAppend_last first
  pushed p member := by
    rcases List.mem_append.mp member with old | new
    · exact h.pushed p old
    · exact List.mem_singleton.mp new ▸ h.sent skb there
  new := h.new
  inOrder := by
    obtain ⟨gone, split⟩ := h.inOrder
    exact ⟨gone, by rw [← split, List.append_assoc]⟩
  counted := by
    show s.txq.nbRetry + 1 = _
    rw [h.counted, List.length_append, List.length_singleton]
  last := List.getLast?_concat.symm
  kept := by
    have kept := List.perm_iff_count.mp h.kept
    have taken := List.perm_iff_count.mp (List.perm_cons_erase there)
    rw [List.perm_iff_count]
    intro p
    have same := kept p
    have moved := taken p
    rw [← List.singleton_append] at moved
    simp only [List.count_append] at same moved ⊢
    omega
  credits few := by
    rw [List.length_append, List.length_singleton] at few ⊢
    have credits := h.credits (by omega)
    show (Int8.ofInt (s.txq.credits.toInt + 1)).toInt = _
    rw [Int8.toInt_ofInt_of_le (by omega) (by omega), credits]
    omega
  sent p member := h.sent p (List.mem_of_mem_erase member)
  numbered := h.numbered

/-- A round of pushes, which takes retries first. -/
theorem Inv.push (h : Inv s retried fresh) (n : Nat) :
    Inv { s with
      txq := Txq.countPush^[n] (s.txq.extract n)
      inFlight := s.inFlight ++ s.txq.skList.take n
      transmitted := s.transmitted ++ (s.txq.skList.take n).filter (· ∉ s.transmitted) }
      (retried.drop n) (fresh.drop (n - retried.length)) := by
  obtain ⟨list, credits, count, last⟩ := countPush_iterate (s.txq.extract n) n
  have nodup := h.nodup
  rw [List.append_assoc, List.append_assoc, List.nodup_append, List.nodup_append] at nodup
  have taken : s.txq.skList.take n = retried.take n ++ fresh.take (n - retried.length) := by
    rw [h.list, List.take_append]
  have first : (s.txq.skList.take n).filter (· ∉ s.transmitted) =
      fresh.take (n - retried.length) := by
    have none : (retried.take n).filter (· ∉ s.transmitted) = [] :=
      List.filter_eq_nil_iff.mpr fun p member => by
        simpa using h.pushed p (List.mem_of_mem_take member)
    rw [taken, List.filter_append, none, List.nil_append]
    exact List.filter_eq_self.mpr fun p member => by
      simpa using h.new p (List.mem_of_mem_take member)
  rw [first]
  constructor
  · show (Txq.countPush^[n] (s.txq.extract n)).skList = _
    rw [list]
    show s.txq.skList.drop n = _
    rw [h.list, List.drop_append]
  · intro p member
    exact List.mem_append_left _ (h.pushed p (List.mem_of_mem_drop member))
  · intro p member there
    rcases List.mem_append.mp there with old | new
    · exact h.new p (List.mem_of_mem_drop member) old
    · have apart := List.disjoint_take_drop nodup.2.1.1 (le_refl (n - retried.length))
      exact apart new member
  · exact (List.drop_suffix n retried).trans h.inOrder
  · show (Txq.countPush^[n] (s.txq.extract n)).nbRetry = _
    rw [count, List.length_drop]
    exact congrArg (· - n) h.counted
  · show (Txq.countPush^[n] (s.txq.extract n)).lastRetrySkb = _
    have counted : (s.txq.extract n).nbRetry = retried.length := h.counted
    have lastly : (s.txq.extract n).lastRetrySkb = retried.getLast? := h.last
    rw [last, counted, lastly, List.getLast?_drop]
    by_cases all : retried.length ≤ n
    · rw [if_pos all]
      cases retried with
      | nil => rfl
      | cons p ps => exact if_pos ⟨Nat.succ_ne_zero _, all⟩
    · rw [if_neg all, if_neg fun both => all both.2]
  · have kept := List.perm_iff_count.mp h.kept
    rw [taken, List.perm_iff_count]
    intro p
    have same := kept p
    have one := congrArg (List.count p) (List.take_append_drop n retried)
    have two := congrArg (List.count p) (List.take_append_drop (n - retried.length) fresh)
    simp only [List.count_append] at same one two ⊢
    omega
  · show _ → (Txq.countPush^[n] (s.txq.extract n)).credits.toInt = _
    rw [credits]
    exact h.credits
  · intro p member
    rcases List.mem_append.mp member with old | new
    · exact List.mem_append_left _ (h.sent p old)
    · rw [taken] at new
      rcases List.mem_append.mp new with retry | fresh
      · exact List.mem_append_left _ (h.pushed p (List.mem_of_mem_take retry))
      · exact List.mem_append_right _ fresh
  · intro p member
    rcases List.mem_append.mp member with old | new
    · exact h.numbered p old
    · exact h.below (List.mem_append_right _ (List.mem_of_mem_take new))

theorem Inv.step (h : Inv s retried fresh) {t : State} {e : Event} (taken : s.step e = some t) :
    ∃ retried fresh, Inv t retried fresh := by
  cases e with
  | enqueue =>
      cases taken
      exact ⟨_, _, h.enqueue⟩
  | limit n =>
      cases taken
      exact ⟨_, _, h.limit n⟩
  | push =>
      obtain ⟨_, taken⟩ := Option.ite_none_right_eq_some.mp taken
      cases taken
      exact ⟨_, _, h.push _⟩
  | done skb =>
      obtain ⟨there, taken⟩ := Option.ite_none_right_eq_some.mp taken
      cases taken
      exact ⟨_, _, h.done there⟩
  | retry skb =>
      obtain ⟨there, taken⟩ := Option.ite_none_right_eq_some.mp taken
      cases taken
      exact ⟨_, _, h.retry there⟩

/-- With credits, there is something to push. -/
theorem getSkbToPush_pos {t : Txq} (credits : 0 < t.credits.toInt)
    (fewer : t.getSkbToPush.1 < t.skList.length) : t.getSkbToPush.1 ≠ 0 := by
  have positive : 0 < t.getCredits := by
    unfold Txq.getCredits
    split <;> omega
  unfold Txq.getSkbToPush at fewer ⊢
  split at fewer
  · exact absurd fewer (Nat.lt_irrefl _)
  · rename_i more
    rw [if_neg more]
    dsimp only
    omega

/-- The links of the queue, split where the packets are. -/
theorem split_skList {n : Nat} (some : n ≠ 0) (fewer : n < s.txq.skList.length) {l : Links Node}
    (from_ : Ring l .skList (s.txq.skList.map .skb)) (to_ : Ring l .skListPush []) :
    Ring (skbQueueExtract l .skList .skListPush n) .skList ((s.txq.skList.drop n).map .skb) ∧
      Ring (skbQueueExtract l .skList .skListPush n) .skListPush
        ((s.txq.skList.take n).map .skb) := by
  have split : s.txq.skList.map Node.skb =
      (s.txq.skList.take n).map .skb ++ (s.txq.skList.drop n).map .skb := by
    rw [← List.map_append, List.take_append_drop]
  have length : ((s.txq.skList.take n).map Node.skb).length = n := by
    rw [List.length_map, List.length_take, Nat.min_eq_left (Nat.le_of_lt fewer)]
  have moving : (s.txq.skList.take n).map Node.skb ≠ [] := by
    intro none
    rw [none] at length
    exact some length.symm
  have apart : (Node.skList :: s.txq.skList.map Node.skb).Disjoint [Node.skListPush] := by
    rw [List.disjoint_singleton]
    simp
  rw [split] at from_ apart
  have rings := skbQueueExtract_rings from_ to_ apart moving
  rw [length] at rings
  exact rings

theorem Inv.sound (h : Inv s retried fresh) : Sound s where
  precede := by rw [h.retried_eq, h.fresh_eq, h.list]
  inOrder := h.retried_eq.symm ▸ h.inOrder
  counted := by rw [h.retried_eq, h.counted]
  last := by rw [h.retried_eq, h.last]
  kept := by
    rw [h.list]
    exact h.kept
  credits := h.credits
  extracts credits fewer _ from_ to_ :=
    split_skList (getSkbToPush_pos credits fewer) fewer from_ to_

end Steps

/-- However packets are queued, pushed and given back, the retries come first, in the order in
    which they were given back, and are counted, and no packet is lost or there twice. -/
theorem retries_sound (q : TxqId) (status : StopReason) (uapsd : Bool) (s : State)
    (run : Run.Reachable State.step Run.Free (init q status uapsd) s) : Sound s := by
  obtain ⟨retried, fresh, h⟩ : ∃ retried fresh, Inv s retried fresh :=
    run.invariant (fun s => ∃ retried fresh, Inv s retried fresh)
      ⟨[], [], .init q status uapsd⟩ fun _ _ _ ⟨_, _, h⟩ _ taken => h.step taken
  exact h.sound

/-- A packet is given back, and pushed again, before one that was pushed after it comes back. -/
theorem retries_sound_run : ∃ s : State,
    Run.exec State.step (init (.sta 0 0) .clear false) [.enqueue, .enqueue, .limit 1, .push,
      .limit 1, .push, .retry 0, .enqueue, .retry 1, .limit 1, .push] = some s ∧ Sound s := by
  have runs : (Run.exec State.step (init (.sta 0 0) .clear false) [.enqueue, .enqueue, .limit 1,
      .push, .limit 1, .push, .retry 0, .enqueue, .retry 1, .limit 1, .push]).isSome = true := by
    decide
  obtain ⟨s, run⟩ := Option.isSome_iff_exists.mp runs
  exact ⟨s, run, retries_sound _ _ _ s (.exec _ .init run)⟩

/-- Two packets come back in the order in which they were pushed. One of them was pushed again in
    between, and now waits behind the other. -/
theorem retries_reordered : ¬∀ (q : TxqId) (status : StopReason) (uapsd : Bool) (s : State),
    Run.Reachable State.step Run.Free (init q status uapsd) s → s.retried.Pairwise s.Before := by
  intro ordered
  have pair := ordered (.sta 0 0) .clear false _ (.exec
    [.enqueue, .enqueue, .push, .retry 0, .push, .retry 1, .retry 0] .init rfl)
  exact absurd pair (by decide)

end Aic8800.Sched.Retries
