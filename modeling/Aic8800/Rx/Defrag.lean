import Aic8800.Lib.Run
import Aic8800.Rx.Amsdu
import Aic8800.Rx.Entry
import Mathlib

/-! # Frames that are put together from fragments

A fragment with `MOREFRAG` opens an entry of `defrag_list`, with a buffer, or is appended to
the entry with its sequence number, its TID and its station; the last one completes the
frame. An entry that is not completed in time is dropped. An entry is opened only when
there is none under its key, so that the list is a map.

The list is under `defrag_lock`. Outside of it two things go on with a pointer to an entry:
the thread that has opened one sets its timer, and `defrag_timeout_cb` has the pointer from
the moment the timer runs off. Neither looks whether the entry is still there.
-/

namespace Aic8800.Rx.Defrag

open Lib

open Reorder (MacAddr)

/-- `hwvect.decr_status` -/
inductive DecrStatus where
  | unenc
  | wep
  | tkip
  | ccmp128
  | ccmp256
  | gcmp128
  | gcmp256
  | wapi
  deriving DecidableEq

/-- What is pulled off for the header of the encryption. -/
def DecrStatus.headerLen : DecrStatus → Nat
  | .ccmp128 | .tkip => 8
  | .wep => 4
  | .wapi => 18
  | _ => 0

/-- The room of the buffer that `__dev_alloc_skb` is asked for. -/
def defragSkbLen : Nat := 2000

/-- A frame with its decryption status. -/
structure Frag where
  bytes : FrameBytes
  decrStatus : DecrStatus
  deriving DecidableEq

/-- What an entry is found by. -/
structure Key where
  sn : Nat
  tid : Nat
  staIdx : UInt8
  deriving DecidableEq

namespace Frag

variable (p : Frag)

def hdrLen : Nat := (if p.bytes.isQos then 26 else 24) + if p.bytes.byte 1 / 128 = 1 then 4 else 0

def pullLen : Nat := p.hdrLen + 8 + p.decrStatus.headerLen

/-- `sta_idx` is that of the destination, or 0. -/
def key (hdr : HwRxhdr) : Key where
  sn := p.bytes.seqNum
  tid := p.bytes.tid
  staIdx := if hdr.dstIdx ≠ invalidSta then hdr.dstIdx else 0

/-- The skb when it is found out to be a fragment. -/
def skb : List UInt8 :=
  if p.bytes.isAmsdu then Amsdu.skbPull p.bytes (p.pullLen - 8) else p.bytes

/-- The source in the Ethernet header of a data frame. -/
def hSource : MacAddr :=
  if p.bytes.byte 1 % 4 = 1 then p.bytes.addr 10
  else if p.bytes.byte 1 % 4 = 2 then p.bytes.addr 16
  else Vector.replicate 6 0

/-- The Ethernet header, with the type from the LLC header. -/
def ethhdr : List UInt8 :=
  p.bytes.hDest.toList ++ p.hSource.toList ++
    [p.bytes.getD (p.pullLen - 2) 0, p.bytes.getD (p.pullLen - 1) 0]

/-- What is put into the buffer of a new entry. -/
def first : List UInt8 := p.ethhdr ++ Amsdu.skbPull p.skb p.pullLen

/-- The transmitter. -/
def addr2 : MacAddr := p.bytes.addr 10

/-- The part of a frame that a fragment carries. -/
def body : List UInt8 := p.bytes.drop (p.pullLen - 8)

end Frag

/-- An entry, where it was allocated, with the fragments that were put into its buffer. -/
structure DefragCtrlInfo where
  addr : Nat
  nextFn : Nat
  skb : List UInt8
  parts : List Frag
  deriving DecidableEq

/-- `skb_put` and the `memcpy` behind it. A length below zero is one of more than the buffer, and
    `skb_put` stops the system when the buffer is too small. -/
def DefragCtrlInfo.append (info : DefragCtrlInfo) (p : Frag) : Option DefragCtrlInfo :=
  if p.skb.length < p.pullLen - 8 ∨
      defragSkbLen < info.skb.length + (p.skb.length - (p.pullLen - 8)) then none
  else
    some { info with
      skb := info.skb ++ p.skb.drop (p.pullLen - 8), parts := info.parts ++ [p] }

/-- A pointer to an entry, with the key that the entry has for its whole life. -/
abbrev Ptr := Key × Nat

/-- The list, the number of entries so far, the pointers to the entries whose timer is still to
    be set, whose timer is set, and whose timer has run off; and what came of the fragments. -/
structure Hw where
  defragList : Key → Option DefragCtrlInfo
  addrs : Nat
  arming : List Ptr
  timers : List Ptr
  fired : List Ptr
  /-- The frames that were completed, with their fragments. -/
  reassembled : List (List UInt8 × List Frag)
  /-- A buffer was overrun, or an entry used that had been freed. -/
  oops : Bool

/-- What happens: a frame is received, where memory for an entry is there or not, and the
    interface is found or not; the timer of a new entry is set, behind the lock; a timer runs
    off; and `defrag_timeout_cb` gets the lock. -/
inductive Event where
  | receive (hdr : HwRxhdr) (p : Frag) (alloc vif : Bool)
  | arm (ptr : Ptr)
  | expire (ptr : Ptr)
  | timeout (ptr : Ptr)

namespace Hw

variable (s : Hw)

def set (k : Key) (info : Option DefragCtrlInfo) : Hw :=
  { s with defragList := Function.update s.defragList k info }

/-- The entry that is pointed to has not been freed. -/
def live (ptr : Ptr) : Bool := (s.defragList ptr.1).any fun info => info.addr == ptr.2

/-- The part of `rwnx_rxdataind_aicwf` that is about fragments, up to the end of `defrag_lock`.
    The last fragment deletes the timer if it is set, and frees the entry. -/
def receive (hdr : HwRxhdr) (p : Frag) (alloc vif : Bool) : Hw :=
  if hdr.upload && RxEnv.isFragment hdr p.bytes then
    match s.defragList (p.key hdr) with
    | some info =>
        if info.nextFn ≠ p.bytes.fragNum then s
        else
          match info.append p with
          | none => { s with oops := true }
          | some info =>
              if p.bytes.moreFrag then
                s.set (p.key hdr) (some { info with nextFn := info.nextFn + 1 })
              else if vif then
                { s.set (p.key hdr) none with
                  timers := s.timers.erase (p.key hdr, info.addr)
                  reassembled := (info.skb, info.parts) :: s.reassembled }
              else s.set (p.key hdr) (some info)
    | none =>
        if p.bytes.moreFrag && alloc then
          if defragSkbLen < p.first.length then { s with oops := true }
          else
            { s.set (p.key hdr) (some ⟨s.addrs, 1, p.first, [p]⟩) with
              addrs := s.addrs + 1
              arming := (p.key hdr, s.addrs) :: s.arming }
        else s
  else s

def step (e : Event) : Option Hw :=
  if s.oops then none
  else
    match e with
    | .receive hdr p alloc vif => some (s.receive hdr p alloc vif)
    | .arm ptr =>
        if ptr ∈ s.arming then
          some (if s.live ptr then
            { s with arming := s.arming.erase ptr, timers := ptr :: s.timers }
          else { s with oops := true })
        else none
    | .expire ptr =>
        if ptr ∈ s.timers then
          some { s with timers := s.timers.erase ptr, fired := ptr :: s.fired }
        else none
    | .timeout ptr =>
        if ptr ∈ s.fired then
          some (if s.live ptr then { s.set ptr.1 none with fired := s.fired.erase ptr }
          else { s with oops := true })
        else none

end Hw

def init : Hw := ⟨fun _ => none, 0, [], [], [], [], false⟩

/-! ## What is put together -/

/-- The frame that fragments make: the Ethernet header for the first, and what they carry. -/
def assemble : List Frag → List UInt8
  | [] => []
  | p :: rest => p.ethhdr ++ p.body.drop 8 ++ rest.flatMap Frag.body

/-- The fragments are numbered from 0 on, and are of one transmitter, one TID and one sequence
    number. -/
structure Series (parts : List Frag) : Prop where
  numbers : (parts.map fun p => p.bytes.fragNum) = List.range parts.length
  transmitter : ∀ p ∈ parts, ∀ q ∈ parts, p.addr2 = q.addr2
  tid : ∀ p ∈ parts, ∀ q ∈ parts, p.bytes.tid = q.bytes.tid
  sn : ∀ p ∈ parts, ∀ q ∈ parts, p.bytes.seqNum = q.bytes.seqNum

/-- What was put together is what the fragments of a series carry, nothing was put behind the end
    of a buffer, and no entry was used after it had been freed. -/
structure Sound (s : Hw) : Prop where
  frames : ∀ r ∈ s.reassembled, Series r.2 ∧ r.1 = assemble r.2
  room : ∀ k, ∀ info ∈ s.defragList k, info.skb.length ≤ defragSkbLen
  running : s.oops = false

/-- A fragment opens an entry well: it has the number 0, holds its headers, is not of an A-MSDU
    and fits into the buffer. -/
def Opens (p : Frag) : Prop :=
  p.bytes.fragNum = 0 ∧ p.bytes.isAmsdu = false ∧ p.pullLen ≤ p.bytes.length ∧
    14 + (p.bytes.length - p.pullLen) ≤ defragSkbLen

/-- A fragment that comes next in an entry goes on well: it is of the transmitter of the others,
    holds its headers, is not of an A-MSDU and fits behind the others; if it is the last
    one, the interface is found and the timer of the entry is set. -/
def Continues (info : DefragCtrlInfo) (p : Frag) (vif timer : Bool) : Prop :=
  (∀ q ∈ info.parts, q.addr2 = p.addr2) ∧ p.bytes.isAmsdu = false ∧
    p.pullLen - 8 ≤ p.bytes.length ∧
      info.skb.length + (p.bytes.length - (p.pullLen - 8)) ≤ defragSkbLen ∧
        (p.bytes.moreFrag = false → vif = true ∧ timer = true)

/-- The steps that keep the frames sound: a fragment opens its entry well, or goes on well. -/
def Kept (s : Hw) : Event → Prop
  | .receive hdr p alloc vif =>
      (hdr.upload && RxEnv.isFragment hdr p.bytes) = true →
        (∀ info ∈ s.defragList (p.key hdr), info.nextFn = p.bytes.fragNum →
          Continues info p vif (decide ((p.key hdr, info.addr) ∈ s.timers))) ∧
          (s.defragList (p.key hdr) = none → (p.bytes.moreFrag && alloc) = true → Opens p)
  | .arm _ | .expire _ | .timeout _ => True

/-! ## The invariant -/

/-- An entry holds the first fragments of a series, all with its key. -/
structure Partial (k : Key) (info : DefragCtrlInfo) : Prop where
  series : Series info.parts
  some : info.parts ≠ []
  next : info.nextFn = info.parts.length
  keyed : ∀ p ∈ info.parts, p.bytes.tid = k.tid ∧ p.bytes.seqNum = k.sn
  skb : info.skb = assemble info.parts
  room : info.skb.length ≤ defragSkbLen

/-- The pointers to entries outside of the list. -/
def Hw.pointers (s : Hw) : List Ptr := s.arming ++ s.timers ++ s.fired

/-- Each entry that is pointed to is there, and one thing is going on with it. -/
structure Pointing (s : Hw) : Prop where
  live : ∀ ptr ∈ s.pointers, ∃ info, s.defragList ptr.1 = some info ∧ info.addr = ptr.2
  once : s.pointers.Nodup

structure Inv (s : Hw) : Prop where
  entries : ∀ k, ∀ info ∈ s.defragList k, Partial k info
  pointing : Pointing s
  frames : ∀ r ∈ s.reassembled, Series r.2 ∧ r.1 = assemble r.2
  running : s.oops = false

theorem Inv.sound {s : Hw} (h : Inv s) : Sound s where
  frames := h.frames
  room := fun k info member => (h.entries k info member).room
  running := h.running

section Steps

variable {s : Hw} {hdr : HwRxhdr} {p : Frag} {info : DefragCtrlInfo} {alloc vif : Bool}

theorem assemble_snoc {parts : List Frag} (some : parts ≠ []) :
    assemble (parts ++ [p]) = assemble parts ++ p.body := by
  obtain ⟨q, rest, rfl⟩ := List.exists_cons_of_ne_nil some
  simp [assemble]

theorem Series.snoc {parts : List Frag} (h : Series parts)
    (number : p.bytes.fragNum = parts.length) (transmitter : ∀ q ∈ parts, q.addr2 = p.addr2)
    (tid : ∀ q ∈ parts, q.bytes.tid = p.bytes.tid)
    (sn : ∀ q ∈ parts, q.bytes.seqNum = p.bytes.seqNum) : Series (parts ++ [p]) := by
  have same : ∀ {α : Type} (f : Frag → α), (∀ a ∈ parts, ∀ b ∈ parts, f a = f b) →
      (∀ q ∈ parts, f q = f p) → ∀ a ∈ parts ++ [p], ∀ b ∈ parts ++ [p], f a = f b := by
    intro α f _ agree a first b second
    have last : ∀ q ∈ parts ++ [p], f q = f p := by
      intro q member
      rcases List.mem_append.mp member with earlier | last
      · exact agree q earlier
      · rw [List.mem_singleton.mp last]
    rw [last a first, last b second]
  constructor
  · rw [List.map_append, h.numbers, List.length_append, List.length_singleton, List.range_succ,
      List.map_singleton, number]
  · exact same Frag.addr2 h.transmitter transmitter
  · exact same (fun q => q.bytes.tid) h.tid tid
  · exact same (fun q => q.bytes.seqNum) h.sn sn

theorem skb_plain (plain : p.bytes.isAmsdu = false) : p.skb = p.bytes := by
  simp [Frag.skb, plain]

theorem length_ethhdr : p.ethhdr.length = 14 := by simp [Frag.ethhdr]

/-- What a fragment carries goes behind what is there, if it fits. -/
theorem append_plain (plain : p.bytes.isAmsdu = false) (whole : p.pullLen - 8 ≤ p.bytes.length)
    (fits : info.skb.length + (p.bytes.length - (p.pullLen - 8)) ≤ defragSkbLen) :
    info.append p =
      some { info with skb := info.skb ++ p.body, parts := info.parts ++ [p] } := by
  unfold DefragCtrlInfo.append
  rw [skb_plain plain, if_neg (by omega)]
  rfl

/-- An entry that a fragment was appended to, but for the number of the next one. -/
theorem Partial.append {k : Key} (h : Partial k info) (tid : p.bytes.tid = k.tid)
    (sn : p.bytes.seqNum = k.sn) (next : info.nextFn = p.bytes.fragNum)
    (transmitter : ∀ q ∈ info.parts, q.addr2 = p.addr2)
    (fits : info.skb.length + (p.bytes.length - (p.pullLen - 8)) ≤ defragSkbLen) :
    Partial k ⟨info.addr, info.nextFn + 1, info.skb ++ p.body, info.parts ++ [p]⟩ := by
  constructor
  · apply h.series.snoc _ transmitter
    · exact fun q member => (h.keyed q member).1.trans tid.symm
    · exact fun q member => (h.keyed q member).2.trans sn.symm
    · exact next.symm.trans h.next
  · simp
  · simp [h.next]
  · intro q member
    rcases List.mem_append.mp member with earlier | last
    · exact h.keyed q earlier
    · rw [List.mem_singleton.mp last]
      exact ⟨tid, sn⟩
  · rw [assemble_snoc h.some, h.skb]
  · rw [List.length_append, Frag.body, List.length_drop]
    exact fits

theorem Partial.first {k : Key} (addr : Nat) (tid : p.bytes.tid = k.tid) (sn : p.bytes.seqNum = k.sn)
    (number : p.bytes.fragNum = 0) (plain : p.bytes.isAmsdu = false)
    (whole : p.pullLen ≤ p.bytes.length)
    (fits : 14 + (p.bytes.length - p.pullLen) ≤ defragSkbLen) :
    p.first.length ≤ defragSkbLen ∧ Partial k ⟨addr, 1, p.first, [p]⟩ := by
  have eight : 8 ≤ p.pullLen := by
    unfold Frag.pullLen
    omega
  have bytes : p.first = p.ethhdr ++ p.bytes.drop p.pullLen := by
    rw [Frag.first, skb_plain plain, Amsdu.skbPull_drop whole]
  have room : p.first.length ≤ defragSkbLen := by
    rw [bytes, List.length_append, length_ethhdr, List.length_drop]
    exact fits
  refine ⟨room, ?_⟩
  constructor
  · constructor
    · simp [number]
    all_goals simp
  · simp
  · rfl
  · intro q member
    rw [List.mem_singleton.mp member]
    exact ⟨tid, sn⟩
  · rw [bytes]
    simp only [assemble, Frag.body, List.flatMap_nil, List.append_nil, List.drop_drop]
    rw [Nat.sub_add_cancel eight]
  · exact room

/-! ### Pointers -/

variable {t : Hw} {ptr : Ptr}

/-- A pointer goes from one hand to another. -/
theorem Pointing.moved (h : Pointing s) (list : t.defragList = s.defragList)
    (same : t.pointers.Perm s.pointers) : Pointing t where
  live := fun q member => list ▸ h.live q (same.mem_iff.mp member)
  once := same.nodup_iff.mpr h.once

/-- An entry is written to. -/
theorem Pointing.written {k : Key} {new : DefragCtrlInfo} (h : Pointing s)
    (there : s.defragList k = some info) (same : new.addr = info.addr) :
    Pointing (s.set k (some new)) where
  live := by
    intro q member
    obtain ⟨old, found, addr⟩ := h.live q member
    by_cases here : q.1 = k
    · rw [here, there] at found
      obtain rfl := Option.some.inj found
      exact ⟨new, by simp [Hw.set, here], same.trans addr⟩
    · exact ⟨old, by simp [Hw.set, here, found], addr⟩
  once := h.once

/-- An entry is opened, and nothing pointed to one under its key. -/
theorem Pointing.opened (ptr : Ptr) {new : DefragCtrlInfo} (h : Pointing s)
    (none : s.defragList ptr.1 = none)
    (list : t.defragList = Function.update s.defragList ptr.1 (some new)) (addr : new.addr = ptr.2)
    (pointers : t.pointers = ptr :: s.pointers) : Pointing t where
  live := by
    rw [pointers]
    refine List.forall_mem_cons.mpr ⟨⟨new, by simp [list], addr⟩, fun q member => ?_⟩
    obtain ⟨old, found, same⟩ := h.live q member
    have apart : q.1 ≠ ptr.1 := by
      intro here
      rw [here, none] at found
      cases found
    exact ⟨old, by rw [list, Function.update_of_ne apart, found], same⟩
  once := by
    rw [pointers]
    refine List.nodup_cons.mpr ⟨fun member => ?_, h.once⟩
    obtain ⟨old, found, -⟩ := h.live ptr member
    rw [none] at found
    cases found

/-- An entry is freed, and the one pointer to it is gone. -/
theorem Pointing.freed (h : Pointing s)
    (list : t.defragList = Function.update s.defragList ptr.1 none)
    (pointers : s.pointers.Perm (ptr :: t.pointers)) : Pointing t := by
  obtain ⟨absent, once⟩ := List.nodup_cons.mp (pointers.nodup_iff.mp h.once)
  obtain ⟨info, here, addr⟩ := h.live ptr (pointers.mem_iff.mpr List.mem_cons_self)
  refine ⟨fun q member => ?_, once⟩
  obtain ⟨other, there, same⟩ := h.live q (pointers.mem_iff.mpr (List.mem_cons_of_mem ptr member))
  have apart : q.1 ≠ ptr.1 := by
    intro key
    rw [key, here] at there
    obtain rfl := Option.some.inj there
    exact absent (Prod.ext key (same.symm.trans addr) ▸ member)
  exact ⟨other, by rw [list, Function.update_of_ne apart, there], same⟩

theorem Pointing.is_live (h : Pointing s) (ptr : Ptr) (member : ptr ∈ s.pointers) :
    s.live ptr = true := by
  obtain ⟨info, there, addr⟩ := h.live ptr member
  simp [Hw.live, there, addr]

/-! ### Each step -/

/-- What holds of the entries of a list after one of them was replaced. -/
theorem entries_set {k : Key} {entry : Option DefragCtrlInfo}
    (h : ∀ k, ∀ info ∈ s.defragList k, Partial k info) (holds : ∀ info ∈ entry, Partial k info) :
    ∀ k', ∀ info ∈ (s.set k entry).defragList k', Partial k' info := by
  intro k' info member
  by_cases same : k' = k
  · subst same
    simp only [Hw.set, Function.update_self] at member
    exact holds info member
  · simp only [Hw.set, Function.update_of_ne same] at member
    exact h k' info member

theorem Inv.receive (h : Inv s) (kept : Kept s (.receive hdr p alloc vif)) :
    Inv (s.receive hdr p alloc vif) := by
  unfold Hw.receive
  split
  · rename_i fragment
    have kept := kept fragment
    split
    · rename_i info there
      split
      · exact h
      · rename_i next
        have next := Decidable.not_not.mp next
        obtain ⟨transmitter, plain, whole, fits, last⟩ := kept.1 info there next
        have grown := (h.entries _ info there).append rfl rfl next transmitter fits
        rw [append_plain plain whole fits]
        simp only
        split
        · refine ⟨entries_set h.entries ?_, h.pointing.written there rfl, h.frames, h.running⟩
          exact fun info' same => Option.some.inj same ▸ grown
        · rename_i noMore
          obtain ⟨found, set⟩ := last (Bool.not_eq_true _ ▸ noMore)
          rw [if_pos found]
          have timer := List.perm_cons_erase (of_decide_eq_true set)
          have gone : s.pointers.Perm ((p.key hdr, info.addr) ::
              (s.arming ++ s.timers.erase (p.key hdr, info.addr) ++ s.fired)) := by
            simp only [Hw.pointers, List.append_assoc]
            refine ((timer.append_right _).append_left _).trans ?_
            exact List.perm_middle
          refine ⟨entries_set h.entries (by simp), h.pointing.freed ?_ gone, ?_, h.running⟩
          · rfl
          · exact List.forall_mem_cons.mpr ⟨⟨grown.series, grown.skb⟩, h.frames⟩
    · rename_i none
      split
      · rename_i opens
        obtain ⟨number, plain, whole, fits⟩ := kept.2 none opens
        obtain ⟨room, first⟩ :=
          Partial.first (k := p.key hdr) s.addrs rfl rfl number plain whole fits
        rw [if_neg (Nat.not_lt.mpr room)]
        refine ⟨entries_set h.entries fun info' same => Option.some.inj same ▸ first, ?_, h.frames,
          h.running⟩
        exact h.pointing.opened (p.key hdr, s.addrs) none rfl rfl rfl
      · exact h
  · exact h

end Steps

theorem inv_init : Inv init where
  entries := fun _ _ member => nomatch member
  pointing := ⟨by simp [Hw.pointers, init], List.nodup_nil⟩
  frames := by simp [init]
  running := rfl

/-- The pointers are there and each is used once, so that none is used too late. -/
theorem Inv.step {s t : Hw} {e : Event} (h : Inv s) (kept : Kept s e) (taken : s.step e = some t) :
    Inv t := by
  unfold Hw.step at taken
  rw [h.running, if_neg Bool.false_ne_true] at taken
  cases e with
  | receive hdr p alloc vif =>
      obtain rfl := Option.some.inj taken
      exact h.receive kept
  | arm ptr =>
      simp only [Option.ite_none_right_eq_some, Option.some.injEq] at taken
      obtain ⟨member, rfl⟩ := taken
      have live := h.pointing.is_live ptr (by simp [Hw.pointers, member])
      rw [if_pos live]
      refine ⟨h.entries, h.pointing.moved rfl ?_, h.frames, rfl⟩
      simp only [Hw.pointers, List.append_assoc, List.cons_append]
      refine List.perm_middle.trans ?_
      exact (List.perm_cons_erase member).symm.append_right _
  | expire ptr =>
      simp only [Option.ite_none_right_eq_some, Option.some.injEq] at taken
      obtain ⟨member, rfl⟩ := taken
      refine ⟨h.entries, h.pointing.moved rfl ?_, h.frames, rfl⟩
      simp only [Hw.pointers, List.append_assoc]
      refine (List.Perm.append_left _ ?_)
      refine List.perm_middle.trans ?_
      exact (List.perm_cons_erase member).symm.append_right _
  | timeout ptr =>
      simp only [Option.ite_none_right_eq_some, Option.some.injEq] at taken
      obtain ⟨member, rfl⟩ := taken
      have live := h.pointing.is_live ptr (by simp [Hw.pointers, member])
      rw [if_pos live]
      refine ⟨entries_set h.entries (by simp), h.pointing.freed rfl ?_, h.frames, h.running⟩
      simp only [Hw.pointers]
      exact ((List.perm_cons_erase member).append_left _).trans List.perm_middle

/-- In every run whose steps keep them so, the frames that are put together are sound. -/
theorem defrag_sound {s : Hw} (run : Run.Reachable Hw.step Kept init s) : Sound s := by
  have inv : Inv s := by
    apply run.invariant Inv inv_init
    intro s e t h kept taken
    exact h.step kept taken
  exact inv.sound

instance (p : Frag) : Decidable (Opens p) := inferInstanceAs (Decidable (_ ∧ _ ∧ _ ∧ _))

instance (info : DefragCtrlInfo) (p : Frag) (vif timer : Bool) :
    Decidable (Continues info p vif timer) :=
  inferInstanceAs (Decidable (_ ∧ _ ∧ _ ∧ _ ∧ (_ → _)))

instance (s : Hw) (e : Event) : Decidable (Kept s e) :=
  match e with
  | .receive hdr p _ _ =>
      inferInstanceAs
        (Decidable (_ → (∀ _ ∈ s.defragList (p.key hdr), _ → _) ∧ (_ = none → _ → _)))
  | .arm _ | .expire _ | .timeout _ => inferInstanceAs (Decidable True)

/-- A fragment with one byte behind its LLC header, from an access point. -/
def fragment (sender fn : UInt8) (more : Bool) : Frag where
  bytes :=
    [0x08, if more then 0x06 else 0x02, 0, 0] ++ [2, 0, 0, 0, 0, 1] ++ [2, 0, 0, 0, 0, sender] ++
      [2, 0, 0, 0, 0, 9] ++ [0x50 + fn, 0] ++ [0xAA, 0xAA, 3, 0, 0, 0, 8, 0] ++ [fn]
  decrStatus := .unenc

/-- The header of a frame for the station `dst`. -/
def header (dst : UInt8) : HwRxhdr :=
  ⟨false, true, false, false, false, 0, dst, dst⟩

/-- Two stations send at a time, the frame of one is not completed, and a fragment comes twice. -/
def defragRun : List Event :=
  [.receive (header 0) (fragment 2 0 true) true true, .arm (⟨5, 0, 0⟩, 0),
    .receive (header 1) (fragment 3 0 true) true true, .arm (⟨5, 0, 1⟩, 1),
    .receive (header 0) (fragment 2 1 true) true true, .expire (⟨5, 0, 1⟩, 1),
    .receive (header 0) (fragment 2 1 true) true true, .timeout (⟨5, 0, 1⟩, 1),
    .receive (header 0) (fragment 2 2 false) true true]

theorem defrag_sound_run : ∃ s, Run.exec Hw.step init defragRun = some s ∧
    s.reassembled.length = 1 ∧ Sound s := by
  have ends : (Run.exec Hw.step init defragRun).map (fun s => s.reassembled.length) = some 1 := by
    decide
  obtain ⟨s, run, one⟩ := Option.map_eq_some_iff.mp ends
  exact ⟨s, run, one, defrag_sound
    (Run.Reachable.exec_guarded (fun _ _ => of_decide_eq_true) _ .init run (by decide))⟩

/-- The first fragment is lost. The second one opens an entry, and is put in once more when it is
    repeated. -/
theorem lost_first_fragment : ¬ ∀ s : Hw, Run.Reachable Hw.step Run.Free init s → Sound s := by
  intro sound
  obtain ⟨s, run, wrong⟩ : ∃ s, Run.exec Hw.step init
      [.receive (header 0) (fragment 2 1 true) true true, .arm (⟨5, 0, 0⟩, 0),
        .receive (header 0) (fragment 2 1 true) true true,
        .receive (header 0) (fragment 2 2 false) true true] = some s ∧
      (s.reassembled.map fun r => r.2.map fun p => p.bytes.fragNum) = [[1, 1, 2]] := by
    refine ⟨_, rfl, ?_⟩
    decide
  have sound := sound s (.exec _ .init run)
  obtain ⟨r, rest, frames⟩ := List.exists_cons_of_ne_nil
    (show s.reassembled ≠ [] from fun none => by simp [none] at wrong)
  simp only [frames, List.map_cons, List.cons.injEq, List.map_eq_nil_iff] at wrong
  have numbers := (sound.frames r (frames ▸ List.mem_cons_self)).1.numbers
  rw [wrong.1, show r.2.length = 3 by simpa using congrArg List.length wrong.1] at numbers
  exact absurd numbers (by decide)

/-- The timer runs off, and the last fragment has the lock first: `defrag_timeout_cb` frees the
    entry, and the buffer with the frame, once more. -/
example : (Run.exec Hw.step init
    [.receive (header 0) (fragment 2 0 true) true true, .arm (⟨5, 0, 0⟩, 0),
      .expire (⟨5, 0, 0⟩, 0), .receive (header 0) (fragment 2 1 false) true true,
      .timeout (⟨5, 0, 0⟩, 0)]).map (fun s => (s.reassembled.length, s.oops)) = some (1, true) := by
  decide

end Aic8800.Rx.Defrag
