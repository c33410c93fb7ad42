import Aic8800.Lib.Ledger
import Aic8800.Reorder.Stations
import Mathlib

/-! # The frames of the receive path

The driver has a fixed number of `recv_msdu` elements. A receive thread takes
one off the free queue for a data frame that is to be reordered and attaches the
buffers of the frame to it: the one buffer on a station, a chain of sub-frames to
hand up and a chain of those that were only sent on to the cell on an access
point. The element goes back when the frame has been indicated or dropped.

An element in use is known by the buffer in its `pkt` field, which no other
element has.
-/

namespace Aic8800.Reorder

open Lib

/-- `MAX_REORD_RXFRAME` -/
def maxReordRxframe : Nat := 250

/-- How the driver is done with a buffer. -/
inductive Fate where
  | delivered
  | freed
  deriving DecidableEq, Repr

/-! ## What is attached to a frame -/

/-- The buffers attached to a frame; on an access point `pkt` is one of them. -/
def attached (f : RecvMsdu) : List Nat :=
  if f.isApReord then (f.fwdSkbs ++ f.resendSkbs).map Skb.id else [f.pkt.id]

/-- What `reord_single_frame_ind` does with the attached buffers. The parts an
    A-MSDU is split into are new buffers. -/
def indFates (f : RecvMsdu) : List (Nat × Fate) :=
  let out := reordSingleFrameInd (fun _ => []) f
  out.netif.map (fun skb => (skb.id, .delivered)) ++ out.freed.map (fun skb => (skb.id, .freed))

/-- The other exits free the buffer in `pkt` and nothing else. -/
def dropFate (f : RecvMsdu) : Nat × Fate := (f.pkt.id, .freed)

/-- An MSDU as `rwnx_rxdataind_aicwf` sees it: its header, its bytes, and whether
    the receiver is a station of the cell. -/
structure Msdu where
  eh : EthHdr
  data : List UInt8
  inBss : Bool

/-- A unicast MSDU to a station of the cell is only sent on; every other one is
    for the upper layer. -/
def Msdu.forward (m : Msdu) : Bool := m.eh.hDest.isGroup || !m.inBss

/-- The chains of sub-frames, with buffers numbered from `first`. -/
def chains (first : Nat) : List Msdu → List Skb × List Skb
  | [] => ([], [])
  | m :: rest =>
      let (fwd, resend) := chains (first + 1) rest
      if m.forward then (⟨first, m.data⟩ :: fwd, resend) else (fwd, ⟨first, m.data⟩ :: resend)

/-- A received data frame: the MSDU it carries, or the sub-frames it is split
    into on an access point. -/
structure RxData where
  isQos : Bool
  needReord : Bool
  isAmsdu : Bool
  tid : Fin 8
  seqNum : Fin 4096
  skb : Msdu
  msdus : List Msdu

/-- The frame a station makes of a data frame. -/
def stationFrame (d : RxData) (first : Nat) : RecvMsdu where
  pkt := ⟨first, d.skb.data⟩
  tid := d.tid
  forward := true
  seqNum := d.seqNum
  isAmsdu := d.isAmsdu
  isApReord := false
  apFwdCnt := 0
  apResendCnt := 0
  fwdSkbs := []
  resendSkbs := []

/-- The frame an access point makes of the sub-frames, of which `last` is the last
    one. The counts are bytes. -/
def apFrame (d : RxData) (last : Msdu) (first : Nat) : RecvMsdu where
  pkt := ⟨first + (d.msdus.length - 1), last.data⟩
  tid := d.tid
  forward := false
  seqNum := d.seqNum
  isAmsdu := false
  isApReord := true
  apFwdCnt := (chains first d.msdus).1.length % 256
  apResendCnt := (chains first d.msdus).2.length % 256
  fwdSkbs := (chains first d.msdus).1
  resendSkbs := (chains first d.msdus).2

/-! ## The pool -/

/-- The free queue and the buffers. `given` tells which element each buffer in a
    `pkt` field was put into; `skbs` numbers the buffers. -/
structure RxPool where
  rxframesFreequeue : List Nat
  given : List (Nat × Nat)
  skbs : Ledger Fate

namespace RxPool

/-- The element of a frame, and no element at all for a frame that has none. -/
def element (p : RxPool) (f : RecvMsdu) : Nat := (p.given.lookup f.pkt.id).getD maxReordRxframe

def init : RxPool where
  rxframesFreequeue := (List.range maxReordRxframe).reverse
  given := []
  skbs := .empty

/-- `reord_rxframe_alloc` for a frame with `count` buffers. Without an element the
    buffer in hand is freed before anything is attached. -/
def attach (p : RxPool) (f : RecvMsdu) (count : Nat) : Option RxPool :=
  match p.rxframesFreequeue with
  | [] => none
  | e :: rest => some ⟨rest, (f.pkt.id, e) :: p.given, p.skbs.issues count⟩

/-- Frames are indicated or dropped, and `reord_rxframe_free` puts their elements
    to the front of the free queue. -/
def release (p : RxPool) (ind drop : List RecvMsdu) : RxPool :=
  { p with
    rxframesFreequeue := ((ind ++ drop).map p.element).reverse ++ p.rxframesFreequeue
    skbs := p.skbs.settles (ind.flatMap indFates ++ drop.map dropFate) }

/-- Every element is in the free queue or belongs to one of the frames, and every
    buffer that was attached is attached to one of them or was delivered or freed
    once. -/
structure Conserved (p : RxPool) (frames : List RecvMsdu) : Prop where
  elements : (p.rxframesFreequeue ++ frames.map p.element).Perm (List.range maxReordRxframe)
  skbs : p.skbs.Accounts (frames.flatMap attached)

theorem Conserved.perm {p : RxPool} {frames other : List RecvMsdu} (h : p.Conserved frames)
    (same : frames.Perm other) : p.Conserved other where
  elements := ((same.symm.map p.element).append_left _).trans h.elements
  skbs := h.skbs.perm (same.flatMap_right attached)

end RxPool

/-! ## What moves the frames of a block

Each pass sorts the frames it is given and those that were pending into indicated,
dropped and pending ones.
-/

theorem processLocked_late_out {c : ReordCtrl} {f : RecvMsdu}
    (late : (reordNeedCheck c f.seqNum).2 = true) :
    (reordProcessLocked c f).ind ++ (reordProcessLocked c f).drop = [f] := by
  unfold reordProcessLocked
  split
  · repeat' split
    all_goals rfl
  · rename_i d found
    simp [found] at late

theorem processLocked_perm (c : ReordCtrl) (f : RecvMsdu) :
    ((reordProcessLocked c f).ind ++ (reordProcessLocked c f).drop ++
      (reordProcessLocked c f).ctrl.reordList).Perm (f :: c.reordList) := by
  cases late : (reordNeedCheck c f.seqNum).2 with
  | true => rw [processLocked_late_out late, processLocked_late late, List.singleton_append]
  | false =>
      cases processLocked_conserve late with
      | inl kept =>
          rw [kept.1, List.append_nil]
          exact kept.2
      | inr refused =>
          obtain ⟨dropped, none, same, -⟩ := refused
          rw [dropped, none, same, List.nil_append, List.singleton_append]

/-- The first pending frame that is not before a frame has its number. -/
def repeats (f : RecvMsdu) : List RecvMsdu → Bool
  | [] => false
  | g :: gs => if snLess g.seqNum f.seqNum then repeats f gs else snEqual g.seqNum f.seqNum

/-- The block does not take the frame: it is a late RTP frame, or it repeats a
    pending one. -/
def ReordCtrl.refuses (c : ReordCtrl) (f : RecvMsdu) : Bool :=
  let (d, late) := reordNeedCheck c f.seqNum
  if late then isRtp f && f.seqNum.val != d.indSn else repeats f c.reordList

theorem linkFrame_repeats (f : RecvMsdu) (fs : List RecvMsdu) :
    (linkFrame f fs).isNone = repeats f fs := by
  induction fs with
  | nil => rfl
  | cons g gs ih =>
      simp only [linkFrame, repeats]
      split
      · rw [Option.isNone_map, ih]
      · cases same : snEqual g.seqNum f.seqNum <;> simp

/-- A block drops exactly the frames it refuses. -/
theorem processLocked_drop (c : ReordCtrl) (f : RecvMsdu) :
    (reordProcessLocked c f).drop = if c.refuses f then [f] else [] := by
  have kept := needCheck_list c f.seqNum
  have search := linkFrame_repeats f c.reordList
  simp only [reordProcessLocked, ReordCtrl.refuses]
  split
  · rename_i d found
    simp only [found, if_true]
    split
    · rename_i rtp
      by_cases next : f.seqNum.val = d.indSn
      · simp [rtp, next]
      · simp [rtp, next]
    · rename_i plain
      simp [plain]
  · rename_i d found
    rw [found] at kept
    simp only [found, Bool.false_eq_true, if_false]
    split
    · rename_i refused
      have none := Option.map_eq_none_iff.mp refused
      rw [kept] at none
      rw [none] at search
      simp [← search]
    · rename_i e linked
      obtain ⟨gs, some, -⟩ := Option.map_eq_some_iff.mp linked
      rw [kept] at some
      rw [some] at search
      simp [← search, reordRxframesInd]

/-! ## The buffers of a frame -/

/-- The frame has no buffer besides the one in `pkt`. -/
def Single (f : RecvMsdu) : Prop := (attached f).length = 1

instance (f : RecvMsdu) : Decidable (Single f) := inferInstanceAs (Decidable (_ = _))

/-- A chain that is not empty is counted as one that is not empty, unless the
    frame has no chain to send on and all of it is handed up. -/
def CountsFit (f : RecvMsdu) : Prop :=
  (f.resendSkbs ≠ [] → f.apResendCnt ≠ 0) ∧
    (f.fwdSkbs ≠ [] → f.resendSkbs ≠ [] → f.apFwdCnt ≠ 0)

instance (f : RecvMsdu) : Decidable (CountsFit f) := inferInstanceAs (Decidable (_ ∧ _))

/-- A frame as the receive path builds it. -/
structure Framed (f : RecvMsdu) : Prop where
  pkt : f.pkt.id ∈ attached f
  noResend : f.resendSkbs = [] → f.apResendCnt = 0
  counts : f.isApReord = true → CountsFit f

/-- Indicating a frame is the end of every buffer attached to it. -/
theorem indFates_perm {f : RecvMsdu} (framed : Framed f) :
    ((indFates f).map Prod.fst).Perm (attached f) := by
  simp only [indFates, attached, reordSingleFrameInd]
  cases ap : f.isApReord with
  | false =>
      simp only [Bool.false_eq_true, ↓reduceIte]
      split
      · simp
      · split <;> simp
  | true =>
      obtain ⟨resends, fwds⟩ := framed.counts ap
      have noResend := framed.noResend
      simp only [↓reduceIte]
      split
      · rename_i counted
        split
        · -- nothing was counted as to be handed up, and nothing is
          rename_i none
          have noFwd : f.fwdSkbs = [] := by
            by_contra some
            exact fwds some (fun empty => counted (noResend empty)) none
          simp [noFwd, Function.comp_def]
        · simp [Function.comp_def]
      · rename_i zero
        have empty : f.resendSkbs = [] := by
          by_contra some
          exact resends some (not_not.mp zero)
        simp [empty, Function.comp_def]

theorem attached_single {f : RecvMsdu} (framed : Framed f) (single : Single f) :
    attached f = [f.pkt.id] := by
  obtain ⟨only, same⟩ := List.length_eq_one_iff.mp single
  have member := framed.pkt
  rw [same] at member ⊢
  rw [List.mem_singleton.mp member]

/-- The two chains number the sub-frames in order. -/
theorem chains_perm (first : Nat) (msdus : List Msdu) :
    (((chains first msdus).1 ++ (chains first msdus).2).map Skb.id).Perm
      (List.range' first msdus.length) := by
  induction msdus generalizing first with
  | nil => exact .refl _
  | cons m rest ih =>
      have later := (ih (first + 1)).cons first
      simp only [chains, List.length_cons, List.range'_succ]
      split
      · exact later
      · refine List.Perm.trans ?_ later
        simp only [List.map_append, List.map_cons]
        exact List.perm_middle

theorem attached_apFrame (d : RxData) (last : Msdu) (first : Nat) :
    (attached (apFrame d last first)).Perm (List.range' first d.msdus.length) :=
  chains_perm first d.msdus

theorem framed_apFrame {d : RxData} {last : Msdu} (first : Nat)
    (ends : d.msdus.getLast? = some last) (fit : CountsFit (apFrame d last first)) :
    Framed (apFrame d last first) where
  pkt := by
    have some : d.msdus ≠ [] := by
      intro empty
      rw [empty] at ends
      cases ends
    have long := List.length_pos_iff.mpr some
    apply (attached_apFrame d last first).mem_iff.mpr
    apply List.mem_range'_1.mpr
    simp only [apFrame]
    omega
  noResend := by
    intro empty
    simp only [apFrame] at empty ⊢
    rw [empty]
    rfl
  counts := fun _ => fit

theorem framed_stationFrame (d : RxData) (first : Nat) : Framed (stationFrame d first) where
  pkt := List.mem_singleton_self first
  noResend := fun _ => rfl
  counts := fun ap => nomatch ap

theorem attached_le_length {drop : List RecvMsdu} (some : ∀ f ∈ drop, 0 < (attached f).length) :
    drop.length ≤ (drop.flatMap attached).length := by
  induction drop with
  | nil => exact Nat.le_refl 0
  | cons f rest ih =>
      have first := some f List.mem_cons_self
      have later := ih fun g member => some g (List.mem_cons_of_mem f member)
      rw [List.flatMap_cons, List.length_append, List.length_cons]
      omega

theorem single_of_length {drop : List RecvMsdu} (some : ∀ f ∈ drop, 0 < (attached f).length)
    (few : (drop.flatMap attached).length ≤ drop.length) : ∀ f ∈ drop, Single f := by
  induction drop with
  | nil => exact fun f member => nomatch member
  | cons f rest ih =>
      have first := some f List.mem_cons_self
      have others := fun g member => some g (List.mem_cons_of_mem f member)
      have later := attached_le_length others
      rw [List.flatMap_cons, List.length_append, List.length_cons] at few
      have alone : Single f := by
        simp only [Single]
        omega
      exact List.forall_mem_cons.mpr ⟨alone, ih others (by omega)⟩

/-! ## Each operation on the pool -/

namespace RxPool

/-- The pool is conserved, and the frames in use are built as they should be. -/
structure Kept (p : RxPool) (frames : List RecvMsdu) : Prop where
  conserved : p.Conserved frames
  framed : ∀ f ∈ frames, Framed f

variable {p : RxPool} {frames other : List RecvMsdu}

theorem Kept.perm (h : p.Kept frames) (same : frames.Perm other) : p.Kept other :=
  ⟨h.conserved.perm same, fun f member => h.framed f (same.mem_iff.mpr member)⟩

theorem Kept.init : RxPool.init.Kept [] where
  conserved :=
    { elements := by
        simp only [RxPool.init, List.map_nil, List.append_nil]
        exact List.reverse_perm _
      skbs := Ledger.Accounts.empty }
  framed := fun _ member => nomatch member

/-- The buffer in `pkt` is one that was issued. -/
theorem Kept.pkt_lt (h : p.Kept frames) {f : RecvMsdu} (member : f ∈ frames) :
    f.pkt.id < p.skbs.issued :=
  h.conserved.skbs.lt_issued (List.mem_flatMap.mpr ⟨f, member, (h.framed f member).pkt⟩)

/-- Frames are indicated whole, and dropped only when they have one buffer. -/
theorem Kept.release (h : p.Kept frames) {ind drop : List RecvMsdu}
    (moved : (ind ++ drop ++ other).Perm frames) (single : ∀ f ∈ drop, Single f) :
    (p.release ind drop).Kept other where
  conserved :=
    { elements := by
        have elements := moved.map p.element
        rw [List.map_append] at elements
        have back := (List.reverse_perm ((ind ++ drop).map p.element)).append_right
          (p.rxframesFreequeue ++ other.map p.element)
        refine List.Perm.trans ?_ h.conserved.elements
        rw [← List.append_assoc] at back
        refine back.trans ?_
        rw [← List.append_assoc]
        refine (List.perm_append_comm.append_right _).trans ?_
        rw [List.append_assoc]
        exact elements.append_left _
      skbs := by
        apply Ledger.Accounts.settles
        refine h.conserved.skbs.perm ?_
        refine (moved.flatMap_right attached).symm.trans ?_
        rw [List.flatMap_append, List.flatMap_append, List.map_append, List.map_flatMap]
        have indicated : (ind.flatMap attached).Perm
            (ind.flatMap fun f => (indFates f).map Prod.fst) := by
          apply List.Perm.flatMap_left
          intro f member
          exact (indFates_perm (h.framed f (moved.subset (by simp [member])))).symm
        have dropped : drop.flatMap attached = (drop.map dropFate).map Prod.fst := by
          rw [List.map_map, List.map_eq_flatMap]
          apply List.flatMap_congr
          intro f member
          exact attached_single (h.framed f (moved.subset (by simp [member]))) (single f member)
        rw [dropped]
        exact (indicated.append_right _).append_right _ }
  framed := by
    intro f member
    exact h.framed f (moved.subset (List.mem_append_right _ member))

/-- Only frames of one buffer can be dropped without losing one. -/
theorem Kept.single_of_release (h : p.Kept frames) {ind drop : List RecvMsdu}
    (moved : (ind ++ drop ++ other).Perm frames) (after : (p.release ind drop).Conserved other) :
    ∀ f ∈ drop, Single f := by
  have framed : ∀ f ∈ ind ++ drop, Framed f := fun f member =>
    h.framed f (moved.subset (List.mem_append_left _ member))
  have before := h.conserved.skbs.length
  have later := after.skbs.length
  have sorted := (moved.flatMap_right attached).length_eq
  have indicated : (ind.flatMap attached).length = (ind.flatMap indFates).length := by
    rw [List.length_flatMap, List.length_flatMap]
    congr 1
    apply List.map_congr_left
    intro f member
    have same := (indFates_perm (framed f (List.mem_append_left _ member))).length_eq
    rw [List.length_map] at same
    exact same.symm
  apply single_of_length
  · intro f member
    exact List.length_pos_of_mem (framed f (List.mem_append_right _ member)).pkt
  · simp only [RxPool.release, Ledger.settles, List.flatMap_append, List.length_append,
      List.length_map] at before later sorted
    omega

/-- A new frame takes an element and as many new buffers as are attached to it. -/
theorem Kept.attach (h : p.Kept frames) {q : RxPool} {f : RecvMsdu} {count : Nat}
    (taken : p.attach f count = some q) (framed : Framed f)
    (buffers : (attached f).Perm (List.range' p.skbs.issued count)) : q.Kept (f :: frames) := by
  simp only [RxPool.attach] at taken
  split at taken
  · cases taken
  · rename_i e rest queue
    obtain rfl := Option.some.inj taken
    have elements := h.conserved.elements
    rw [queue] at elements
    -- the buffer in the new `pkt` is younger than those of the frames in use
    have young : p.skbs.issued ≤ f.pkt.id :=
      (List.mem_range'_1.mp (buffers.subset framed.pkt)).1
    have others : frames.map (RxPool.element
        ⟨rest, (f.pkt.id, e) :: p.given, p.skbs.issues count⟩) = frames.map p.element := by
      apply List.map_congr_left
      intro g member
      have old := h.pkt_lt member
      have apart : (g.pkt.id == f.pkt.id) = false := by
        simp only [beq_eq_false_iff_ne]
        omega
      simp only [RxPool.element, List.lookup_cons, apart]
    constructor
    · constructor
      · rw [List.map_cons, others]
        simp only [RxPool.element, List.lookup_cons, BEq.rfl, Option.getD_some]
        exact List.perm_middle.trans elements
      · refine (Ledger.Accounts.issues h.conserved.skbs count).perm ?_
        rw [List.flatMap_cons]
        exact buffers.symm.append_right _
    · exact List.forall_mem_cons.mpr ⟨framed, h.framed⟩

/-- An element that was free is free still unless it was the one taken. -/
theorem attach_free {q : RxPool} {f : RecvMsdu} {count e : Nat}
    (taken : p.attach f count = some q) (free : e ∈ p.rxframesFreequeue)
    (other : p.rxframesFreequeue.head? ≠ some e) : e ∈ q.rxframesFreequeue := by
  simp only [RxPool.attach] at taken
  split at taken
  · cases taken
  · rename_i first rest queue
    obtain rfl := Option.some.inj taken
    rw [queue] at free other
    rcases List.mem_cons.mp free with rfl | later
    · exact absurd rfl other
    · exact later

theorem release_free {e : Nat} (free : e ∈ p.rxframesFreequeue) (ind drop : List RecvMsdu) :
    e ∈ (p.release ind drop).rxframesFreequeue := List.mem_append_right _ free

/-- The element of an indicated frame is free. -/
theorem release_indicated {ind : List RecvMsdu} {f : RecvMsdu} (member : f ∈ ind)
    (drop : List RecvMsdu) : p.element f ∈ (p.release ind drop).rxframesFreequeue := by
  apply List.mem_append_left
  rw [List.mem_reverse]
  exact List.mem_map_of_mem (List.mem_append_left _ member)

end RxPool

end Aic8800.Reorder
