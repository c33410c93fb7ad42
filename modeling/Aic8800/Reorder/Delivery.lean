import Aic8800.Reorder.Window
import Mathlib.Data.List.Chain

/-! # What a block delivers

The runs of one block under frames and timeouts, with a log of every frame: those
that came in time and those classified late, those passed to
`reord_single_frame_ind`, and those discarded because their number was already
pending. What that function gives to the network stack is a log of its own: of a
frame on an access point that was only sent on to the cell it gives nothing.
-/

namespace Aic8800.Reorder

open Lib Lib.Resequencer

/-- A discarded frame, with the list it was compared to. -/
structure Discard where
  frame : RecvMsdu
  pending : List RecvMsdu
  deriving DecidableEq

/-- The log of a block. `indicated` and `lateInd` are the frames passed to
    `reord_single_frame_ind`; `netif` is what it gives to `netif_receive_skb` for
    the frames in time, each buffer with its frame. -/
structure Delivery where
  ctrl : ReordCtrl
  onTime : List RecvMsdu
  indicated : List RecvMsdu
  netif : List (RecvMsdu × Skb)
  discarded : List Discard
  late : List RecvMsdu
  lateInd : List RecvMsdu
  deriving DecidableEq

inductive BlockEvent where
  | frame (f : RecvMsdu)
  | timeout
  deriving DecidableEq

theorem AllAt.chain {fs : List RecvMsdu} {ps : List Int} (all : AllAt fs ps)
    (sorted : ps.Pairwise (· < ·)) (spaced : ps.IsChain (fun p q => q - p ≤ 2048)) :
    fs.IsChain fun f g => snLess f.seqNum g.seqNum = true := by
  induction all with
  | nil => exact .nil
  | @cons f p fs ps here rest ih =>
      obtain ⟨ahead, tail⟩ := List.pairwise_cons.mp sorted
      cases rest with
      | nil => exact .singleton f
      | @cons g q gs qs next others =>
          obtain ⟨gap, spaced⟩ := List.isChain_cons_cons.mp spaced
          have before := ahead q (by simp)
          refine .cons_cons ?_ (ih tail spaced)
          rw [snLess_of_close here next (by omega) (by omega)]
          simpa using before

namespace Delivery

def start : Delivery := ⟨reordInitCtrl, [], [], [], [], [], []⟩

/-- What `reord_need_check` answers for a frame. -/
def isLate (c : ReordCtrl) (f : RecvMsdu) : Bool := (reordNeedCheck (reordReenable c) f.seqNum).2

section

variable (amsdu : Skb → List Skb)

/-- What calls of `reord_single_frame_ind` give to the network stack. -/
def handed (fs : List RecvMsdu) : List (RecvMsdu × Skb) :=
  fs.flatMap fun f => (reordSingleFrameInd amsdu f).netif.map (f, ·)

def step (s : Delivery) : BlockEvent → Option Delivery
  | .frame f =>
      let pass := reordProcessCtrl s.ctrl f
      if isLate s.ctrl f then
        some { s with ctrl := pass.ctrl, late := s.late ++ [f], lateInd := s.lateInd ++ pass.ind }
      else
        some { s with
          ctrl := pass.ctrl
          onTime := s.onTime ++ [f]
          indicated := s.indicated ++ pass.ind
          netif := s.netif ++ handed amsdu pass.ind
          discarded := s.discarded ++ pass.drop.map (⟨·, s.ctrl.reordList⟩) }
  | .timeout =>
      let pass := reordTimeoutWorker s.ctrl
      some { s with
        ctrl := pass.ctrl
        indicated := s.indicated ++ pass.ind
        netif := s.netif ++ handed amsdu pass.ind }

/-- The buffers of a frame that are for the network stack: on an access point the
    forward chain, unless the counts tell of a resend chain only; on a station the
    frame, or the parts of an A-MSDU. -/
def upward (f : RecvMsdu) : List Skb :=
  match f.isApReord, f.forward with
  | true, _ => if f.apResendCnt ≠ 0 ∧ f.apFwdCnt = 0 then [] else f.fwdSkbs
  | false, true => if f.isAmsdu then amsdu f.pkt else [f.pkt]
  | false, false => []

theorem singleFrameInd_netif (f : RecvMsdu) :
    (reordSingleFrameInd amsdu f).netif = upward amsdu f := by
  unfold reordSingleFrameInd upward
  cases ap : f.isApReord with
  | true =>
      by_cases resent : f.apResendCnt = 0
      · simp [resent]
      · by_cases none : f.apFwdCnt = 0 <;> simp [resent, none]
  | false =>
      cases up : f.forward with
      | true => cases split : f.isAmsdu <;> simp
      | false => simp

end

variable {amsdu : Skb → List Skb}

/-- Every frame that came in time is indicated, pending or discarded, the
    discarded ones met their number on the list, and the network stack has what
    the indicated ones have for it. -/
structure Conserved (amsdu : Skb → List Skb) (s : Delivery) : Prop where
  enabled : s.ctrl.enable = true
  accounted : s.onTime.Perm (s.indicated ++ s.ctrl.reordList ++ s.discarded.map (·.frame))
  netif : s.netif = handed amsdu s.indicated
  repeated : ∀ d ∈ s.discarded, ∃ g ∈ d.pending, snEqual g.seqNum d.frame.seqNum = true

private theorem perm_join {arrived out pending ind left gone : List RecvMsdu} {f : RecvMsdu}
    (before : arrived.Perm (out ++ pending ++ gone)) (pass : (ind ++ left).Perm (f :: pending)) :
    (arrived ++ [f]).Perm (out ++ ind ++ left ++ gone) := by
  rw [List.perm_iff_count] at before pass ⊢
  intro g
  have total := before g
  have moved := pass g
  simp only [List.count_append, List.count_cons, List.count_nil] at total moved ⊢
  omega

theorem handed_append (fs gs : List RecvMsdu) :
    handed amsdu (fs ++ gs) = handed amsdu fs ++ handed amsdu gs :=
  List.flatMap_append

theorem Conserved.step {s t : Delivery} (h : Conserved amsdu s) {e : BlockEvent}
    (taken : step amsdu s e = some t) : Conserved amsdu t := by
  cases e with
  | timeout =>
      obtain rfl := Option.some.inj taken
      have same := timeoutWorker_append s.ctrl
      refine ⟨(timeoutWorker_enable s.ctrl).trans h.enabled, ?_, ?_, h.repeated⟩
      · have before := h.accounted
        simp only [List.append_assoc] at before ⊢
        rw [← List.append_assoc (reordTimeoutWorker s.ctrl).ind, same]
        exact before
      · rw [handed_append, h.netif]
  | frame f =>
      have on := h.enabled
      have kept := (processLocked_enable s.ctrl f).trans on
      simp only [Delivery.step, isLate, processCtrl_enabled on, reenable_enabled on] at taken
      split at taken
      · rename_i late
        obtain rfl := Option.some.inj taken
        have list := processLocked_late late
        exact ⟨kept, by simpa only [list] using h.accounted, h.netif, h.repeated⟩
      · rename_i inTime
        obtain rfl := Option.some.inj taken
        rcases processLocked_conserve (by simpa using inTime) with
          ⟨drop, whole⟩ | ⟨drop, ind, list, repeated⟩
        · refine ⟨kept, ?_, by rw [handed_append, h.netif], by simpa [drop] using h.repeated⟩
          simp only [drop, List.map_nil, List.append_nil]
          exact perm_join h.accounted whole
        · refine ⟨kept, ?_, by rw [handed_append, h.netif], ?_⟩
          · simp only [drop, ind, list, List.append_nil, List.map_append, List.map_cons,
              List.map_nil]
            rw [← List.append_assoc]
            exact h.accounted.append_right _
          · intro d member
            simp only [drop, List.map_cons, List.map_nil] at member
            rcases List.mem_append.mp member with old | new
            · exact h.repeated d old
            · obtain rfl := List.mem_singleton.mp new
              exact repeated

/-- The indicated frames are the released stream of a buffer that the block tracks. -/
def Ordered (s : Delivery) : Prop :=
  (Fresh s.ctrl ∧ s.indicated = []) ∨
    ∃ b out, Tracks s.ctrl b ∧ AllAt s.indicated out ∧ History 2048 b out

theorem ordered_frame {c : ReordCtrl} {b : Buffer 64} {out : List Int} {indicated : List RecvMsdu}
    (t : Tracks c b) (all : AllAt indicated out) (past : History 2048 b out) {f : RecvMsdu}
    (inTime : (reordNeedCheck c f.seqNum).2 = false) :
    ∃ b' out', Tracks (reordProcessLocked c f).ctrl b' ∧
      AllAt (indicated ++ (reordProcessLocked c f).ind) out' ∧ History 2048 b' out' := by
  obtain ⟨p, here, low, high⟩ := t.located f
  by_cases behind : p < b.start
  · simp [t.needCheck_late here low behind] at inTime
  by_cases held : p ∈ b.held
  · rw [t.duplicate here held]
    exact ⟨b, out, t, by simpa using all, past⟩
  · obtain ⟨tracks, ind, -⟩ := t.accept here (by omega) high held
    exact ⟨_, _, tracks, List.rel_append all ind,
      past.accept held (by omega) high (by omega) (by omega)⟩

theorem Ordered.step {s t : Delivery} (on : s.ctrl.enable = true) (h : Ordered s) {e : BlockEvent}
    (taken : step amsdu s e = some t) : Ordered t := by
  cases e with
  | timeout =>
      obtain rfl := Option.some.inj taken
      rcases h with ⟨new, none⟩ | ⟨b, out, tracks, all, past⟩
      · refine .inl ?_
        simp only [worker_idle new.empty, none]
        exact ⟨new, rfl⟩
      · exact .inr ⟨_, _, tracks.expire.1, List.rel_append all tracks.expire.2.1, past.expire⟩
  | frame f =>
      simp only [Delivery.step, isLate, processCtrl_enabled on, reenable_enabled on] at taken
      rcases h with ⟨new, none⟩ | ⟨b, out, tracks, all, past⟩
      · have here : At f f.seqNum.val := by
          simp only [At]
          omega
        simp only [new.onTime f, Bool.false_eq_true, if_false] at taken
        obtain rfl := Option.some.inj taken
        have inTime := new.onTime f
        rw [new.needCheck f] at inTime
        simp only [none, new.process f]
        exact .inr (ordered_frame (new.tracks here) .nil (.empty 64 2048 _) inTime)
      · split at taken
        · rename_i late
          obtain rfl := Option.some.inj taken
          obtain ⟨p, here, low, behind⟩ := tracks.behind late
          have same : (reordProcessLocked s.ctrl f).ctrl = s.ctrl := by
            rw [tracks.late here low behind]
            split <;> rfl
          refine .inr ⟨b, out, ?_, all, past⟩
          rw [same]
          exact tracks
        · rename_i inTime
          obtain rfl := Option.some.inj taken
          exact .inr (ordered_frame tracks all past (by simpa using inTime))

theorem Ordered.chain {s : Delivery} (h : Ordered s) :
    s.indicated.IsChain fun f g => snLess f.seqNum g.seqNum = true := by
  rcases h with ⟨-, none⟩ | ⟨b, out, -, all, past⟩
  · rw [none]
    exact .nil
  · exact all.chain (List.pairwise_append.mp past.sorted).1 past.spaced.left_of_append

end Delivery

open Delivery in
/-- Over every run of frames and timeouts, the frames that were not late are
    indicated in increasing order around the ring, the network stack gets what
    they have for it in that order, and each of them is indicated, pending or
    discarded against a pending frame of its number, exactly once. -/
theorem delivery_in_order {amsdu : Skb → List Skb} {s : Delivery}
    (run : Run.Reachable (Delivery.step amsdu) Run.Free start s) :
    (s.indicated.IsChain fun f g => snLess f.seqNum g.seqNum = true) ∧
      (s.netif = s.indicated.flatMap fun f => (upward amsdu f).map (f, ·)) ∧
      s.onTime.Perm (s.indicated ++ s.ctrl.reordList ++ s.discarded.map (·.frame)) ∧
      ∀ d ∈ s.discarded, ∃ g ∈ d.pending, snEqual g.seqNum d.frame.seqNum = true := by
  obtain ⟨ordered, conserved⟩ : Ordered s ∧ Conserved amsdu s := by
    apply run.invariant fun s => Ordered s ∧ Conserved amsdu s
    · exact ⟨.inl ⟨.init, rfl⟩, rfl, .nil, rfl, by simp [start]⟩
    · intro s e t ⟨ordered, conserved⟩ _ taken
      exact ⟨ordered.step conserved.enabled taken, conserved.step taken⟩
  refine ⟨ordered.chain, ?_, conserved.accounted, conserved.repeated⟩
  rw [conserved.netif]
  simp only [handed, singleFrameInd_netif]

/-- A wrap, a window jump, a duplicate and a timeout. -/
def wrapRun : List BlockEvent :=
  [.frame (sampleFrame 0 4094), .frame (sampleFrame 1 1), .frame (sampleFrame 2 1),
    .frame (sampleFrame 3 0), .timeout, .frame (sampleFrame 4 70), .frame (sampleFrame 5 3)]

theorem delivery_in_order_wrap : ∃ s,
    Run.exec (Delivery.step fun _ => []) Delivery.start wrapRun = some s ∧
    s.netif.map (·.2.id) = [0, 3, 1] ∧ s.indicated.map (·.seqNum.val) = [4094, 0, 1] ∧
    s.discarded.map (·.frame.pkt.id) = [2] ∧ s.late.map (·.seqNum.val) = [3] ∧
    (s.indicated.IsChain fun f g => snLess f.seqNum g.seqNum = true) ∧
      (s.netif = s.indicated.flatMap fun f => (Delivery.upward (fun _ => []) f).map (f, ·)) ∧
      s.onTime.Perm (s.indicated ++ s.ctrl.reordList ++ s.discarded.map (·.frame)) ∧
      ∀ d ∈ s.discarded, ∃ g ∈ d.pending, snEqual g.seqNum d.frame.seqNum = true :=
  ⟨_, rfl, rfl, rfl, rfl, rfl, delivery_in_order (.exec wrapRun .init rfl)⟩

/-- A frame of an access point that holds one buffer, sent on to another station. -/
def resentFrame : RecvMsdu :=
  { sampleFrame 0 0 with
    forward := false, isApReord := true, apResendCnt := 1, resendSkbs := [⟨0, []⟩] }

/-- A frame that was only sent on is in time and is indicated, and the network
    stack gets nothing of it. -/
theorem resent_frame_not_handed : ¬ ∀ (amsdu : Skb → List Skb) (s : Delivery),
    Run.Reachable (Delivery.step amsdu) Run.Free Delivery.start s → ∀ f ∈ s.onTime,
      f ∈ s.netif.map Prod.fst ∨ f ∈ s.ctrl.reordList ∨ f ∈ s.discarded.map (·.frame) := by
  intro each
  have one := each (fun _ => []) _ (.exec [.frame resentFrame] .init rfl) resentFrame (by decide)
  exact absurd one (by decide)

end Aic8800.Reorder
