import Aic8800.Lib.Resequencer
import Aic8800.Lib.Serial
import Aic8800.Reorder.Block
import Mathlib.Data.Nat.Bitwise

/-! # Reorder blocks as resequencing buffers

A block tracks a resequencing buffer of width 64 when its 12-bit numbers are the
residues of the buffer's positions. As long as every position stays less than
half a ring away from the start, each pass over the block does what the buffer
does on the line: the wraps, the hand-written window arithmetic and the
comparison that is no order on the ring disappear here.
-/

namespace Aic8800.Reorder

open Lib Lib.Resequencer

theorem and_0xFFF (x : Nat) : x &&& 0xFFF = x % 4096 := Nat.and_two_pow_sub_one_eq_mod x 12

theorem snLess_iff (a b : Nat) : snLess a b = true ↔ Serial.Less 4096 a b := by
  have bit : (BitVec.ofInt 32 ((a : Int) - b) &&& 0x800#32).toNat
      = (((a : Int) - b) % 4294967296).toNat &&& 2 ^ 11 := by
    simp [BitVec.toNat_and, BitVec.toNat_ofInt]
  simp only [snLess, bne_iff_ne, ne_eq, ← BitVec.toNat_inj, bit, Nat.and_two_pow,
    Nat.testBit_eq_decide_div_mod_eq, Serial.Less, BitVec.toNat_ofNat]
  by_cases top : (((a : Int) - b) % 4294967296).toNat / 2 ^ 11 % 2 = 1
  · simp only [top, decide_true, Bool.toNat_true]
    omega
  · simp only [top, decide_false, Bool.toNat_false]
    omega

theorem snLess_of_close {a b : Nat} {p q : Int} (ha : (a : Int) = p % 4096)
    (hb : (b : Int) = q % 4096) (low : -2048 ≤ p - q) (high : p - q < 2048) :
    snLess a b = decide (p < q) := by
  rw [Bool.eq_iff_iff, snLess_iff, decide_eq_true_iff, ha, hb, Serial.less_mod_left,
    Serial.less_mod_right]
  exact Serial.less_iff_of_close (by omega) (by omega)

theorem snEqual_of_close {a b : Nat} {p q : Int} (ha : (a : Int) = p % 4096)
    (hb : (b : Int) = q % 4096) (low : -4096 < p - q) (high : p - q < 4096) :
    snEqual a b = decide (p = q) := by
  rw [Bool.eq_iff_iff, snEqual, beq_iff_eq, decide_eq_true_iff, ← Int.natCast_inj, ha, hb]
  exact Serial.mod_eq_iff_of_close low high

/-- A frame carries the residue of a position. -/
def At (f : RecvMsdu) (p : Int) : Prop := (f.seqNum.val : Int) = p % 4096

abbrev AllAt (fs : List RecvMsdu) (ps : List Int) : Prop := List.Forall₂ At fs ps

theorem AllAt.nil_iff {fs : List RecvMsdu} {ps : List Int} (all : AllAt fs ps) :
    fs ≠ [] ↔ ps ≠ [] := by
  cases all with
  | nil => simp
  | cons => simp

theorem linkFrame_new {f : RecvMsdu} {p : Int} {fs : List RecvMsdu} {ps : List Int}
    (all : AllAt fs ps) (here : At f p) (close : ∀ q ∈ ps, p - 2047 ≤ q ∧ q ≤ p + 2047)
    (new : p ∉ ps) : ∃ gs, linkFrame f fs = some gs ∧ AllAt gs (place p ps) := by
  induction all with
  | nil => exact ⟨[f], rfl, .cons here .nil⟩
  | @cons g q fs ps first rest ih =>
      have near := close q (by simp)
      obtain ⟨differ, absent⟩ := not_or.mp (List.mem_cons.not.mp new)
      simp only [linkFrame, snLess_of_close first here (by omega) (by omega),
        snEqual_of_close first here (by omega) (by omega)]
      by_cases before : q < p
      · obtain ⟨gs, linked, placed⟩ := ih (fun r member => close r (by simp [member])) absent
        refine ⟨g :: gs, by simp [before, linked], ?_⟩
        rw [place_cons_of_lt _ before]
        exact .cons first placed
      · refine ⟨f :: g :: fs, by simp [before, Ne.symm differ], ?_⟩
        rw [place_cons_of_gt _ (by omega)]
        exact .cons here (.cons first rest)

theorem linkFrame_duplicate {f : RecvMsdu} {p : Int} {fs : List RecvMsdu} {ps : List Int}
    (all : AllAt fs ps) (here : At f p) (close : ∀ q ∈ ps, p - 2047 ≤ q ∧ q ≤ p + 2047)
    (sorted : ps.Pairwise (· < ·)) (old : p ∈ ps) : linkFrame f fs = none := by
  induction all with
  | nil => simp at old
  | @cons g q fs ps first rest ih =>
      have near := close q (by simp)
      obtain ⟨ahead, tail⟩ := List.pairwise_cons.mp sorted
      simp only [linkFrame, snLess_of_close first here (by omega) (by omega),
        snEqual_of_close first here (by omega) (by omega)]
      rcases List.mem_cons.mp old with rfl | later
      · simp
      · have before := ahead p later
        simp [before, ih (fun r member => close r (by simp [member])) tail later]

/-- How far a list may lie around the point a sweep starts from. -/
def Around (x : Int) (ps : List Int) : Prop := ∀ q ∈ ps, x - 1983 ≤ q ∧ q < x + 64

theorem passFrames_advance {x : Int} {fs : List RecvMsdu} {ps : List Int} (all : AllAt fs ps)
    {indSn : Nat} (start : (indSn : Int) = x % 4096) (sorted : ps.Pairwise (· < ·))
    (around : Around x ps) :
    ((passFrames indSn fs).1 : Int) = advance x ps % 4096 ∧
      ((passFrames indSn fs).2 = true ↔ ps.dropWhile (· ≤ advance x ps) ≠ []) := by
  induction all generalizing x indSn with
  | nil => simp [passFrames, advance, start]
  | @cons g q fs ps first rest ih =>
      have near := around q (by simp)
      obtain ⟨ahead, tail⟩ := List.pairwise_cons.mp sorted
      have behind : Around x ps := fun r member => around r (by simp [member])
      simp only [passFrames, advance, snLess_of_close start first (by omega) (by omega),
        snEqual_of_close start first (by omega) (by omega)]
      rcases lt_trichotomy q x with before | same | after
      · have onward := le_advance x ps
        simp only [show ¬ x < q by omega, show x ≠ q by omega, show q ≠ x by omega,
          decide_false, Bool.not_false, if_true, if_false, Bool.false_eq_true]
        rw [List.dropWhile_cons_of_pos (by simpa using (by omega : q ≤ advance x ps))]
        exact ih start tail behind
      · subst same
        have onward := le_advance (q + 1) ps
        have next : (((indSn + 1) &&& 0xFFF : Nat) : Int) = (q + 1) % 4096 := by
          rw [and_0xFFF]
          omega
        simp only [lt_irrefl, decide_false, Bool.not_false, if_true, decide_true]
        rw [List.dropWhile_cons_of_pos (by simpa using (by omega : q ≤ advance (q + 1) ps))]
        apply ih next tail
        intro r member
        have low := ahead r member
        have high := around r (by simp [member])
        omega
      · have still : advance x ps = x :=
          advance_of_ahead fun r member => lt_trans after (ahead r member)
        simp only [after, show q ≠ x by omega, decide_true, Bool.not_true, if_false,
          Bool.false_eq_true, still]
        rw [List.dropWhile_cons_of_neg (by simpa using after)]
        simp [start]

theorem popFrames_split {y : Int} {fs : List RecvMsdu} {ps : List Int} (all : AllAt fs ps)
    {indSn : Nat} (start : (indSn : Int) = y % 4096)
    (close : ∀ q ∈ ps, y - 2047 ≤ q ∧ q ≤ y + 2048) :
    AllAt (popFrames indSn fs).1 (ps.takeWhile (· ≤ y)) ∧
      AllAt (popFrames indSn fs).2 (ps.dropWhile (· ≤ y)) := by
  induction all with
  | nil => exact ⟨.nil, .nil⟩
  | @cons g q fs ps first rest ih =>
      have near := close q (by simp)
      simp only [popFrames, snLess_of_close start first (by omega) (by omega)]
      by_cases beyond : y < q
      · simp only [beyond, decide_true, Bool.not_true, if_false, Bool.false_eq_true]
        rw [List.takeWhile_cons_of_neg (by simpa using beyond),
          List.dropWhile_cons_of_neg (by simpa using beyond)]
        exact ⟨.nil, .cons first rest⟩
      · obtain ⟨popped, left⟩ := ih fun r member => close r (by simp [member])
        simp only [beyond, decide_false, Bool.not_false, if_true]
        rw [List.takeWhile_cons_of_pos (by simpa using beyond),
          List.dropWhile_cons_of_pos (by simpa using beyond)]
        exact ⟨.cons first popped, left⟩

theorem worker_idle {c : ReordCtrl} (empty : c.reordList = []) :
    reordTimeoutWorker c = ⟨c, [], []⟩ := by
  cases c
  subst empty
  rfl

/-- A block tracks a buffer when its numbers are the residues of the positions. -/
structure Tracks (c : ReordCtrl) (b : Buffer 64) : Prop where
  indSn : (c.indSn : Int) = b.start % 4096
  wsizeB : c.wsizeB = 64
  held : AllAt c.reordList b.held

/-- A block that has not seen a frame since it was set up or reset. -/
structure Fresh (c : ReordCtrl) : Prop where
  indSn : c.indSn = 0xFFFF
  wsizeB : c.wsizeB = 64
  empty : c.reordList = []

namespace Tracks

variable {c : ReordCtrl} {b : Buffer 64} {f : RecvMsdu} {p : Int}

theorem indSn_lt (t : Tracks c b) : c.indSn < 4096 := by
  have := t.indSn
  omega

theorem needCheck_late (t : Tracks c b) (here : At f p) (low : b.start - 2048 ≤ p)
    (late : p < b.start) : reordNeedCheck c f.seqNum = (c, true) := by
  have seen : c.indSn ≠ 0xFFFF := by
    have := t.indSn_lt
    omega
  simp [reordNeedCheck, seen, snLess_of_close here t.indSn (by omega) (by omega), late]

theorem needCheck_window (t : Tracks c b) (here : At f p) (low : b.start ≤ p)
    (high : p < b.start + 2048) : ∃ n : Nat,
      reordNeedCheck c f.seqNum = ({ c with indSn := n }, false) ∧
      (n : Int) = (if p = b.start then b.start + 1 else b.target p) % 4096 := by
  have start := t.indSn
  have seen : c.indSn ≠ 0xFFFF := by
    have := t.indSn_lt
    omega
  have wend : (((c.indSn + 64 - 1) &&& 0xFFF : Nat) : Int) = (b.start + 63) % 4096 := by
    rw [and_0xFFF]
    omega
  simp only [reordNeedCheck, seen, if_false, t.wsizeB,
    snLess_of_close here start (by omega) (by omega), show ¬ p < b.start by omega,
    snEqual_of_close here start (by omega) (by omega),
    snLess_of_close wend here (by omega) (by omega), decide_false, Bool.false_eq_true,
    decide_eq_true_eq, Buffer.target]
  by_cases first : p = b.start
  · refine ⟨(c.indSn + 1) &&& 0xFFF, by simp [first], ?_⟩
    rw [and_0xFFF, if_pos first]
    omega
  · simp only [first, if_false]
    by_cases beyond : b.start + 63 < p
    · have number := here
      simp only [At] at number
      rw [max_eq_right (by omega)]
      by_cases wraps : 64 - 1 ≤ f.seqNum.val
      · exact ⟨f.seqNum - (64 - 1), by simp [beyond, wraps], by omega⟩
      · exact ⟨0xFFF - (64 - (f.seqNum + 1)) + 1, by simp [beyond, wraps], by omega⟩
    · exact ⟨c.indSn, by simp [beyond], by rw [max_eq_left (by omega)]; exact start⟩

/-- Releasing what a sweep passed over turns the block into the swept buffer. -/
theorem of_ind {x : Int} {ps : List Int} (sorted : ps.Pairwise (· < ·))
    (below : ∀ q ∈ ps, q < x + 64) (all : AllAt c.reordList ps)
    (moved : (c.indSn : Int) = advance x ps % 4096) (size : c.wsizeB = 64)
    (around : Around x ps) :
    Tracks (reordRxframesInd c).ctrl (Buffer.sweep x ps sorted below) ∧
      AllAt (reordRxframesInd c).ind (Buffer.swept x ps) := by
  have onward := le_advance x ps
  have short := advance_le (by omega : x ≤ x + 64) below
  obtain ⟨popped, left⟩ := popFrames_split all moved fun q member => by
    have := around q member
    omega
  exact ⟨⟨moved, size, left⟩, popped⟩

theorem around_target (low : b.start ≤ p) (high : p < b.start + 2048) :
    Around (b.target p) (place p b.held) := by
  intro q member
  refine ⟨?_, b.below_target p q member⟩
  simp only [Buffer.target]
  rcases mem_place.mp member with rfl | held
  · omega
  · have := b.ahead q held
    omega

/-- A frame of the window or beyond it: the buffer accepts its position. -/
theorem accept (t : Tracks c b) (here : At f p) (low : b.start ≤ p) (high : p < b.start + 2048)
    (new : p ∉ b.held) :
    Tracks (reordProcessLocked c f).ctrl (b.accept p new) ∧
      AllAt (reordProcessLocked c f).ind (b.accepted p) ∧
      (reordProcessLocked c f).drop = [] ∧
      ((reordProcessLocked c f).ctrl.reordTimer = true ↔
        (reordProcessLocked c f).ctrl.reordList ≠ []) := by
  obtain ⟨n, checked, number⟩ := t.needCheck_window here low high
  obtain ⟨gs, linked, placed⟩ := linkFrame_new t.held here (fun q member => by
    have := b.ahead q member
    omega) new
  have sorted := place_sorted b.sorted new
  have around := around_target low high
  have shifted : Around (if p = b.start then b.start + 1 else b.target p) (place p b.held) := by
    split
    · intro q member
      rcases mem_place.mp member with rfl | held
      · omega
      · have := b.ahead q held
        omega
    · exact around
  obtain ⟨moved, more⟩ := passFrames_advance placed number sorted shifted
  rw [b.advance_past_start p (by omega)] at moved more
  have pass : reordProcessLocked c f = reordRxframesInd { c with
      indSn := (passFrames n gs).1, reordList := gs, reordTimer := (passFrames n gs).2 } := by
    simp [reordProcessLocked, checked, reordRxframeEnqueue, linked, reordRxframesProcess]
  rw [pass]
  have result := of_ind (c := { c with
      indSn := (passFrames n gs).1, reordList := gs, reordTimer := (passFrames n gs).2 })
    sorted (b.below_target p) placed moved t.wsizeB around
  refine ⟨result.1, result.2, rfl, more.trans ?_⟩
  exact result.1.held.nil_iff.symm

/-- A second copy of a held position leaves the block as it was. -/
theorem duplicate (t : Tracks c b) (here : At f p) (old : p ∈ b.held) :
    reordProcessLocked c f = ⟨c, [], [f]⟩ := by
  have inside := b.ahead p old
  obtain ⟨n, checked, number⟩ := t.needCheck_window here (by omega) (by omega)
  have same : n = c.indSn := by
    have start := t.indSn
    rw [if_neg (by omega), Buffer.target, max_eq_left (by omega), ← start] at number
    exact_mod_cast number
  have refused := linkFrame_duplicate t.held here (fun q member => by
    have := b.ahead q member
    omega) b.sorted old
  simp [reordProcessLocked, checked, same, reordRxframeEnqueue, refused]

/-- A frame behind the start is handed up at once, or freed when it looks like RTP. -/
theorem late (t : Tracks c b) (here : At f p) (low : b.start - 2048 ≤ p) (behind : p < b.start) :
    reordProcessLocked c f = if isRtp f then ⟨c, [], [f]⟩ else ⟨c, [f], []⟩ := by
  have differ : f.seqNum.val ≠ c.indSn := by
    have start := t.indSn
    simp only [At] at here
    omega
  simp [reordProcessLocked, t.needCheck_late here low behind, differ]

theorem around_first {ps : List Int} (held : b.held = p :: ps) : Around p (p :: ps) := by
  intro q member
  refine ⟨?_, Buffer.below_first held q member⟩
  obtain ⟨ahead, -⟩ := List.pairwise_cons.mp (held ▸ b.sorted)
  rcases List.mem_cons.mp member with rfl | later
  · omega
  · have := ahead q later
    omega

/-- A timeout gives up on the first gap. -/
theorem expire (t : Tracks c b) :
    Tracks (reordTimeoutWorker c).ctrl b.expire ∧
      AllAt (reordTimeoutWorker c).ind b.expired ∧ (reordTimeoutWorker c).drop = [] ∧
      ((reordTimeoutWorker c).ctrl.reordList ≠ [] →
        (reordTimeoutWorker c).ctrl.reordTimer = true) := by
  cases held : b.held with
  | nil =>
      obtain ⟨same, none⟩ := Buffer.expire_nil held
      have empty : c.reordList = [] := by
        have all := t.held
        rw [held] at all
        exact List.forall₂_nil_right_iff.mp all
      rw [worker_idle empty, same, none]
      exact ⟨t, .nil, rfl, fun h => absurd empty h⟩
  | cons q qs =>
      obtain ⟨same, released⟩ := Buffer.expire_cons held
      have all := t.held
      rw [held] at all
      obtain ⟨g, gs, first, -, list⟩ := List.forall₂_cons_right_iff.mp all
      have around := around_first held
      obtain ⟨moved, more⟩ := passFrames_advance all first (held ▸ b.sorted) around
      rw [list] at moved more
      have pass : reordTimeoutWorker c = reordRxframesInd { c with
          indSn := (passFrames g.seqNum (g :: gs)).1
          reordTimer := if (passFrames g.seqNum (g :: gs)).2 then true else c.reordTimer } := by
        simp only [reordTimeoutWorker, reordRxframesProcess, list]
        split <;> simp_all
      rw [pass, same, released]
      have result := of_ind (c := { c with
          indSn := (passFrames g.seqNum (g :: gs)).1
          reordTimer := if (passFrames g.seqNum (g :: gs)).2 then true else c.reordTimer })
        (held ▸ b.sorted) (Buffer.below_first held) all moved t.wsizeB around
      refine ⟨result.1, result.2, rfl, fun left => ?_⟩
      have armed := more.mpr (result.1.held.nil_iff.mp left)
      simp [reordRxframesInd, armed]

end Tracks

namespace Fresh

variable {c : ReordCtrl}

theorem init : Fresh reordInitCtrl := ⟨rfl, rfl, rfl⟩

/-- The first frame of a block fixes where its window starts. -/
theorem tracks (new : Fresh c) {f : RecvMsdu} {p : Int} (here : At f p) :
    Tracks { c with indSn := f.seqNum } (Buffer.empty 64 p) :=
  ⟨here, new.wsizeB, by simp [new.empty, Buffer.empty]⟩

/-- A fresh block takes the first number for its own. -/
theorem needCheck (new : Fresh c) (f : RecvMsdu) :
    reordNeedCheck c f.seqNum = reordNeedCheck { c with indSn := f.seqNum } f.seqNum := by
  have apart : f.seqNum.val ≠ 0xFFFF := by
    have := f.seqNum.isLt
    omega
  have never : snLess f.seqNum f.seqNum = false := by
    rw [snLess_of_close (p := f.seqNum) (q := f.seqNum) (by omega) (by omega) (by omega) (by omega)]
    simp
  simp [reordNeedCheck, new.indSn, apart, never, snEqual]

theorem process (new : Fresh c) (f : RecvMsdu) :
    reordProcessLocked c f = reordProcessLocked { c with indSn := f.seqNum } f := by
  simp only [reordProcessLocked, new.needCheck f]

end Fresh

end Aic8800.Reorder
