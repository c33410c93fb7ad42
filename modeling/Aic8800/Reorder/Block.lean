import Mathlib.Data.List.Basic

/-! # Receive reorder blocks

One `reord_ctrl` reorders the frames of one station and TID. The definitions
below are the parts of `rwnx_rx.c` that run on a single block, each under
`reord_list_lock`. `reord_single_frame_ind` hands a frame to the network stack;
a pass over a block records the frames it was called with, in order.
-/

namespace Aic8800.Reorder

/-- The top bit of a 12-bit difference, as the macro computes it on `int`. -/
def snLess (a b : Nat) : Bool := (BitVec.ofInt 32 ((a : Int) - b) &&& 0x800#32) != 0#32

def snEqual (a b : Nat) : Bool := a == b

/-- `AICWF_REORDER_WINSIZE` -/
def reorderWinsize : Nat := 64

/-- A socket buffer: an identity and the bytes from `data` on. -/
structure Skb where
  id : Nat
  data : List UInt8
  deriving Repr, DecidableEq

/-- A received MSDU. The sequence number comes from the 12-bit field of the
    802.11 header; the two chains are used on AP interfaces only. -/
structure RecvMsdu where
  pkt : Skb
  tid : Fin 8
  forward : Bool
  seqNum : Fin 4096
  isAmsdu : Bool
  isApReord : Bool
  apFwdCnt : Nat
  apResendCnt : Nat
  fwdSkbs : List Skb
  resendSkbs : List Skb
  deriving Repr, DecidableEq

/-- What `reord_single_frame_ind` does with a frame: the buffers it gives to
    `netif_receive_skb`, in order, and those it frees. -/
structure SingleInd where
  netif : List Skb
  freed : List Skb
  deriving Repr, DecidableEq

/-- `amsdu` splits an A-MSDU into its subframes, consuming the buffer. -/
def reordSingleFrameInd (amsdu : Skb → List Skb) (f : RecvMsdu) : SingleInd :=
  if f.isApReord then
    if f.apResendCnt ≠ 0 then
      if f.apFwdCnt = 0 then ⟨[], f.resendSkbs⟩ else ⟨f.fwdSkbs, f.resendSkbs⟩
    else ⟨f.fwdSkbs, []⟩
  else if !f.forward then ⟨[], [f.pkt]⟩
  else if f.isAmsdu then ⟨amsdu f.pkt, [f.pkt]⟩
  else ⟨[f.pkt], []⟩

/-- A `reord_ctrl`. The timer and the work item are kept as what the code asks
    about them: whether they are pending. -/
structure ReordCtrl where
  enable : Bool
  indSn : Nat
  wsizeB : Nat
  reordList : List RecvMsdu
  reordTimer : Bool
  reordTimerWork : Bool
  deriving Repr, DecidableEq

/-- A block as `reord_init_sta` sets it up. -/
def reordInitCtrl : ReordCtrl :=
  { enable := true, indSn := 0xffff, wsizeB := reorderWinsize, reordList := []
    reordTimer := false, reordTimerWork := false }

/-- The block after the call, and whether the frame is not to be reordered. -/
def reordNeedCheck (c : ReordCtrl) (seqNum : Nat) : ReordCtrl × Bool :=
  let wend := (c.indSn + c.wsizeB - 1) &&& 0xFFF
  -- 0xFFFF marks a block that has not seen a frame yet
  let indSn := if c.indSn = 0xFFFF then seqNum else c.indSn
  if snLess seqNum indSn then ({ c with indSn }, true)
  else if snEqual seqNum indSn then ({ c with indSn := (indSn + 1) &&& 0xFFF }, false)
  else if snLess wend seqNum then
    if c.wsizeB - 1 ≤ seqNum then ({ c with indSn := seqNum - (c.wsizeB - 1) }, false)
    else ({ c with indSn := 0xFFF - (c.wsizeB - (seqNum + 1)) + 1 }, false)
  else ({ c with indSn }, false)

/-- Link a frame before the first one it is not behind, unless one of its number
    is already there. -/
def linkFrame (f : RecvMsdu) : List RecvMsdu → Option (List RecvMsdu)
  | [] => some [f]
  | g :: gs =>
      if snLess g.seqNum f.seqNum then (linkFrame f gs).map (g :: ·)
      else if snEqual g.seqNum f.seqNum then none
      else some (f :: g :: gs)

def reordRxframeEnqueue (c : ReordCtrl) (f : RecvMsdu) : Option ReordCtrl :=
  (linkFrame f c.reordList).map fun list => { c with reordList := list }

/-- The loop of `reord_rxframes_process`: step over the numbers that are present
    and report whether a frame beyond a gap remains. -/
def passFrames (indSn : Nat) : List RecvMsdu → Nat × Bool
  | [] => (indSn, false)
  | g :: gs =>
      if !snLess indSn g.seqNum then
        passFrames (if snEqual indSn g.seqNum then (indSn + 1) &&& 0xFFF else indSn) gs
      else (indSn, true)

def reordRxframesProcess (c : ReordCtrl) (forced : Bool) : ReordCtrl × Bool :=
  match forced, c.reordList with
  | true, [] => (c, false)
  | true, f :: fs =>
      let (indSn, more) := passFrames f.seqNum (f :: fs)
      ({ c with indSn }, more)
  | false, list =>
      let (indSn, more) := passFrames c.indSn list
      ({ c with indSn }, more)

/-- The loop of `reord_rxframes_ind`: the frames it unlinks, and those left. -/
def popFrames (indSn : Nat) : List RecvMsdu → List RecvMsdu × List RecvMsdu
  | [] => ([], [])
  | g :: gs =>
      if !snLess indSn g.seqNum then
        let (popped, rest) := popFrames indSn gs
        (g :: popped, rest)
      else ([], g :: gs)

/-- What one pass over a block leaves: the block, the frames passed to
    `reord_single_frame_ind` in order, and the frames freed instead. -/
structure Pass where
  ctrl : ReordCtrl
  ind : List RecvMsdu
  drop : List RecvMsdu
  deriving Repr, DecidableEq

def reordRxframesInd (c : ReordCtrl) : Pass :=
  let (popped, rest) := popFrames c.indSn c.reordList
  ⟨{ c with reordList := rest }, popped, []⟩

/-- With the bus up; a work item that is already pending is not queued twice. -/
def reordTimeoutHandler (c : ReordCtrl) : ReordCtrl := { c with reordTimerWork := true }

def reordTimeoutWorker (c : ReordCtrl) : Pass :=
  let (c, more) := reordRxframesProcess c true
  reordRxframesInd (if more then { c with reordTimer := true } else c)

/-- Byte 42 of the frame, which the driver takes for the first byte of RTP. -/
def isRtp (f : RecvMsdu) : Bool := f.pkt.data[42]? == some 0x80

/-- The part of `reord_process_unit` that runs under `reord_list_lock` on an
    enabled block. -/
def reordProcessLocked (c : ReordCtrl) (f : RecvMsdu) : Pass :=
  match reordNeedCheck c f.seqNum with
  | (c, true) =>
      if isRtp f then
        if f.seqNum.val = c.indSn then ⟨c, [f], []⟩ else ⟨c, [], [f]⟩
      else ⟨c, [f], []⟩
  | (c, false) =>
      match reordRxframeEnqueue c f with
      | none => ⟨c, [], [f]⟩
      | some c =>
          let (c, more) := reordRxframesProcess c false
          -- armed when frames remain, unless it is counting down already; else disarmed
          reordRxframesInd { c with reordTimer := more }

/-- The reset of a disabled block, under `stas_reord_lock`. -/
def reordReenable (c : ReordCtrl) : ReordCtrl :=
  if c.enable then c
  else { c with enable := true, indSn := 0xffff, wsizeB := reorderWinsize }

/-- The part of `reord_process_unit` after the block has been found. The test of
    `enable` after the reset can only fail when a flush runs in between. -/
def reordProcessCtrl (c : ReordCtrl) (f : RecvMsdu) : Pass :=
  let c := reordReenable c
  if c.enable then reordProcessLocked c f
  else ⟨{ c with indSn := (f.seqNum + 1) % 4096 }, [f], []⟩

/-- The locked part of `reord_flush_tid`. -/
def reordFlushLocked (c : ReordCtrl) : Pass :=
  ⟨{ c with reordList := [], enable := false }, c.reordList, []⟩

/-- `reord_flush_tid` on the block it has found, run to its end. -/
def reordFlushCtrl (c : ReordCtrl) : Pass :=
  if c.enable then
    let pass := reordFlushLocked c
    { pass with ctrl := { pass.ctrl with reordTimer := false, reordTimerWork := false } }
  else ⟨c, [], []⟩

def sampleTid : Fin 8 := 0

/-- A plain data frame with a buffer of its own. -/
def sampleFrame (id n : Nat) : RecvMsdu :=
  { pkt := ⟨id, []⟩, tid := sampleTid, forward := true, seqNum := Fin.ofNat 4096 n
    isAmsdu := false, isApReord := false, apFwdCnt := 0, apResendCnt := 0, fwdSkbs := []
    resendSkbs := [] }

/-! ## What a pass does to the frames

No pass makes a frame up or forgets one: what arrives and what was pending is
afterwards handed up, freed or pending. None of this depends on the numbers.
-/

theorem linkFrame_perm {f : RecvMsdu} {fs gs : List RecvMsdu} (linked : linkFrame f fs = some gs) :
    gs.Perm (f :: fs) := by
  induction fs generalizing gs with
  | nil =>
      obtain rfl := Option.some.inj linked
      exact .refl _
  | cons g fs ih =>
      simp only [linkFrame] at linked
      split at linked
      · obtain ⟨rest, inner, rfl⟩ := Option.map_eq_some_iff.mp linked
        exact ((ih inner).cons g).trans (.swap f g fs)
      · split at linked
        · cases linked
        · obtain rfl := Option.some.inj linked
          exact .refl _

theorem linkFrame_none {f : RecvMsdu} {fs : List RecvMsdu} (refused : linkFrame f fs = none) :
    ∃ g ∈ fs, snEqual g.seqNum f.seqNum = true := by
  induction fs with
  | nil => cases refused
  | cons g fs ih =>
      simp only [linkFrame] at refused
      split at refused
      · obtain ⟨h, member, same⟩ := ih (Option.map_eq_none_iff.mp refused)
        exact ⟨h, List.mem_cons_of_mem _ member, same⟩
      · split at refused
        · exact ⟨g, by simp, ‹_›⟩
        · cases refused

theorem popFrames_append (indSn : Nat) (fs : List RecvMsdu) :
    (popFrames indSn fs).1 ++ (popFrames indSn fs).2 = fs := by
  induction fs with
  | nil => rfl
  | cons g gs ih =>
      simp only [popFrames]
      split
      · simp only [List.cons_append, ih]
      · rfl

@[simp] theorem rxframesInd_append (c : ReordCtrl) :
    (reordRxframesInd c).ind ++ (reordRxframesInd c).ctrl.reordList = c.reordList :=
  popFrames_append c.indSn c.reordList

@[simp] theorem rxframesInd_enable (c : ReordCtrl) :
    (reordRxframesInd c).ctrl.enable = c.enable := rfl

@[simp] theorem needCheck_list (c : ReordCtrl) (n : Nat) :
    (reordNeedCheck c n).1.reordList = c.reordList := by
  simp only [reordNeedCheck]
  repeat' split
  all_goals rfl

@[simp] theorem needCheck_enable (c : ReordCtrl) (n : Nat) :
    (reordNeedCheck c n).1.enable = c.enable := by
  simp only [reordNeedCheck]
  repeat' split
  all_goals rfl

theorem rxframesProcess_list (c : ReordCtrl) (forced : Bool) :
    (reordRxframesProcess c forced).1.reordList = c.reordList ∧
      (reordRxframesProcess c forced).1.enable = c.enable := by
  unfold reordRxframesProcess
  split <;> exact ⟨rfl, rfl⟩

theorem timeoutWorker_append (c : ReordCtrl) :
    (reordTimeoutWorker c).ind ++ (reordTimeoutWorker c).ctrl.reordList = c.reordList := by
  have kept := (rxframesProcess_list c true).1
  simp only [reordTimeoutWorker, rxframesInd_append]
  split <;> exact kept

theorem timeoutWorker_enable (c : ReordCtrl) :
    (reordTimeoutWorker c).ctrl.enable = c.enable := by
  have kept := (rxframesProcess_list c true).2
  simp only [reordTimeoutWorker, rxframesInd_enable]
  split <;> exact kept

theorem processLocked_enable (c : ReordCtrl) (f : RecvMsdu) :
    (reordProcessLocked c f).ctrl.enable = c.enable := by
  have checked := needCheck_enable c f.seqNum
  unfold reordProcessLocked
  split
  · rename_i d found
    rw [found] at checked
    repeat' split
    all_goals exact checked
  · rename_i d found
    rw [found] at checked
    split
    · exact checked
    · rename_i e linked
      obtain ⟨gs, -, rfl⟩ := Option.map_eq_some_iff.mp linked
      exact ((rxframesProcess_list _ false).2).trans checked

theorem reenable_enabled {c : ReordCtrl} (on : c.enable = true) : reordReenable c = c := by
  simp only [reordReenable, on, if_true]

theorem processCtrl_enabled {c : ReordCtrl} (on : c.enable = true) (f : RecvMsdu) :
    reordProcessCtrl c f = reordProcessLocked c f := by
  simp only [reordProcessCtrl, reenable_enabled on, on, if_true]

theorem processLocked_late {c : ReordCtrl} {f : RecvMsdu}
    (late : (reordNeedCheck c f.seqNum).2 = true) :
    (reordProcessLocked c f).ctrl.reordList = c.reordList := by
  have kept := needCheck_list c f.seqNum
  unfold reordProcessLocked
  split
  · rename_i d found
    rw [found] at kept
    repeat' split
    all_goals exact kept
  · rename_i d found
    simp [found] at late

/-- A frame that is not late either joins the pending ones or repeats one of them. -/
theorem processLocked_conserve {c : ReordCtrl} {f : RecvMsdu}
    (onTime : (reordNeedCheck c f.seqNum).2 = false) :
    ((reordProcessLocked c f).drop = [] ∧
        ((reordProcessLocked c f).ind ++ (reordProcessLocked c f).ctrl.reordList).Perm
          (f :: c.reordList)) ∨
      ((reordProcessLocked c f).drop = [f] ∧ (reordProcessLocked c f).ind = [] ∧
        (reordProcessLocked c f).ctrl.reordList = c.reordList ∧
        ∃ g ∈ c.reordList, snEqual g.seqNum f.seqNum = true) := by
  have kept := needCheck_list c f.seqNum
  unfold reordProcessLocked
  split
  · rename_i d found
    simp [found] at onTime
  · rename_i d found
    rw [found] at kept
    split
    · rename_i refused
      have repeated := linkFrame_none (Option.map_eq_none_iff.mp refused)
      rw [kept] at repeated
      exact .inr ⟨rfl, rfl, kept, repeated⟩
    · rename_i e linked
      obtain ⟨gs, inner, rfl⟩ := Option.map_eq_some_iff.mp linked
      have whole := linkFrame_perm inner
      rw [kept] at whole
      refine .inl ⟨rfl, ?_⟩
      rw [rxframesInd_append]
      simpa only [rxframesProcess_list] using whole

end Aic8800.Reorder
