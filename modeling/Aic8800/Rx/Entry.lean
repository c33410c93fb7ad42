import Aic8800.Reorder.Removal
import Aic8800.Rx.Relay

/-! # What becomes of a received skb

`rwnx_rxdataind_aicwf` gets one skb for each frame from the device: the `hw_rxhdr`, then
the frame. On every path the skb should be freed, handed to the network stack or handed
to the reorder code, once, and not be read any more, nor the header in it. The model of
a path is the list of what it does with the skb, in order; the path ends where the code
follows a NULL pointer. What the reorder code does with a frame is in its own model.
-/

namespace Aic8800.Rx

open Reorder (MacAddr RxFrames)
open Lib

/-- `NX_VIRT_DEV_MAX` -/
def nxVirtDevMax : Nat := 4

/-- What is done with the skb, or with the header in it. -/
inductive Touch where
  | read
  | free
  | deliver
  | reorder
  deriving DecidableEq

/-- A frame that is being put together: the number of the frame, and the fragment that
    comes next. -/
structure DefragCtrlInfo where
  sn : Nat
  tid : Nat
  staIdx : UInt8
  nextFn : Nat

/-- The tables that the path reads, and what the allocations on it return: the room in
    front of the frame, `skb_copy_expand`, the two of the first fragment, and
    `reord_rxframe_alloc`. -/
structure RxEnv where
  vifTable : UInt8 → Option Vif
  staTable : UInt8 → Sta
  monitorVif : UInt8
  defragList : List DefragCtrlInfo
  headroom : Bool
  copied : Bool
  defragInfo : Bool
  defragSkb : Bool
  rxframe : Bool

/-- The bytes of a frame behind its header. -/
abbrev FrameBytes := List UInt8

namespace FrameBytes

def byte (f : FrameBytes) (i : Nat) : Nat := (f.getD i 0).toNat

def isData (f : FrameBytes) : Bool := f.byte 0 % 16 == 8

def isQos (f : FrameBytes) : Bool := f.isData && f.byte 0 / 128 == 1

def tid (f : FrameBytes) : Nat := if f.isQos then f.byte 24 % 16 else 0

def isAmsdu (f : FrameBytes) : Bool := f.isQos && f.byte 24 / 128 == 1

/-- `MAC_FCTRL_MOREFRAG` in the frame control. -/
def moreFrag (f : FrameBytes) : Bool := f.byte 1 / 4 % 2 == 1

def seqNum (f : FrameBytes) : Nat := f.byte 22 / 16 + 16 * f.byte 23

def fragNum (f : FrameBytes) : Nat := f.byte 22 % 16

/-- An address in the frame. -/
def addr (f : FrameBytes) (i : Nat) : MacAddr := Vector.ofFn fun k => f.getD (i + k) 0

/-- The destination in the Ethernet header that the code puts in front of the payload of
    a data frame; other frames keep what is there. -/
def hDest (f : FrameBytes) : MacAddr :=
  if !f.isData then f.addr 0
  else if f.byte 1 % 4 = 1 then f.addr 16
  else if f.byte 1 % 4 = 2 then f.addr 4
  else Vector.replicate 6 0

end FrameBytes

/-- The flag is set for data frames, and left as the device sent it for others. -/
def HwRxhdr.amsdu (hdr : HwRxhdr) (f : FrameBytes) : Bool := if f.isData then f.isAmsdu else hdr.isAmsdu

namespace RxEnv

variable (env : RxEnv) (hdr : HwRxhdr) (f : FrameBytes)

/-- `rwnx_rx_get_vif` -/
def getVif (idx : UInt8) : Option Vif :=
  if idx.toNat < nxVirtDevMax then (env.vifTable idx).filter Vif.up else none

/-- The part for monitor interfaces, and whether the path goes on behind it. A frame that
    is uploaded too would need a copy, which is not built in. -/
def monitor : List Touch × Bool :=
  if !hdr.isMonitorVif then ([], true)
  else
    match env.getVif env.monitorVif with
    | none => ([], true)
    | some vif =>
        if hdr.upload then ([.read], false)
        else if env.headroom then ([.read, if vif.iftype = .monitor then .deliver else .free], true)
        else if env.copied then ([.read, .free], true)
        else ([.read], false)

/-- The frame is treated as a fragment. -/
def isFragment : Bool := f.isData && !hdr.needReord && (f.moreFrag || f.fragNum != 0)

/-- The entry of the frame that a fragment belongs to. -/
def defragEntry : Option DefragCtrlInfo :=
  env.defragList.find? fun info =>
    info.sn == f.seqNum && info.tid == f.tid &&
      info.staIdx == (if hdr.dstIdx ≠ invalidSta then hdr.dstIdx else 0)

/-- The paths of a fragment that end with it; a last fragment without an entry goes on. -/
def fragment : Option (List Touch) :=
  if !isFragment hdr f then none
  else if f.moreFrag then
    match env.defragEntry hdr f with
    | some info => if info.nextFn ≠ f.fragNum then some [.free] else some [.read, .free]
    | none =>
        if !env.defragInfo || !env.defragSkb then some [.free] else some [.read, .free]
  else
    match env.defragEntry hdr f with
    | none => none
    | some info =>
        if info.nextFn ≠ f.fragNum then some [.free]
        else
          match env.getVif hdr.vifIdx with
          | none => some [.read, .free]
          -- `rwnx_rx_data_skb` reads the flags in the header of the skb that was freed
          | some _ => some [.read, .free, .read]

/-- The interface of a frame: that of its station, if the station is on another one. -/
def dataVif : Option Vif :=
  (env.getVif hdr.vifIdx).bind fun vif =>
    if hdr.staIdx ≠ invalidSta ∧ (env.staTable hdr.staIdx).vlanIdx ≠ vif.vifIndex then
      env.vifTable (env.staTable hdr.staIdx).vlanIdx
    else some vif

/-- The branch for stations. There `rwnx_rx_data_skb` hands up all parts of an A-MSDU, whose
    skb is freed when it is split; of another frame the skb itself is handed up, or
    freed by the caller. -/
def staBranch (vif : Vif) : List Touch :=
  if f.isQos && hdr.needReord then if env.rxframe then [.reorder] else [.free]
  else if hdr.amsdu f then [.read, .free]
  else
    match rxDataSkb vif env.staTable hdr [f.hDest] with
    | some [relay] => if relay.forward then [.read, .deliver] else [.read, .free]
    | _ => [.read]

/-- The branch for access points. -/
def apBranch (vif : Vif) : List Touch :=
  if hdr.amsdu f then [.read, .free]
  else
    let decision := apDecision vif env.staTable { hdr with isAmsdu := false } f.hDest
    (if decision.resend then [.read] else []) ++
      if f.isQos && hdr.needReord then if env.rxframe then [.reorder] else [.free]
      else if decision.forward then [.read, .deliver]
      else if f.isQos then [.read, .free]
      else [.free]

/-- A frame that is uploaded. -/
def upload : List Touch :=
  match env.fragment hdr f with
  | some touches => touches
  | none =>
      if hdr.is80211Mpdu then [.read, .free]
      else
        match env.dataVif hdr with
        | none => [.free]
        | some vif =>
            match vif.iftype with
            | .station | .p2pClient => .read :: env.staBranch hdr f vif
            | .ap | .p2pGo => .read :: env.apBranch hdr f vif
            | _ => [.read]

/-- `rwnx_rxdataind_aicwf` -/
def rxdataind : List Touch :=
  .read :: (env.monitor hdr).1 ++
    if (env.monitor hdr).2 && hdr.upload then .read :: env.upload hdr f else []

end RxEnv

/-! ## Consumed once -/

/-- The skb is freed or handed on once, and not touched any more. -/
def consumedOnce : List Touch → Bool
  | [] => false
  | .read :: rest => consumedOnce rest
  | _ :: rest => rest.isEmpty

theorem consumedOnce_iff {touches : List Touch} :
    consumedOnce touches = true ↔
      ∃ reads last, touches = reads ++ [last] ∧ (∀ t ∈ reads, t = .read) ∧ last ≠ .read := by
  constructor
  · intro once
    induction touches with
    | nil => cases once
    | cons t rest ih =>
        cases t with
        | read =>
            obtain ⟨reads, last, rfl, only, other⟩ := ih once
            refine ⟨.read :: reads, last, rfl, ?_, other⟩
            exact List.forall_mem_cons.mpr ⟨rfl, only⟩
        | free | deliver | reorder =>
            obtain rfl : rest = [] := List.isEmpty_iff.mp once
            exact ⟨[], _, rfl, List.forall_mem_nil _, by simp⟩
  · rintro ⟨reads, last, rfl, only, other⟩
    induction reads with
    | nil => cases last <;> first | rfl | exact absurd rfl other
    | cons t reads ih =>
        obtain ⟨rfl, others⟩ := List.forall_mem_cons.mp only
        exact ih others

@[simp] theorem consumedOnce_read (rest : List Touch) :
    consumedOnce (.read :: rest) = consumedOnce rest := rfl

section Paths

variable (env : RxEnv) (hdr : HwRxhdr) (f : FrameBytes)

namespace RxEnv

/-- The last fragment of a frame that is put together, for an interface that is there. -/
def Completes : Prop :=
  isFragment hdr f = true ∧ f.moreFrag = false ∧
    ∃ info, env.defragEntry hdr f = some info ∧ info.nextFn = f.fragNum ∧
      (env.getVif hdr.vifIdx).isSome = true

/-- A fragment that ends here: it is not the last one, or belongs to a frame. -/
def Collected : Prop :=
  isFragment hdr f = true ∧ (f.moreFrag = true ∨ (env.defragEntry hdr f).isSome = true)

/-- The frame is for an interface of a type that has no branch. -/
def Unserved : Prop :=
  ¬ env.Collected hdr f ∧ hdr.is80211Mpdu = false ∧
    ∃ vif, env.dataVif hdr = some vif ∧ vif.iftype ≠ .station ∧ vif.iftype ≠ .p2pClient ∧
      vif.iftype ≠ .ap ∧ vif.iftype ≠ .p2pGo

/-- An open monitor interface. -/
def Monitored : Prop := hdr.isMonitorVif = true ∧ (env.getVif env.monitorVif).isSome = true

/-- The frames whose skb is consumed once. What is not uploaded is for a monitor
    interface that is open, and there is room or memory for the radiotap header; what is
    uploaded is not for a monitor interface too, does not complete a frame of several
    fragments, and is for an interface of a type that has a branch. -/
def Accounted : Prop :=
  if hdr.upload then
    ¬ env.Monitored hdr ∧ ¬ env.Completes hdr f ∧ ¬ env.Unserved hdr f
  else env.Monitored hdr ∧ (env.headroom = true ∨ env.copied = true)

end RxEnv

end Paths

section Proofs

variable {env : RxEnv} {hdr : HwRxhdr} {f : FrameBytes}

namespace RxEnv

/-- A path of a fragment consumes the skb, unless it is the end of the whole frame. -/
theorem fragment_once {touches : List Touch} (ends : env.fragment hdr f = some touches) :
    env.Collected hdr f ∧ (consumedOnce touches = true ↔ ¬ env.Completes hdr f) := by
  unfold fragment at ends
  split at ends
  · cases ends
  · rename_i fragment
    have fragment : isFragment hdr f = true := by simpa using fragment
    split at ends
    · rename_i more
      have middle : ¬ env.Completes hdr f := by
        rintro ⟨_, last, _⟩
        rw [more] at last
        cases last
      refine ⟨⟨fragment, .inl more⟩, iff_of_true ?_ middle⟩
      split at ends <;> split at ends <;> cases ends <;> rfl
    · rename_i last
      have last : f.moreFrag = false := Bool.of_not_eq_true last
      split at ends
      · cases ends
      · rename_i info entry
        have known : (env.defragEntry hdr f).isSome = true := by rw [entry]; rfl
        refine ⟨⟨fragment, .inr known⟩, ?_⟩
        split at ends
        · rename_i gap
          cases ends
          refine iff_of_true rfl fun ⟨_, _, info', entry', next, _⟩ => gap ?_
          rw [entry] at entry'
          cases entry'
          exact next
        · rename_i next
          split at ends
          · rename_i gone
            cases ends
            refine iff_of_true rfl fun ⟨_, _, _, _, _, there⟩ => ?_
            rw [gone] at there
            cases there
          · rename_i vif there
            cases ends
            refine iff_of_false (by simp [consumedOnce]) (not_not.mpr ?_)
            exact ⟨fragment, last, info, entry, not_not.mp next, by rw [there]; rfl⟩

theorem fragment_of_collected (collected : env.Collected hdr f) :
    (env.fragment hdr f).isSome = true := by
  obtain ⟨fragment, how⟩ := collected
  unfold RxEnv.fragment
  rw [if_neg (by rw [fragment]; simp)]
  cases more : f.moreFrag with
  | true =>
      rw [if_pos rfl]
      split <;> split <;> rfl
  | false =>
      have known : (env.defragEntry hdr f).isSome = true :=
        how.resolve_left (by rw [more]; simp)
      obtain ⟨info, entry⟩ := Option.isSome_iff_exists.mp known
      rw [if_neg Bool.false_ne_true, entry]
      simp only
      split
      · rfl
      · split <;> rfl

theorem collected_of_completes (last : env.Completes hdr f) : env.Collected hdr f := by
  obtain ⟨fragment, _, info, entry, _⟩ := last
  exact ⟨fragment, .inr (by rw [entry]; rfl)⟩

/-- A frame that the branch for fragments leaves alone neither ends there nor completes
    one. -/
theorem fragment_none (goes : env.fragment hdr f = none) :
    ¬ env.Collected hdr f ∧ ¬ env.Completes hdr f := by
  have left : ¬ env.Collected hdr f := fun collected => by
    have some_ := fragment_of_collected collected
    rw [goes] at some_
    cases some_
  exact ⟨left, fun last => left (collected_of_completes last)⟩

theorem staBranch_once {vif : Vif} (client : vif.iftype = .station ∨ vif.iftype = .p2pClient) :
    consumedOnce (env.staBranch hdr f vif) = true := by
  unfold staBranch
  rw [rxDataSkb_client client]
  split
  · split <;> rfl
  · split <;> rfl

theorem apBranch_once (vif : Vif) : consumedOnce (env.apBranch hdr f vif) = true := by
  unfold apBranch
  split
  · rfl
  · simp only
    split <;> split <;> first | rfl | (split <;> first | rfl | (split <;> rfl))

/-- An uploaded frame is consumed once if it does not complete a frame of several
    fragments and its interface has a branch. -/
theorem upload_once :
    consumedOnce (env.upload hdr f) = true ↔ ¬ env.Completes hdr f ∧ ¬ env.Unserved hdr f := by
  unfold upload
  cases ends : env.fragment hdr f with
  | some touches =>
      obtain ⟨collected, once⟩ := fragment_once ends
      have served : ¬ env.Unserved hdr f := fun unserved => unserved.1 collected
      rw [once, and_iff_left served]
  | none =>
      obtain ⟨left, open_⟩ := fragment_none ends
      rw [and_iff_right open_]
      cases mpdu : hdr.is80211Mpdu with
      | true =>
          refine iff_of_true rfl fun unserved => ?_
          have data := unserved.2.1
          rw [mpdu] at data
          cases data
      | false =>
          simp only [Bool.false_eq_true, if_false]
          cases there : env.dataVif hdr with
          | none =>
              refine iff_of_true rfl fun ⟨_, _, vif, found, _⟩ => ?_
              rw [there] at found
              cases found
          | some vif =>
              have kinds : env.Unserved hdr f ↔ vif.iftype ≠ .station ∧ vif.iftype ≠ .p2pClient ∧
                  vif.iftype ≠ .ap ∧ vif.iftype ≠ .p2pGo := by
                constructor
                · rintro ⟨_, _, vif', found, kind⟩
                  rw [there] at found
                  cases found
                  exact kind
                · exact fun kind => ⟨left, mpdu, vif, there, kind⟩
              rw [kinds]
              cases iftype : vif.iftype with
              | station => simp [iftype, staBranch_once (.inl iftype)]
              | p2pClient => simp [iftype, staBranch_once (.inr iftype)]
              | ap | p2pGo => simp [iftype, apBranch_once]
              | apVlan | meshPoint | monitor | other => simp [iftype, consumedOnce]

/-- The part for monitor interfaces ends the path of an uploaded frame if one is open, and
    consumes another frame if there is one and room or memory for the radiotap header. -/
theorem rxdataind_once : consumedOnce (env.rxdataind hdr f) = true ↔ env.Accounted hdr f := by
  have monitored : env.Monitored hdr ↔
      hdr.isMonitorVif = true ∧ ∃ vif, env.getVif env.monitorVif = some vif := by
    rw [Monitored, Option.isSome_iff_exists]
  unfold rxdataind Accounted RxEnv.monitor
  rw [monitored]
  cases kind : hdr.isMonitorVif with
  | false => cases up : hdr.upload <;> simp [consumedOnce, upload_once]
  | true =>
      cases there : env.getVif env.monitorVif with
      | none => cases up : hdr.upload <;> simp [consumedOnce, upload_once]
      | some vif =>
          cases up : hdr.upload <;> cases room : env.headroom <;> cases memory : env.copied <;>
            by_cases type : vif.iftype = .monitor <;> simp [consumedOnce, type]

end RxEnv

end Proofs

/-- An skb from the device is freed or handed on as the last thing that is done with it,
    and with its header, exactly if the frame is one of those accounted for. What is
    handed to the reorder code is then in its lists, or was released once. -/
theorem skb_consumed (env : RxEnv) (hdr : HwRxhdr) (f : FrameBytes) :
    ((∃ reads last, env.rxdataind hdr f = reads ++ [last] ∧ (∀ t ∈ reads, t = .read) ∧
        last ≠ .read) ↔ env.Accounted hdr f) ∧
    ∀ c, Run.Reachable RxFrames.program.step RxFrames.Guard ⟨RxFrames.init, []⟩ c →
      RxFrames.Conserved c := by
  constructor
  · rw [← consumedOnce_iff]
    exact RxEnv.rxdataind_once
  · intro c run
    exact (RxFrames.framesProof_invariant run).1.kept.conserved

section Station

/-- A station interface, and one frame of which the first fragment was received. -/
def stationEnv : RxEnv where
  vifTable idx := if idx = 0 then some ⟨0, .station, true, false, []⟩ else none
  staTable := stations
  monitorVif := 0xFF
  defragList := [⟨7, 0, 0, 1⟩]
  headroom := true
  copied := true
  defragInfo := true
  defragSkb := true
  rxframe := true

/-- A data frame from an access point, with a sequence control. -/
def dataFrame (control : UInt8) : FrameBytes :=
  [0x08, 0x02] ++ List.replicate 20 0 ++ [control, 0]

/-- A frame that is accounted for, and two that the reorder code has got: the first was
    handed up, the second is pending with both of its buffers. -/
theorem skb_consumed_data :
    (∃ reads last, stationEnv.rxdataind (dataHdr false 0xFF) (dataFrame 0x70) = reads ++ [last] ∧
      (∀ t ∈ reads, t = .read) ∧ last ≠ .read) ∧
    ∃ c : RxFrames.RxConfig, c.shared.pool.skbs.settled = [(0, .delivered)] ∧
      (RxFrames.frames c).flatMap Reorder.attached = [1, 2] ∧ RxFrames.Conserved c := by
  have both := skb_consumed stationEnv (dataHdr false 0xFF) (dataFrame 0x70)
  refine ⟨both.1.mpr (RxEnv.rxdataind_once.mp (by decide +kernel)), ?_⟩
  have ends : (Run.exec RxFrames.program.step ⟨RxFrames.init, []⟩ Reorder.FramesSample.pending).map
      (fun c => (c.shared.pool.skbs.settled, (RxFrames.frames c).flatMap Reorder.attached)) =
      some ([(0, .delivered)], [1, 2]) := by
    decide +kernel
  obtain ⟨c, run, facts⟩ := Option.map_eq_some_iff.mp ends
  simp only [Prod.mk.injEq] at facts
  have guarded : Run.Reachable RxFrames.program.step RxFrames.Guard ⟨RxFrames.init, []⟩ c :=
    Run.Reachable.exec_guarded (fun _ _ => of_decide_eq_true) _ .init run (by decide +kernel)
  exact ⟨c, facts.1, facts.2, both.2 c guarded⟩

/-- The header of the last fragment is read after the skb was freed, and a frame that is
    neither uploaded nor for a monitor interface is never freed. -/
theorem last_fragment_read_after_free :
    stationEnv.rxdataind (dataHdr false 0xFF) (dataFrame 0x71) = [.read, .read, .read, .free, .read] ∧
    stationEnv.rxdataind { dataHdr false 0xFF with upload := false } (dataFrame 0x70) = [.read] := by
  decide +kernel

end Station

end Aic8800.Rx
