import Mathlib

/-! # Which tables the firmware's messages lead to

`rwnx_rx_handle_msg` finds the handler of a message by the two parts of its id, and the handlers
find stations, interfaces, channels and channel contexts by the indices in its parameters. A
handler is told here by the entries that it comes to. An address of an entry that is only computed
is not counted; one that is kept is.
-/

namespace Aic8800.Cmd.Indications

/-- `NX_VIRT_DEV_MAX + NX_REMOTE_STA_MAX`, the length of `vif_table` and `sta_table` -/
def tableLen : Nat := 36

/-- `NX_REMOTE_STA_MAX` -/
def nxRemoteStaMax : Nat := 32

/-- `NX_CHAN_CTXT_CNT` -/
def nxChanCtxtCnt : Nat := 3

/-- `SCAN_CHANNEL_MAX`, the length of `survey` -/
def scanChannelMax : Nat := 42

/-- `RWNX_CH_NOT_SET` -/
def chNotSet : UInt8 := 0xFF

inductive Iftype where
  | station | p2pClient | ap | p2pGo | apVlan | meshPoint | monitor | p2pDevice
  deriving DecidableEq

inductive ConnState where
  | disconnected | connecting | connected | disconnecting
  deriving DecidableEq

structure Sta where
  vifIdx : UInt8
  valid : Bool
  tdlsActive : Bool
  /-- `ps.pkt_ready[LEGACY_PS_ID]` -/
  pktReady : Nat

structure Vif where
  vifIndex : UInt8
  iftype : Iftype
  chIndex : UInt8
  connState : ConnState
  /-- `sta.ap` -/
  staAp : Bool
  /-- `sta.tdls_sta` -/
  tdlsSta : Option Sta
  /-- `ap.csa` -/
  csa : Bool
  userMpm : Bool
  /-- The indices of the paths in `ap.mpath_list` -/
  mpathList : List UInt8

/-- What the handlers look at. `vifs` are the interfaces in the list, `bands` the frequencies of
    each band that the wiphy has; `netdevDbg` says whether `netdev_dbg` prints, `memory` whether
    `kmalloc` succeeds. -/
structure Hw where
  vifTable : UInt8 → Option Vif
  staTable : UInt8 → Sta
  vifs : List Vif
  bands : List (List Nat)
  curChanctx : UInt8
  addingSta : Bool
  netdevDbg : Bool
  memory : Bool

/-- The fields of the structures that the parameters of messages are taken for. A field that
    several of them have is here once, since a message has one of them: `vif_idx` or `vif_index`;
    `ch_idx`, `chan_idx` or `chan_index`; `status_code` or `status`; `ps_state` or `ps_on`. -/
structure Param where
  vifIdx : UInt8
  staIdx : UInt8
  apIdx : UInt8
  chIdx : UInt8
  nhopStaIdx : UInt8
  pathIdx : UInt8
  freq : Nat
  statusCode : Nat
  roamed : Bool
  psState : Bool
  estab : Bool
  delete : Bool

structure E2aMsg where
  id : UInt16
  param : Param

/-- An entry that is come to, or the use of a pointer to an interface -/
inductive Access where
  | handler (task idx : Nat)
  | sta (idx : UInt8)
  | vif (idx : UInt8)
  | survey (idx : Nat)
  | chanctx (idx : UInt8)
  | deref (entry : Option Vif)

/-! ## What the handlers share -/

/-- `rwnx_freq_to_idx`, which stops the system for a frequency that no band has -/
def Hw.freqToIdx (hw : Hw) (freq : Nat) : Option Nat := hw.bands.flatten.findIdx? (· == freq)

/-- `rwnx_chanctx_link` -/
def chanctxLink (chIdx : UInt8) : List Access :=
  if nxChanCtxtCnt ≤ chIdx.toNat then [] else [.chanctx chIdx]

/-- `rwnx_chanctx_unlink` -/
def chanctxUnlink (vif : Vif) : List Access :=
  if vif.chIndex = chNotSet then [] else [.chanctx vif.chIndex]

/-- `rwnx_radar_detection_enable_on_cur_channel`, by `rwnx_chanctx_valid` -/
def radarDetectionEnableOnCurChannel (curChanctx : UInt8) : List Access :=
  if nxChanCtxtCnt ≤ curChanctx.toNat then [] else [.chanctx curChanctx]

/-- `rwnx_ps_bh_enable`; `rwnx_set_traffic_status` is called when the station wakes up. -/
def psBhEnable (hw : Hw) (sta : Sta) (enable : Bool) : List Access :=
  if !enable && sta.pktReady != 0 && sta.tdlsActive then
    [.vif sta.vifIdx, .deref (hw.vifTable sta.vifIdx)]
  else []

/-- `rwnx_txq_sta_init` -/
def txqStaInit (hw : Hw) (vifIdx : UInt8) : List Access := [.vif vifIdx, .deref (hw.vifTable vifIdx)]

def isAp (vif : Vif) : Bool := vif.iftype = .ap || vif.iftype = .p2pGo

/-! ## The handlers -/

section Handlers

variable (hw : Hw) (ind : Param)

/-- The interface that the CSA messages are for -/
def csaVif : Option Vif := hw.vifs.find? fun vif => vif.vifIndex == ind.vifIdx

/-- `cur_chanctx` is set, whatever becomes of the queues. -/
def rwnxRxChanSwitchInd : List Access := radarDetectionEnableOnCurChannel ind.chIdx

def rwnxRxPsChangeInd : List Access :=
  let sta := hw.staTable ind.staIdx
  .sta ind.staIdx :: .vif sta.vifIdx ::
    match hw.vifTable sta.vifIdx with
    | none => []
    | some vif =>
        if tableLen ≤ ind.staIdx.toNat then []
        else
          (if hw.netdevDbg then [.vif sta.vifIdx, .deref (some vif)] else []) ++
            if sta.valid then psBhEnable hw sta ind.psState
            else if hw.addingSta then []
            else [.vif sta.vifIdx, .deref (some vif)]

/-- `rwnx_ps_bh_traffic_req` looks at the station and its queues only. -/
def rwnxRxTrafficReqInd : List Access :=
  let sta := hw.staTable ind.staIdx
  .sta ind.staIdx ::
    if hw.netdevDbg then [.vif sta.vifIdx, .deref (hw.vifTable sta.vifIdx)] else []

/-- A handler that does what it does if there is an interface under the index: that of
    `MM_P2P_VIF_PS_CHANGE_IND`, `MM_RSSI_STATUS_IND`, `MM_PKTLOSS_IND`, `MESH_PATH_CREATE_CFM` -/
def vifChecked : List Access :=
  .vif ind.vifIdx ::
    match hw.vifTable ind.vifIdx with
    | none => []
    | some vif => [.deref (some vif)]

def rwnxRxP2pVifPsChangeInd : List Access := vifChecked hw ind

def rwnxRxRssiStatusInd : List Access := vifChecked hw ind

def rwnxRxPktlossNotifyInd : List Access := vifChecked hw ind

def rwnxRxMeshPathCreateCfm : List Access := vifChecked hw ind

/-- A switch that went well takes an interface that is no access point to another context. -/
def rwnxRxCsaFinishInd : List Access :=
  match csaVif hw ind with
  | none => []
  | some vif =>
      if isAp vif then []
      else if ind.statusCode = 0 then
        chanctxUnlink vif ++ chanctxLink ind.chIdx ++
          if hw.curChanctx = ind.chIdx then radarDetectionEnableOnCurChannel ind.chIdx else []
      else []

/-- An index behind the last entry is refused, the one of the entry behind it is not. -/
def rwnxRxChannelSurveyInd : List Access :=
  match hw.freqToIdx ind.freq with
  | none => []
  | some idx => if scanChannelMax < idx then [] else [.survey idx]

def rwnxRxMeTkipMicFailureInd : List Access := [.vif ind.vifIdx, .deref (hw.vifTable ind.vifIdx)]

/-- `rwnx_txq_credit_update` looks at the station. -/
def rwnxRxMeTxCreditsUpdateInd : List Access := [.sta ind.staIdx]

def rwnxRxSmConnectInd : List Access :=
  .vif ind.vifIdx ::
    match hw.vifTable ind.vifIdx with
    | none => []
    | some vif =>
        if ind.statusCode = 0 then
          .deref (some vif) :: .sta ind.apIdx ::
            (chanctxLink ind.chIdx ++ txqStaInit hw ind.vifIdx ++
              if vif.connState ≠ .disconnecting ∧ ind.roamed then
                -- the context that the interface has by now
                chanctxLink (if nxChanCtxtCnt ≤ ind.chIdx.toNat then vif.chIndex else ind.chIdx)
              else [])
        else [.deref (some vif)]

/-- The state of the connection is looked at before the pointer is compared with NULL. On an access
    point the system is stopped, and so it is where there is no station to the interface. -/
def rwnxRxSmDisconnectInd : List Access :=
  .vif ind.vifIdx :: .deref (hw.vifTable ind.vifIdx) ::
    match hw.vifTable ind.vifIdx with
    | none => []
    | some vif =>
        if vif.connState = .disconnected ∨ isAp vif ∨ vif.staAp = false then []
        else chanctxUnlink vif

def rwnxRxSmExternalAuthRequiredInd : List Access :=
  [.vif ind.vifIdx, .deref (hw.vifTable ind.vifIdx)]

def rwnxRxMeshPeerUpdateInd : List Access :=
  .vif ind.vifIdx ::
    if tableLen ≤ ind.vifIdx.toNat then []
    else if (hw.vifTable ind.vifIdx).any fun vif => vif.iftype ≠ .meshPoint then []
    else if nxRemoteStaMax ≤ ind.staIdx.toNat then []
    else
      .deref (hw.vifTable ind.vifIdx) ::
        match hw.vifTable ind.vifIdx with
        | none => []
        | some vif =>
            if vif.userMpm then if ind.estab then [] else [.sta ind.staIdx]
            else
              .sta ind.staIdx ::
                if ind.estab && !(hw.staTable ind.staIdx).valid then
                  chanctxLink vif.chIndex ++ txqStaInit hw ind.vifIdx
                else []

/-- The station of the next hop is kept with the path. -/
def rwnxRxMeshPathUpdateInd : List Access :=
  .vif ind.vifIdx ::
    if tableLen ≤ ind.vifIdx.toNat then []
    else
      match hw.vifTable ind.vifIdx with
      | none => []
      | some vif =>
          if vif.iftype ≠ .meshPoint then []
          else if ind.delete then []
          else if ind.pathIdx ∈ vif.mpathList || hw.memory then [.sta ind.nhopStaIdx]
          else []

def rwnxRxMeshProxyUpdateInd : List Access :=
  .vif ind.vifIdx ::
    if tableLen ≤ ind.vifIdx.toNat then []
    else
      match hw.vifTable ind.vifIdx with
      | none => []
      | some vif => [.deref (some vif)]

/-- The TDLS stations that come to be told; the first interface without one ends it. -/
def tdlsPeers : List Sta :=
  ((hw.vifs.filter fun vif => vif.vifIndex == ind.vifIdx).map Vif.tdlsSta).takeWhile
    Option.isSome |>.reduceOption

def rwnxRxTdlsPeerPsInd : List Access :=
  (tdlsPeers hw ind).flatMap fun sta => psBhEnable hw sta ind.psState

end Handlers

/-- The handlers in the tables. Those named `other` do not come to an entry of a table by an index
    that the message gave: they go through the list of interfaces, or look at none. -/
inductive Handler where
  | chanSwitch | psChange | trafficReq | p2pVifPsChange | csaFinish | channelSurvey | rssiStatus
  | pktloss | tkipMicFailure | txCreditsUpdate | connect | disconnect | externalAuth
  | meshPathCreate | meshPeerUpdate | meshPathUpdate | meshProxyUpdate | tdlsPeerPs | other
  deriving DecidableEq

def Handler.run (hw : Hw) (ind : Param) : Handler → List Access
  | chanSwitch => rwnxRxChanSwitchInd ind
  | psChange => rwnxRxPsChangeInd hw ind
  | trafficReq => rwnxRxTrafficReqInd hw ind
  | p2pVifPsChange => rwnxRxP2pVifPsChangeInd hw ind
  | csaFinish => rwnxRxCsaFinishInd hw ind
  | channelSurvey => rwnxRxChannelSurveyInd hw ind
  | rssiStatus => rwnxRxRssiStatusInd hw ind
  | pktloss => rwnxRxPktlossNotifyInd hw ind
  | tkipMicFailure => rwnxRxMeTkipMicFailureInd hw ind
  | txCreditsUpdate => rwnxRxMeTxCreditsUpdateInd ind
  | connect => rwnxRxSmConnectInd hw ind
  | disconnect => rwnxRxSmDisconnectInd hw ind
  | externalAuth => rwnxRxSmExternalAuthRequiredInd hw ind
  | meshPathCreate => rwnxRxMeshPathCreateCfm hw ind
  | meshPeerUpdate => rwnxRxMeshPeerUpdateInd hw ind
  | meshPathUpdate => rwnxRxMeshPathUpdateInd hw ind
  | meshProxyUpdate => rwnxRxMeshProxyUpdateInd hw ind
  | tdlsPeerPs => rwnxRxTdlsPeerPsInd hw ind
  | other => []

/-! ## The tables of handlers -/

def msgT (id : UInt16) : Nat := id.toNat / 2 ^ 10

def msgI (id : UInt16) : Nat := id.toNat % 2 ^ 10

/-- The lengths of the tables that `msg_hdlrs` leads to: `MSG_I` of the last message of each task.
    There is none for `TASK_SCAN` (2), `TASK_BAM` (8), and behind `TASK_MESH`. -/
def hdlrsLen : Nat → Nat
  | 0 => 146
  | 1 => 41
  | 3 => 9
  | 4 => 12
  | 5 => 23
  | 6 => 13
  | 7 => 10
  | 9 => 16
  | _ => 0

/-- The entries that are not NULL -/
def hdlr : Nat → Nat → Option Handler
  -- `mm_hdlrs`
  | 0, 68 => some .chanSwitch
  | 0, 69 => some .other
  | 0, 72 => some .other
  | 0, 73 => some .psChange
  | 0, 74 => some .trafficReq
  | 0, 77 => some .p2pVifPsChange
  | 0, 78 => some .other
  | 0, 79 => some .channelSurvey
  | 0, 85 => some .other
  | 0, 87 => some .rssiStatus
  | 0, 88 => some .csaFinish
  | 0, 89 => some .other
  | 0, 96 => some .pktloss
  | 0, 125 => some .other
  | 0, 139 => some .other
  -- `dbg_hdlrs`
  | 1, 8 => some .other
  -- `tdls_hdlrs`
  | 3, 1 => some .other
  | 3, 2 => some .other
  | 3, 3 => some .other
  | 3, 6 => some .tdlsPeerPs
  -- `scan_hdlrs`
  | 4, 1 => some .other
  | 4, 4 => some .other
  -- `me_hdlrs`
  | 5, 6 => some .tkipMicFailure
  | 5, 11 => some .txCreditsUpdate
  -- `sm_hdlrs`
  | 6, 2 => some .connect
  | 6, 5 => some .disconnect
  | 6, 6 => some .externalAuth
  -- `mesh_hdlrs`
  | 9, 9 => some .meshPathCreate
  | 9, 13 => some .meshPeerUpdate
  | 9, 14 => some .meshPathUpdate
  | 9, 15 => some .meshProxyUpdate
  | _, _ => none

/-- `rwnx_rx_handle_msg`; `cmd_mgr_msgind` calls the handler that was found, if it is one. -/
def rwnxRxHandleMsg (hw : Hw) (msg : E2aMsg) : List Access :=
  .handler (msgT msg.id) (msgI msg.id) ::
    match hdlr (msgT msg.id) (msgI msg.id) with
    | none => []
    | some h => h.run hw msg.param

/-! ## What is promised -/

/-- The entry is in its table, and the pointer is not NULL. -/
def Access.Valid : Access → Prop
  | handler task idx => idx < hdlrsLen task
  | sta idx | vif idx => idx.toNat < tableLen
  | survey idx => idx < scanChannelMax
  | chanctx idx => idx.toNat < nxChanCtxtCnt
  | deref entry => entry.isSome

instance (a : Access) : Decidable a.Valid := by
  cases a <;> unfold Access.Valid <;> infer_instance

/-- All that the message leads to is valid. -/
def Sound (hw : Hw) (msg : E2aMsg) : Prop := ∀ a ∈ rwnxRxHandleMsg hw msg, a.Valid

/-! ## Which messages are sound -/

section Fits

variable (hw : Hw) (ind : Param)

/-- There is an interface under the index. -/
def HasVif (idx : UInt8) : Prop := idx.toNat < tableLen ∧ (hw.vifTable idx).isSome = true

/-- The context of an interface is none, or one of those that there are. -/
def Vif.Linked (vif : Vif) : Prop := vif.chIndex = chNotSet ∨ vif.chIndex.toNat < nxChanCtxtCnt

/-- A station is not woken up for a TDLS peer, or its interface is there. -/
def WakeFits (sta : Sta) : Prop :=
  ind.psState = false → sta.pktReady ≠ 0 → sta.tdlsActive = true → HasVif hw sta.vifIdx

/-- What a handler needs of the indices that it is given -/
def Handler.Fits : Handler → Prop
  | chanSwitch | other => True
  | psChange => ind.staIdx.toNat < tableLen ∧ (hw.staTable ind.staIdx).vifIdx.toNat < tableLen
  | trafficReq => ind.staIdx.toNat < tableLen ∧
      (hw.netdevDbg = true → HasVif hw (hw.staTable ind.staIdx).vifIdx)
  | p2pVifPsChange | rssiStatus | pktloss | meshPathCreate | meshProxyUpdate =>
      ind.vifIdx.toNat < tableLen
  | csaFinish => ∀ vif, csaVif hw ind = some vif → isAp vif = false → ind.statusCode = 0 →
      vif.Linked
  | channelSurvey => hw.freqToIdx ind.freq ≠ some scanChannelMax
  | tkipMicFailure | externalAuth => HasVif hw ind.vifIdx
  | txCreditsUpdate => ind.staIdx.toNat < tableLen
  | connect => ind.vifIdx.toNat < tableLen ∧
      ((hw.vifTable ind.vifIdx).isSome = true → ind.statusCode = 0 → ind.apIdx.toNat < tableLen)
  | disconnect => HasVif hw ind.vifIdx ∧ ∀ vif, hw.vifTable ind.vifIdx = some vif →
      vif.connState ≠ .disconnected → isAp vif = false → vif.staAp = true → vif.Linked
  | meshPeerUpdate => ind.vifIdx.toNat < tableLen ∧
      (ind.staIdx.toNat < nxRemoteStaMax → (hw.vifTable ind.vifIdx).isSome = true)
  | meshPathUpdate => ind.vifIdx.toNat < tableLen ∧
      ∀ vif, hw.vifTable ind.vifIdx = some vif → vif.iftype = .meshPoint → ind.delete = false →
        ind.pathIdx ∈ vif.mpathList ∨ hw.memory = true → ind.nhopStaIdx.toNat < tableLen
  | tdlsPeerPs => ∀ sta ∈ tdlsPeers hw ind, WakeFits hw ind sta

end Fits

/-- There is a table for the message that reaches as far, and its handler finds what it looks for. -/
def Fits (hw : Hw) (msg : E2aMsg) : Prop :=
  msgI msg.id < hdlrsLen (msgT msg.id) ∧
    ∀ h, hdlr (msgT msg.id) (msgI msg.id) = some h → h.Fits hw msg.param

/-- All of these are valid. -/
def AllValid (accesses : List Access) : Prop := ∀ a ∈ accesses, a.Valid

section Lists

variable {a : Access} {l m : List Access}

@[simp] theorem allValid_nil : AllValid [] := List.forall_mem_nil _

@[simp] theorem allValid_cons : AllValid (a :: l) ↔ a.Valid ∧ AllValid l := List.forall_mem_cons

@[simp] theorem allValid_append : AllValid (l ++ m) ↔ AllValid l ∧ AllValid m :=
  List.forall_mem_append

@[simp] theorem valid_sta {idx : UInt8} : (Access.sta idx).Valid ↔ idx.toNat < tableLen := Iff.rfl

@[simp] theorem valid_vif {idx : UInt8} : (Access.vif idx).Valid ↔ idx.toNat < tableLen := Iff.rfl

@[simp] theorem valid_survey {idx : Nat} : (Access.survey idx).Valid ↔ idx < scanChannelMax :=
  Iff.rfl

@[simp] theorem valid_chanctx {idx : UInt8} :
    (Access.chanctx idx).Valid ↔ idx.toNat < nxChanCtxtCnt := Iff.rfl

@[simp] theorem valid_deref {entry : Option Vif} :
    (Access.deref entry).Valid ↔ entry.isSome = true := Iff.rfl

end Lists

section Shared

variable {hw : Hw} {ind : Param} {vif : Vif} {sta : Sta}

/-- A context is compared before it is linked. -/
@[simp] theorem chanctxLink_valid (chIdx : UInt8) : AllValid (chanctxLink chIdx) := by
  unfold chanctxLink
  split
  · exact allValid_nil
  · rename_i small
    simpa using small

@[simp] theorem radarDetection_valid (curChanctx : UInt8) :
    AllValid (radarDetectionEnableOnCurChannel curChanctx) := by
  unfold radarDetectionEnableOnCurChannel
  split
  · exact allValid_nil
  · rename_i small
    simpa using small

@[simp] theorem chanctxUnlink_valid : AllValid (chanctxUnlink vif) ↔ vif.Linked := by
  unfold chanctxUnlink Vif.Linked
  split
  · rename_i unset
    exact iff_of_true allValid_nil (.inl unset)
  · rename_i set
    rw [or_iff_right set]
    simp

@[simp] theorem psBhEnable_valid : AllValid (psBhEnable hw sta ind.psState) ↔
    WakeFits hw ind sta := by
  unfold psBhEnable WakeFits HasVif
  cases ind.psState with
  | true => simp
  | false =>
      by_cases ready : sta.pktReady = 0
      · simp [ready]
      · cases active : sta.tdlsActive with
        | false => simp
        | true => simp [ready]

@[simp] theorem vifChecked_valid :
    AllValid (vifChecked hw ind) ↔ ind.vifIdx.toNat < tableLen := by
  unfold vifChecked
  cases hw.vifTable ind.vifIdx <;> simp

end Shared

section Each

variable {hw : Hw} {ind : Param}

/-- The interface of the station is there by the time the station is woken up. -/
theorem psChange_valid : AllValid (rwnxRxPsChangeInd hw ind) ↔ Handler.psChange.Fits hw ind := by
  unfold rwnxRxPsChangeInd Handler.Fits
  simp only [allValid_cons, valid_sta, valid_vif]
  refine and_congr_right fun sta => and_iff_left_of_imp fun inside => ?_
  cases entry : hw.vifTable (hw.staTable ind.staIdx).vifIdx with
  | none => exact allValid_nil
  | some vif =>
      have wake : WakeFits hw ind (hw.staTable ind.staIdx) :=
        fun _ _ _ => ⟨inside, by rw [entry]; rfl⟩
      simp only
      rw [if_neg (Nat.not_le.mpr sta), allValid_append]
      constructor
      · split <;> simp [inside]
      · split
        · exact psBhEnable_valid.mpr wake
        · split <;> simp [inside]

theorem trafficReq_valid :
    AllValid (rwnxRxTrafficReqInd hw ind) ↔ Handler.trafficReq.Fits hw ind := by
  unfold rwnxRxTrafficReqInd Handler.Fits HasVif
  cases hw.netdevDbg <;> simp

theorem csaFinish_valid : AllValid (rwnxRxCsaFinishInd hw ind) ↔ Handler.csaFinish.Fits hw ind := by
  unfold rwnxRxCsaFinishInd Handler.Fits
  cases csaVif hw ind with
  | none => simp
  | some vif =>
      simp only [Option.some.injEq, forall_eq']
      cases isAp vif with
      | true => simp
      | false =>
          rw [if_neg Bool.false_ne_true, forall_prop_of_true rfl]
          split
          · rename_i well
            rw [forall_prop_of_true well]
            simp only [allValid_append, chanctxUnlink_valid, chanctxLink_valid, and_true]
            refine and_iff_left ?_
            split <;> simp
          · rename_i failed
            exact iff_of_true allValid_nil fun well => absurd well failed

/-- The index behind the last one is the only one that is taken and has no entry. -/
theorem channelSurvey_valid :
    AllValid (rwnxRxChannelSurveyInd hw ind) ↔ Handler.channelSurvey.Fits hw ind := by
  unfold rwnxRxChannelSurveyInd Handler.Fits
  cases hw.freqToIdx ind.freq with
  | none => simp
  | some idx =>
      simp only [ne_eq, Option.some.injEq]
      split
      · rename_i large
        exact iff_of_true allValid_nil (Nat.ne_of_gt large)
      · simp
        omega

theorem connect_valid : AllValid (rwnxRxSmConnectInd hw ind) ↔ Handler.connect.Fits hw ind := by
  unfold rwnxRxSmConnectInd Handler.Fits
  rw [allValid_cons, valid_vif]
  refine and_congr_right fun inside => ?_
  cases entry : hw.vifTable ind.vifIdx with
  | none => simp
  | some vif =>
      simp only
      simp only [Option.isSome_some, forall_const]
      split
      · rename_i well
        rw [forall_prop_of_true well]
        simp only [allValid_cons, allValid_append, valid_deref, valid_sta, Option.isSome_some,
          true_and, chanctxLink_valid]
        refine and_iff_left ⟨?_, ?_⟩
        · unfold txqStaInit
          simp [inside, entry]
        · split <;> simp
      · rename_i failed
        exact iff_of_true (by simp) fun well => absurd well failed

theorem disconnect_valid :
    AllValid (rwnxRxSmDisconnectInd hw ind) ↔ Handler.disconnect.Fits hw ind := by
  unfold rwnxRxSmDisconnectInd Handler.Fits HasVif
  rw [allValid_cons, allValid_cons, valid_vif, valid_deref, ← and_assoc]
  refine and_congr_right fun there => ?_
  cases hw.vifTable ind.vifIdx with
  | none => simp
  | some vif =>
      simp only [Option.some.injEq, forall_eq']
      split
      · rename_i ends
        refine iff_of_true allValid_nil fun connected client station => ?_
        rcases ends with same | same | same
        · exact absurd same connected
        · cases client.symm.trans same
        · cases station.symm.trans same
      · rename_i goes
        obtain ⟨connected, client, station⟩ := by simpa only [not_or] using goes
        rw [chanctxUnlink_valid, forall_prop_of_true connected,
          forall_prop_of_true (Bool.eq_false_iff.mpr client),
          forall_prop_of_true (Bool.of_not_eq_false station)]

theorem meshPeerUpdate_valid :
    AllValid (rwnxRxMeshPeerUpdateInd hw ind) ↔ Handler.meshPeerUpdate.Fits hw ind := by
  unfold rwnxRxMeshPeerUpdateInd Handler.Fits
  rw [allValid_cons, valid_vif]
  refine and_congr_right fun inside => ?_
  rw [if_neg (Nat.not_le.mpr inside)]
  cases entry : hw.vifTable ind.vifIdx with
  | none =>
      simp only [Option.any_none, Bool.false_eq_true, if_false]
      split
      · rename_i large
        exact iff_of_true allValid_nil fun small => absurd small (Nat.not_lt.mpr large)
      · rename_i small
        simpa using small
  | some vif =>
      refine iff_of_true ?_ fun _ => rfl
      simp only
      split
      · exact allValid_nil
      · split
        · exact allValid_nil
        · rename_i small
          have sta : ind.staIdx.toNat < tableLen :=
            Nat.lt_trans (Nat.not_le.mp small) (by decide)
          refine allValid_cons.mpr ⟨rfl, ?_⟩
          split
          · split <;> simp [sta]
          · refine allValid_cons.mpr ⟨sta, ?_⟩
            split
            · unfold txqStaInit
              simp [inside, entry]
            · exact allValid_nil

theorem meshPathUpdate_valid :
    AllValid (rwnxRxMeshPathUpdateInd hw ind) ↔ Handler.meshPathUpdate.Fits hw ind := by
  unfold rwnxRxMeshPathUpdateInd Handler.Fits
  rw [allValid_cons, valid_vif]
  refine and_congr_right fun inside => ?_
  rw [if_neg (Nat.not_le.mpr inside)]
  cases hw.vifTable ind.vifIdx with
  | none => simp
  | some vif =>
      simp only [Option.some.injEq, forall_eq']
      by_cases mesh : vif.iftype = .meshPoint
      · rw [if_neg (not_not.mpr mesh), forall_prop_of_true mesh]
        cases ind.delete with
        | true => simp
        | false =>
            rw [if_neg Bool.false_ne_true, forall_prop_of_true rfl]
            split
            · rename_i kept
              rw [forall_prop_of_true (by simpa using kept)]
              simp
            · rename_i lost
              exact iff_of_true allValid_nil fun kept => absurd (by simpa using kept) lost
      · rw [if_pos mesh]
        exact iff_of_true allValid_nil fun same => absurd same mesh

theorem meshProxyUpdate_valid :
    AllValid (rwnxRxMeshProxyUpdateInd hw ind) ↔ Handler.meshProxyUpdate.Fits hw ind := by
  unfold rwnxRxMeshProxyUpdateInd Handler.Fits
  rw [allValid_cons, valid_vif, and_iff_left_of_imp]
  intro inside
  rw [if_neg (Nat.not_le.mpr inside)]
  cases hw.vifTable ind.vifIdx <;> simp

theorem tdlsPeerPs_valid :
    AllValid (rwnxRxTdlsPeerPsInd hw ind) ↔ Handler.tdlsPeerPs.Fits hw ind := by
  unfold rwnxRxTdlsPeerPsInd Handler.Fits
  have each : AllValid ((tdlsPeers hw ind).flatMap fun sta => psBhEnable hw sta ind.psState) ↔
      ∀ sta ∈ tdlsPeers hw ind, AllValid (psBhEnable hw sta ind.psState) := by
    unfold AllValid
    simp only [List.mem_flatMap]
    exact ⟨fun all sta peer a inside => all a ⟨sta, peer, inside⟩,
      fun all a ⟨sta, peer, inside⟩ => all sta peer a inside⟩
  exact each.trans (forall₂_congr fun sta _ => psBhEnable_valid)

theorem run_valid (h : Handler) : AllValid (h.run hw ind) ↔ h.Fits hw ind := by
  cases h with
  | chanSwitch => exact iff_of_true (radarDetection_valid _) trivial
  | other => exact iff_of_true allValid_nil trivial
  | psChange => exact psChange_valid
  | trafficReq => exact trafficReq_valid
  | csaFinish => exact csaFinish_valid
  | channelSurvey => exact channelSurvey_valid
  | connect => exact connect_valid
  | disconnect => exact disconnect_valid
  | meshPeerUpdate => exact meshPeerUpdate_valid
  | meshPathUpdate => exact meshPathUpdate_valid
  | meshProxyUpdate => exact meshProxyUpdate_valid
  | tdlsPeerPs => exact tdlsPeerPs_valid
  | p2pVifPsChange | rssiStatus | pktloss | meshPathCreate => exact vifChecked_valid
  | tkipMicFailure | externalAuth =>
      simp [Handler.run, Handler.Fits, HasVif, rwnxRxMeTkipMicFailureInd,
        rwnxRxSmExternalAuthRequiredInd]
  | txCreditsUpdate => simp [Handler.run, Handler.Fits, rwnxRxMeTxCreditsUpdateInd]

end Each

/-- A message leads to valid entries only, in any state, if there is a table for it that reaches as
    far and its handler is given the indices that it needs. -/
theorem indices_valid_iff (hw : Hw) (msg : E2aMsg) : Sound hw msg ↔ Fits hw msg := by
  change AllValid (rwnxRxHandleMsg hw msg) ↔ _
  unfold rwnxRxHandleMsg Fits
  rw [allValid_cons]
  refine and_congr Iff.rfl ?_
  cases hdlr (msgT msg.id) (msgI msg.id) with
  | none => simp
  | some h =>
      simp only [Option.some.injEq, forall_eq']
      exact run_valid h

/-! ## A station behind the table -/

/-- No interface is up. -/
def idle : Hw where
  vifTable := fun _ => none
  staTable := fun _ => ⟨0, false, false, 0⟩
  vifs := []
  bands := []
  curChanctx := 0
  addingSta := false
  netdevDbg := false
  memory := true

/-- `MM_PS_CHANGE_IND` with a `sta_idx` of 200 -/
def strayPsChange : E2aMsg where
  id := 73
  param := ⟨0, 200, 0, 0, 0, 0, 0, 0, false, true, false, false⟩

/-- The station is looked up before its index is compared. -/
theorem stray_station_read : ¬Sound idle strayPsChange := by
  intro sound
  have read : Access.sta 200 ∈ rwnxRxHandleMsg idle strayPsChange := .tail _ (.head _)
  exact absurd (sound _ read) (by decide)

end Aic8800.Cmd.Indications
