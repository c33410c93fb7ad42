import Aic8800.Cmd.Submission

/-! # The scan request as a caller

`rwnx_send_scanu_req` answers for up to three messages: that of the scan, one that adds
the interface of the P2P device, and one with the elements for the probe requests.
It is the one caller with an error path of its own for messages that it has given
to `rwnx_send_msg`.
-/

namespace Aic8800.Cmd

def eio : Int := 5

/-- `SCAN_SSID_MAX` -/
def scanSsidMax : Nat := 3

/-- `P2P_WILDCARD_SSID` -/
def p2pWildcardSsid : List UInt8 := [68, 73, 82, 69, 67, 84, 45]

/-- `SCANU_START_REQ` with `SCANU_START_CFM_ADDTIONAL`; the messages are numbered as they
    are allocated. -/
def scanuStartReq : Call :=
  { entry := .sendMsg, msg := ⟨0, 4096⟩, reqcfm := true, reqid := 4105, cfm := none }

/-- `MM_ADD_IF_REQ`, with `add_if_cfm` for the confirmation. -/
def mmAddIfReq : Call :=
  { entry := .sendMsg, msg := ⟨1, 6⟩, reqcfm := true, reqid := 7, cfm := some 0 }

/-- `SCANU_VENDOR_IE_REQ` -/
def scanuVendorIeReq : Call :=
  { entry := .sendMsg, msg := ⟨2, 4103⟩, reqcfm := true, reqid := 4104, cfm := none }

/-- What the request asks for: the SSIDs, each as its buffer, and whether there are elements
    for the probe requests. -/
structure ScanParam where
  ssids : List (List UInt8)
  ie : Bool

/-- The interface, the results of the allocations, the status in `add_if_cfm`, and what the
    sends find. -/
structure ScanuEnv where
  p2pDevVif : Bool
  up : Bool
  reqAlloc : Bool
  addIfAlloc : Bool
  ieAlloc : Bool
  status : Nat
  addIf : Surroundings
  ie : Surroundings
  start : Surroundings

namespace ScanuEnv

variable (env : ScanuEnv) (param : ScanParam)

/-- The label `error`. -/
def error (ieReq : List LmacMsg) : Path :=
  ⟨(scanuStartReq.msg :: ieReq).map .freeMsg, .returned (-enomem)⟩

def sendStart : Path := env.start.rwnxSendMsg scanuStartReq

def sendVendorIe : Path :=
  if param.ie then
    if env.ieAlloc then
      .after [.allocMsg scanuVendorIeReq.msg] <|
        (env.ie.rwnxSendMsg scanuVendorIeReq).andThen fun err =>
          if err ≠ 0 then error [scanuVendorIeReq.msg] else env.sendStart
    else ⟨[], .returned (-enomem)⟩
  else env.sendStart

def rwnxSendAddIf : Path :=
  if env.addIfAlloc then
    .after [.allocMsg mmAddIfReq.msg] (env.addIf.rwnxSendMsg mmAddIfReq)
  else ⟨[], .returned (-enomem)⟩

/-- The loop over the SSIDs, as far as messages are concerned. -/
def ssidLoop : Bool → List (List UInt8) → Path
  | _, [] => env.sendVendorIe param
  | up, ssid :: more =>
      if ssid.take p2pWildcardSsid.length = p2pWildcardSsid ∧ env.p2pDevVif = true ∧ up = false then
        env.rwnxSendAddIf.andThen fun err =>
          if err ≠ 0 then error []
          else if env.status ≠ 0 then ⟨[], .returned (-eio)⟩
          else ssidLoop true more
      else ssidLoop up more

def rwnxSendScanuReq : Path :=
  if env.reqAlloc then
    .after [.allocMsg scanuStartReq.msg] (env.ssidLoop param env.up (param.ssids.take scanSsidMax))
  else ⟨[], .returned (-enomem)⟩

/-! ## When everything is released -/

/-- The request is to add the interface of the P2P device. -/
def AddsIf : Prop :=
  (∃ ssid ∈ param.ssids.take scanSsidMax, ssid.take p2pWildcardSsid.length = p2pWildcardSsid) ∧
    env.p2pDevVif = true ∧ env.up = false

/-- The part behind the SSIDs: the elements find memory, their message is released by
    `rwnx_send_msg` or the label, and after an error the scan is not sent. -/
def ReleasesRest : Prop :=
  if param.ie then
    env.ieAlloc = true ∧ env.ie.Releases scanuVendorIeReq true ∧
      (env.ie.Fails scanuVendorIeReq ∨ env.start.Releases scanuStartReq false)
  else env.start.Releases scanuStartReq false

/-- Which requests release all messages, slots and the lock. -/
def Releases : Prop :=
  env.reqAlloc = false ∨
    (env.AddsIf param ∧
      (env.addIfAlloc = false ∨ env.addIf.Releases mmAddIfReq false ∧
        (env.addIf.Fails mmAddIfReq ∨ env.status = 0 ∧ env.ReleasesRest param))) ∨
    (¬ env.AddsIf param ∧ env.ReleasesRest param)

section

variable {env : ScanuEnv} {param : ScanParam}

theorem submit_return (env : Surroundings) (call : Call) :
    ((env.submit call).andThen fun ret => ⟨[], .returned ret⟩) = env.submit call := by
  obtain ⟨acts, ending⟩ := env.submit call
  cases ending <;> simp

/-- The scan message is the last one, and nothing frees it when its call fails. -/
theorem sendStart_settles (goes : env.sendStart.ending ≠ .blocked) :
    Settles [scanuStartReq.msg] env.sendStart ↔ env.start.Releases scanuStartReq false := by
  unfold sendStart Surroundings.rwnxSendMsg at goes ⊢
  rw [← submit_return] at goes ⊢
  rw [Surroundings.settles_andThen (Q := True) false goes (List.not_mem_nil) rfl]
  · simp only [or_true, and_true]
  · simp
  · simp [(tame_of_msgs (List.forall_mem_nil _)).1]
  · simp
  · exact fun _ => iff_of_true (Surroundings.settles_done 0) trivial

theorem sendStart_tame (returns : ∃ ret, env.sendStart.ending = .returned ret) :
    Tame env.sendStart.acts := (Surroundings.course _ _).tame returns

theorem sendStart_apart {m : LmacMsg} (other : m ≠ scanuStartReq.msg) :
    env.sendStart.acts.count (.freeMsg m) = 0 ∧ env.sendStart.acts.count (.allocMsg m) = 0 := by
  have msgs := (Surroundings.course env.start scanuStartReq).msgs m
  exact ⟨msgs.2 other, msgs.1⟩

theorem sendVendorIe_settles (goes : (env.sendVendorIe param).ending ≠ .blocked) :
    Settles [scanuStartReq.msg] (env.sendVendorIe param) ↔ env.ReleasesRest param := by
  unfold sendVendorIe ReleasesRest at *
  by_cases ie : param.ie = true
  · rw [if_pos ie] at goes
    rw [if_pos ie, if_pos ie]
    by_cases alloc : env.ieAlloc = true
    · rw [if_pos alloc] at goes
      rw [if_pos alloc, Surroundings.settles_alloc, Surroundings.rwnxSendMsg,
        Surroundings.settles_andThen (Q := env.start.Releases scanuStartReq false) true goes
          (by decide) (show _ = env.sendStart from rfl)]
      · simp only [alloc, true_and]
      · intro ret failed
        rw [if_pos failed]
        exact ⟨⟨_, rfl⟩, List.Perm.swap ..⟩
      · exact sendStart_tame
      · exact sendStart_apart (by decide)
      · exact sendStart_settles
    · rw [if_neg alloc]
      refine iff_of_false (Surroundings.not_settles_done _) ?_
      rintro ⟨there, -⟩
      exact alloc there
  · rw [if_neg ie] at goes
    rw [if_neg ie, if_neg ie]
    exact sendStart_settles goes

theorem error_tame (ieReq : List LmacMsg) : Tame (error ieReq).acts := by
  apply (tame_of_msgs _).1
  intro a member
  obtain ⟨m, -, rfl⟩ := List.mem_map.mp member
  exact .inr ⟨m, rfl⟩

theorem sendVendorIe_tame (returns : ∃ ret, (env.sendVendorIe param).ending = .returned ret) :
    Tame (env.sendVendorIe param).acts := by
  have silent : ∀ m, Tame [.allocMsg m] := fun m => (tame_of_msgs (by simp)).1
  unfold sendVendorIe at *
  split
  · split
    · rename_i ie alloc
      rw [if_pos ie, if_pos alloc] at returns
      refine (silent _).append (Surroundings.andThen_tame (Surroundings.course _ _).tame ?_ returns)
      intro ret ends
      split
      · exact error_tame _
      · rename_i ok
        rw [if_neg ok] at ends
        exact sendStart_tame ends
    · exact (tame_of_msgs (List.forall_mem_nil _)).1
  · rename_i ie
    rw [if_neg ie] at returns
    exact sendStart_tame returns

/-- The message of the added interface is not touched any more. -/
theorem sendVendorIe_apart :
    (env.sendVendorIe param).acts.count (.freeMsg mmAddIfReq.msg) = 0 ∧
      (env.sendVendorIe param).acts.count (.allocMsg mmAddIfReq.msg) = 0 := by
  have other : mmAddIfReq.msg ≠ scanuStartReq.msg := by decide
  have msgs := (Surroundings.course env.ie scanuVendorIeReq).msgs mmAddIfReq.msg
  have start : env.sendStart.acts.count (.freeMsg mmAddIfReq.msg) = 0 ∧
      env.sendStart.acts.count (.allocMsg mmAddIfReq.msg) = 0 := sendStart_apart other
  have silent : ∀ a, a = Act.freeMsg mmAddIfReq.msg ∨ a = Act.allocMsg mmAddIfReq.msg →
      (env.ie.submit scanuVendorIeReq).acts.count a = 0 → env.sendStart.acts.count a = 0 →
        (env.sendVendorIe param).acts.count a = 0 := by
    intro a which first later
    unfold sendVendorIe
    split
    · split
      · have rest : ((env.ie.submit scanuVendorIeReq).andThen fun err =>
            if err ≠ 0 then error [scanuVendorIeReq.msg] else env.sendStart).acts.count a = 0 := by
          apply Surroundings.andThen_count first
          intro ret
          split
          · rcases which with rfl | rfl <;> decide
          · exact later
        simp only [Path.after, List.count_append, Surroundings.rwnxSendMsg, rest, Nat.add_zero]
        rcases which with rfl | rfl <;> decide
      · rfl
    · exact later
  exact ⟨silent _ (.inl rfl) (msgs.2 (by decide)) start.1, silent _ (.inr rfl) msgs.1 start.2⟩

/-- The interface is up after it was added, and is added once. -/
theorem ssidLoop_up (ssids : List (List UInt8)) :
    env.ssidLoop param true ssids = env.sendVendorIe param := by
  induction ssids with
  | nil => rfl
  | cons ssid more ih => simp [ssidLoop, ih]

/-- The path behind a new interface. -/
def added (env : ScanuEnv) (param : ScanParam) : Path :=
  env.rwnxSendAddIf.andThen fun err =>
    if err ≠ 0 then error []
    else if env.status ≠ 0 then ⟨[], .returned (-eio)⟩
    else env.sendVendorIe param

theorem ssidLoop_adds {up : Bool} {ssids : List (List UInt8)}
    (adds : (∃ ssid ∈ ssids, ssid.take p2pWildcardSsid.length = p2pWildcardSsid) ∧
      env.p2pDevVif = true ∧ up = false) :
    env.ssidLoop param up ssids = env.added param := by
  obtain ⟨⟨wildcard, member, same⟩, dev, down⟩ := adds
  induction ssids with
  | nil => cases member
  | cons ssid more ih =>
      unfold ssidLoop
      split
      · simp only [ssidLoop_up]
        rfl
      · rename_i other
        apply ih
        rcases List.mem_cons.mp member with rfl | later
        · exact absurd ⟨same, dev, down⟩ other
        · exact later

theorem ssidLoop_keeps {up : Bool} {ssids : List (List UInt8)}
    (keeps : ¬ ((∃ ssid ∈ ssids, ssid.take p2pWildcardSsid.length = p2pWildcardSsid) ∧
      env.p2pDevVif = true ∧ up = false)) :
    env.ssidLoop param up ssids = env.sendVendorIe param := by
  induction ssids with
  | nil => rfl
  | cons ssid more ih =>
      unfold ssidLoop
      split
      · rename_i adds
        exact absurd ⟨⟨ssid, List.mem_cons_self, adds.1⟩, adds.2⟩ keeps
      · apply ih
        rintro ⟨⟨wildcard, member, same⟩, rest⟩
        exact keeps ⟨⟨wildcard, List.mem_cons_of_mem _ member, same⟩, rest⟩

theorem error_settles : Settles [scanuStartReq.msg] (error []) := by
  refine ⟨⟨_, rfl⟩, fun m => ?_, (tame_of_msgs ?_).2⟩
  · simp only [error, List.map_cons, List.map_nil, List.count_cons, List.count_nil]
    simp
  · intro a member
    exact .inr ⟨_, List.mem_singleton.mp member⟩

theorem added_settles (goes : (env.added param).ending ≠ .blocked) :
    Settles [scanuStartReq.msg] (env.added param) ↔
      env.addIfAlloc = false ∨ env.addIf.Releases mmAddIfReq false ∧
        (env.addIf.Fails mmAddIfReq ∨ env.status = 0 ∧ env.ReleasesRest param) := by
  unfold added rwnxSendAddIf at *
  cases alloc : env.addIfAlloc with
  | false => exact iff_of_true error_settles (.inl rfl)
  | true =>
      rw [alloc, if_pos rfl, Path.after_andThen] at goes
      rw [if_pos rfl, Path.after_andThen, Surroundings.settles_alloc, Surroundings.rwnxSendMsg,
        Surroundings.settles_andThen (Q := env.status = 0 ∧ env.ReleasesRest param) false goes
          (by decide) rfl]
      · simp
      · intro ret failed
        rw [if_pos failed]
        exact ⟨⟨_, rfl⟩, List.Perm.refl _⟩
      · intro returns
        rw [if_neg (by decide)] at returns ⊢
        split
        · exact (tame_of_msgs (List.forall_mem_nil _)).1
        · rename_i fine
          rw [if_neg fine] at returns
          exact sendVendorIe_tame returns
      · rw [if_neg (by decide)]
        split
        · exact ⟨rfl, rfl⟩
        · exact sendVendorIe_apart
      · intro unblocked
        rw [if_neg (by decide)] at unblocked ⊢
        split
        · rename_i refused
          exact iff_of_false (Surroundings.not_settles_done _) fun fine => refused fine.1
        · rename_i fine
          rw [if_neg fine] at unblocked
          simp only [not_not.mp fine, true_and]
          exact sendVendorIe_settles unblocked

theorem rwnxSendScanuReq_settles (goes : (env.rwnxSendScanuReq param).ending ≠ .blocked) :
    Settles [] (env.rwnxSendScanuReq param) ↔ env.Releases param := by
  unfold rwnxSendScanuReq Releases at *
  cases alloc : env.reqAlloc with
  | false => exact iff_of_true (Surroundings.settles_done _) (.inl rfl)
  | true =>
      rw [alloc, if_pos rfl] at goes
      rw [if_pos rfl, Surroundings.settles_alloc]
      by_cases adds : env.AddsIf param
      · have same : env.ssidLoop param env.up (param.ssids.take scanSsidMax) = env.added param :=
          ssidLoop_adds adds
        simp only [same] at goes ⊢
        simpa [adds] using added_settles goes
      · have same : env.ssidLoop param env.up (param.ssids.take scanSsidMax) =
            env.sendVendorIe param := ssidLoop_keeps adds
        simp only [same] at goes ⊢
        simpa [adds] using sendVendorIe_settles goes

end

end ScanuEnv

/-- A call that comes to its end releases its message, its slot and the lock exactly when it
    is one of `Surroundings.Releases`, and a scan request exactly when it is one of
    `ScanuEnv.Releases`. -/
theorem submission_releases (env : Surroundings) (call : Call) (frees : Bool)
    (goes : (env.caller call frees).ending ≠ .blocked) (scan : ScanuEnv) (param : ScanParam)
    (scans : (scan.rwnxSendScanuReq param).ending ≠ .blocked) :
    (Settles [] (env.caller call frees) ↔ env.Releases call frees) ∧
      (Settles [] (scan.rwnxSendScanuReq param) ↔ scan.Releases param) :=
  ⟨Surroundings.caller_settles frees goes, ScanuEnv.rwnxSendScanuReq_settles scans⟩

/-- A call on an empty queue, whose wait ends in the given way. -/
def emptyQueue (wait : WaitEnd) : Surroundings :=
  { start := rwnxCmdMgrInit, passes := [⟨false, rwnxCmdMgrInit⟩], wait
    woken := rwnxCmdMgrInit.linkCmd (slot 0) false
    left := rwnxCmdMgrInit.linkCmd (slot 0) false, work := ⟨[], false, rwnxCmdMgrInit⟩ }

/-- A scan with elements for the probe requests, on an interface that is up. -/
def plainScan (wait : WaitEnd) : ScanuEnv :=
  { p2pDevVif := false, up := true, reqAlloc := true, addIfAlloc := true, ieAlloc := true
    status := 0, addIf := emptyQueue .completed, ie := emptyQueue wait
    start := emptyQueue .completed }

theorem emptyQueue_releases {call : Call} (reqcfm : call.reqcfm = true)
    (pushed : call.deferred rwnxCmdMgrInit (slot 0) = false) (frees : Bool) :
    (emptyQueue .completed).Releases call frees := by
  refine .inr ⟨slot 0, ⟨false, rwnxCmdMgrInit⟩, rfl, reqcfm, ?_, by simp, ?_⟩
  · cases polls : call.polls with
    | true => simp [Surroundings.arrival, arrive, emptyQueue, polls, rwnxCmdMgrInit]
    | false => simp [Surroundings.arrival, arrive, emptyQueue, polls]
  · rw [if_neg (by decide), pushed, if_neg Bool.false_ne_true, if_neg (by decide)]
    decide

theorem submission_releases_completed :
    Settles [] ((emptyQueue .completed).caller (sampleCall (some 7)) false) ∧
      Settles [] ((plainScan .completed).rwnxSendScanuReq ⟨[], true⟩) := by
  obtain ⟨calls, scans⟩ := submission_releases (emptyQueue .completed) (sampleCall (some 7)) false
    (by decide) (plainScan .completed) ⟨[], true⟩ (by decide)
  refine ⟨calls.mpr (emptyQueue_releases rfl (by decide) _), scans.mpr (.inr (.inr ⟨?_, rfl, ?_, ?_⟩))⟩
  · rintro ⟨-, dev, -⟩
    cases dev
  · exact emptyQueue_releases rfl (by decide) _
  · exact .inr (emptyQueue_releases rfl (by decide) _)

/-- When the message with the elements times out, it has been freed, and the label frees it
    again. -/
theorem timed_out_elements_freed_twice : ¬ ∀ (scan : ScanuEnv) (param : ScanParam),
    (scan.rwnxSendScanuReq param).ending ≠ .blocked →
      Settles [] (scan.rwnxSendScanuReq param) := by
  intro settles
  have once := (settles (plainScan .timeout) ⟨[], true⟩ (by decide)).msgs scanuVendorIeReq.msg
  have twice : ((plainScan .timeout).rwnxSendScanuReq ⟨[], true⟩).acts.count
      (.freeMsg scanuVendorIeReq.msg) = 2 := by decide
  rw [twice] at once
  revert once
  decide

end Aic8800.Cmd
