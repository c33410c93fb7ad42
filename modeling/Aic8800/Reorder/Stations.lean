import Mathlib.Logic.Function.Basic
import Aic8800.Lib.Run
import Aic8800.Reorder.Block

/-! # The station table of the receive path

`aicwf_rx_priv` keeps a list of stations, each with one reorder block for every
TID. `reord_process_unit` finds the block of a frame by the address of its
station, and sets the station up when it is met for the first time.
-/

namespace Aic8800.Reorder

open Lib

abbrev MacAddr := Vector UInt8 6

inductive IfType where
  | station
  | p2pClient
  | ap
  | p2pGo
  | other
  deriving Repr, DecidableEq

/-- An Ethernet header, with the protocol in host order. -/
structure EthHdr where
  hDest : MacAddr
  hSource : MacAddr
  hProto : Nat
  deriving DecidableEq

def ethPPae : Nat := 0x888E

/-- The address by which the reorder code knows the station of a frame. -/
def EthHdr.staMac (eh : EthHdr) : IfType → Option MacAddr
  | .station | .p2pClient => some eh.hDest
  | .ap | .p2pGo => some eh.hSource
  | .other => none

structure ReordCtrlInfo where
  macAddr : MacAddr
  preorderCtrl : Fin 8 → ReordCtrl

structure RxPriv where
  stasReordList : List ReordCtrlInfo

def reordInitSta (mac : MacAddr) : ReordCtrlInfo := ⟨mac, fun _ => reordInitCtrl⟩

def findSta (mac : MacAddr) (stas : List ReordCtrlInfo) : Option ReordCtrlInfo :=
  stas.find? fun info => info.macAddr == mac

/-- Replace one block of the first station with an address. -/
def setCtrl (mac : MacAddr) (tid : Fin 8) (c : ReordCtrl) : List ReordCtrlInfo → List ReordCtrlInfo
  | [] => []
  | info :: stas =>
      if info.macAddr = mac then
        { info with preorderCtrl := Function.update info.preorderCtrl tid c } :: stas
      else info :: setCtrl mac tid c stas

/-- A call of `reord_process_unit`: the interface type, the Ethernet header, the
    frame, and whether `reord_init_sta` would succeed (bus up, memory left). -/
structure RxUnit where
  iftype : IfType
  eh : EthHdr
  frame : RecvMsdu
  initOk : Bool

/-- What a call leaves: the table, the return value, the frames passed to
    `reord_single_frame_ind` and the frames whose buffer was freed instead. -/
structure RxResult where
  rx : RxPriv
  ret : Int
  ind : List RecvMsdu
  drop : List RecvMsdu

def RxResult.ofPass (stas : List ReordCtrlInfo) (mac : MacAddr) (tid : Fin 8) (pass : Pass) :
    RxResult :=
  ⟨⟨setCtrl mac tid pass.ctrl stas⟩, 0, pass.ind, pass.drop⟩

def reordProcessUnit (rx : RxPriv) (u : RxUnit) : RxResult :=
  let isMcast := u.eh.hDest[0] &&& 0x01 = 1
  if u.eh.hProto = ethPPae ∨ isMcast then ⟨rx, 0, [u.frame], []⟩
  else
    match u.eh.staMac u.iftype with
    | none => ⟨rx, -1, [], [u.frame]⟩
    | some mac =>
        let tid := u.frame.tid
        match findSta mac rx.stasReordList with
        | some info =>
            .ofPass rx.stasReordList mac tid (reordProcessCtrl (info.preorderCtrl tid) u.frame)
        | none =>
            if u.initOk then
              let info := reordInitSta mac
              .ofPass (rx.stasReordList ++ [info]) mac tid
                (reordProcessCtrl (info.preorderCtrl tid) u.frame)
            else ⟨rx, -1, [u.frame], []⟩

/-- Whether the address is a group address. -/
def MacAddr.isGroup (mac : MacAddr) : Bool := mac[0] &&& 0x01 = 1

def reordFlushTid (rx : RxPriv) (iftype : IfType) (eh : EthHdr) (tid : Fin 8) : RxResult :=
  match eh.staMac iftype with
  | none => ⟨rx, -1, [], []⟩
  | some mac =>
      match findSta mac rx.stasReordList with
      | some info => .ofPass rx.stasReordList mac tid (reordFlushCtrl (info.preorderCtrl tid))
      | none => ⟨rx, 0, [], []⟩

inductive RxEvent where
  | unit (u : RxUnit)
  | timeout (mac : MacAddr) (tid : Fin 8)
  | flush (iftype : IfType) (eh : EthHdr) (tid : Fin 8)

/-- One event, run to its end under `reord_list_lock`. -/
def rxStep (rx : RxPriv) : RxEvent → Option RxPriv
  | .unit u => some (reordProcessUnit rx u).rx
  | .timeout mac tid =>
      (findSta mac rx.stasReordList).map fun info =>
        ⟨setCtrl mac tid (reordTimeoutWorker (info.preorderCtrl tid)).ctrl rx.stasReordList⟩
  | .flush iftype eh tid => some (reordFlushTid rx iftype eh tid).rx

def sampleMac : MacAddr := #v[2, 0, 0, 0, 0, 1]

def sampleUnit (n : Nat) : RxUnit :=
  ⟨.station, ⟨sampleMac, sampleMac, 0x0800⟩, sampleFrame n n, true⟩

/-- Every block of a list of stations has a property. -/
def AllCtrl (good : ReordCtrl → Prop) (stas : List ReordCtrlInfo) : Prop :=
  ∀ info ∈ stas, ∀ tid, good (info.preorderCtrl tid)

namespace AllCtrl

variable {good : ReordCtrl → Prop} {stas : List ReordCtrlInfo}

theorem found {mac : MacAddr} {info : ReordCtrlInfo} (all : AllCtrl good stas)
    (hit : findSta mac stas = some info) (tid : Fin 8) : good (info.preorderCtrl tid) :=
  all info (List.mem_of_find?_eq_some hit) tid

theorem setCtrl {mac : MacAddr} {tid : Fin 8} {c : ReordCtrl} (all : AllCtrl good stas)
    (new : good c) : AllCtrl good (setCtrl mac tid c stas) := by
  induction stas with
  | nil => exact all
  | cons head rest ih =>
      have first := all head (by simp)
      have others : AllCtrl good rest := fun info member => all info (by simp [member])
      simp only [Reorder.setCtrl]
      split
      · intro info member other
        rcases List.mem_cons.mp member with rfl | member
        · by_cases same : other = tid
          · subst same
            simpa using new
          · simpa [Function.update_of_ne same] using first other
        · exact others info member other
      · intro info member other
        rcases List.mem_cons.mp member with rfl | member
        · exact first other
        · exact ih others info member other

theorem initSta (all : AllCtrl good stas) (base : good reordInitCtrl) (mac : MacAddr) :
    AllCtrl good (stas ++ [reordInitSta mac]) := by
  intro info member tid
  rcases List.mem_append.mp member with old | new
  · exact all info old tid
  · obtain rfl := List.mem_singleton.mp new
    exact base

/-- A property of blocks that every pass keeps holds of the whole table. -/
theorem step (base : good reordInitCtrl)
    (process : ∀ c f, good c → good (reordProcessCtrl c f).ctrl)
    (worker : ∀ c, good c → good (reordTimeoutWorker c).ctrl)
    (flush : ∀ c, good c → good (reordFlushCtrl c).ctrl) {rx rx' : RxPriv} {event : RxEvent}
    (all : AllCtrl good rx.stasReordList) (taken : rxStep rx event = some rx') :
    AllCtrl good rx'.stasReordList := by
  cases event with
  | unit u =>
      obtain rfl := Option.some.inj taken
      simp only [reordProcessUnit]
      split
      · exact all
      split
      · exact all
      split
      · rename_i hit
        exact all.setCtrl (process _ _ (all.found hit _))
      · split
        · exact (all.initSta base _).setCtrl (process _ _ base)
        · exact all
  | timeout mac tid =>
      obtain ⟨info, hit, rfl⟩ := Option.map_eq_some_iff.mp taken
      exact all.setCtrl (worker _ (all.found hit _))
  | flush iftype eh tid =>
      obtain rfl := Option.some.inj taken
      simp only [reordFlushTid]
      split
      · exact all
      split
      · rename_i hit
        exact all.setCtrl (flush _ (all.found hit _))
      · exact all

end AllCtrl

end Aic8800.Reorder
