import Mathlib
import Aic8800.Lib.Run

/-! # Groups of stations for MU-MIMO

This is what a build with `CONFIG_RWNX_MUMIMO_TX` has, with two users in a group. The access point
keeps 62 groups, puts the stations that have sent of late into pairs, and from time to time selects
for each station the group that it sends in.

The functions are taken to run one after the other, although `rwnx_mu_group_sta_select` and
`rwnx_mu_set_active_sta` are called by the scheduler without the semaphore that
`rwnx_mu_group_work` holds. The counts of groups and of users are not large enough to overflow.
-/

namespace Aic8800.Mu

/-- `NX_MU_GROUP_MAX` -/
def nxMuGroupMax : Nat := 62

/-- `CMD_BUF_MAX` -/
def cmdBufMax : Nat := 1536

/-! ## Maps of groups -/

/-- `BIT_ULL` -/
def bitUll (id : Nat) : BitVec 64 := 1#64 <<< id

/-- `RWNX_SU_GROUP` -/
def suGroup : BitVec 64 := bitUll 0

/-- `RWNX_MU_GROUP_MASK` -/
def muGroupMask : BitVec 64 := 0x7ffffffffffffffe#64

def fls64 (map : BitVec 64) : Nat := if map = 0#64 then 0 else map.toNat.log2 + 1

/-- The loop of `group_for_each`: from the highest group down to the first -/
def idsFrom : Nat → BitVec 64 → List Nat
  | 0, _ => []
  | fuel + 1, map =>
      if 0 < fls64 map - 1 then
        (fls64 map - 1) :: idsFrom fuel (map &&& ~~~bitUll (fls64 map - 1))
      else []

/-- `group_sta_for_each` -/
def groupIds (map : BitVec 64) : List Nat := idsFrom 64 (map &&& muGroupMask)

/-! ## The state -/

/-- `struct rwnx_sta_group_info`. A node is linked if its `next` is not `LIST_POISON1`. -/
structure GroupInfo where
  active : Bool
  update : Bool
  lastUpdate : UInt16
  cnt : Int
  map : BitVec 64
  traffic : Int32
  group : Nat

/-- `struct rwnx_mu_group` -/
structure Group (Sta : Type) where
  userCnt : Int
  users : Fin 2 → Option Sta

/-- `struct mm_mu_group_update_req`, with the groups and the places in them -/
structure UpdateReq (Sta : Type) where
  sta : Sta
  groupCnt : UInt8
  groups : List (UInt8 × UInt8)

/-- What becomes of a request -/
inductive Sending where
  /-- `rwnx_msg_zalloc` has no memory. -/
  | noMemory
  /-- The bus is down, and the request is freed. -/
  | down
  /-- `rwnx_cmd_malloc` has no command. -/
  | noCommand
  /-- The queue of the commands does not take it. -/
  | refused
  /-- It is copied to `cmd_buf`, at once or later. -/
  | passed
  deriving DecidableEq

/-- `struct rwnx_mu_info`, with what the stations have of it and what was sent to the firmware.
    The groups are known by their numbers. -/
structure MuInfo (Sta : Type) where
  activeGroups : List Nat
  activeSta : List Sta
  updateSta : List Sta
  groups : Nat → Group Sta
  info : Sta → GroupInfo
  updateCount : UInt16
  groupCnt : UInt8
  /-- `delayed_work_pending` -/
  pending : Bool
  sent : List (UpdateReq Sta)

/-- `rwnx_mu_group_from_id`; what is before the table is no group. -/
def groupFromId (id : Nat) : Option Nat := if 0 < id ∧ id ≤ nxMuGroupMax then some id else none

/-- `rwnx_mu_group_move_head` -/
def moveHead {α : Type} [DecidableEq α] (list : List α) (linked : Bool) (elem : α) : List α :=
  elem :: if linked then list.erase elem else list

/-- `rwnx_mu_group_sta_init` -/
def GroupInfo.init (beamformee : Bool) : GroupInfo where
  active := false
  update := false
  lastUpdate := 0
  cnt := 0
  map := if beamformee then 0 else suGroup
  traffic := 0
  group := 0

variable {Sta : Type} [DecidableEq Sta]

namespace MuInfo

/-- `rwnx_mu_group_init`. Of a station nothing is read before `rwnx_mu_group_sta_init`. -/
def init : MuInfo Sta where
  activeGroups := (List.range' 1 nxMuGroupMax).reverse
  activeSta := []
  updateSta := []
  groups := fun _ => ⟨0, fun _ => none⟩
  info := fun _ => .init true
  updateCount := 1
  groupCnt := 0
  pending := false
  sent := []

variable (mu : MuInfo Sta)

def onInfo (sta : Sta) (f : GroupInfo → GroupInfo) : MuInfo Sta :=
  { mu with info := Function.update mu.info sta (f (mu.info sta)) }

def onGroup (id : Nat) (f : Group Sta → Group Sta) : MuInfo Sta :=
  { mu with groups := Function.update mu.groups id (f (mu.groups id)) }

/-- The first place of a group that is like this -/
def place (id : Nat) (p : Option Sta → Bool) : Option (Fin 2) :=
  (List.finRange 2).find? fun i => p ((mu.groups id).users i)

/-- `rwnx_mu_group_sta_get_pos` -/
def staGetPos (sta : Sta) (id : Nat) : Int :=
  match groupFromId id with
  | none => -1
  | some id =>
      match mu.place id (· = some sta) with
      | none => -1
      | some i => i.val

/-- A station no longer belongs to a group. -/
def leave (sta : Sta) (id : Nat) : MuInfo Sta :=
  mu.onInfo sta fun info => { info with cnt := info.cnt - 1, map := info.map &&& ~~~bitUll id }

/-- The last user of a group is counted out, but its place is not given up. -/
def leaveAlone (id : Nat) : MuInfo Sta :=
  match (mu.place id (·.isSome)).bind (mu.groups id).users with
  | none => mu
  | some other =>
      ((mu.leave other id).onInfo other fun info =>
        { info with group := if info.group = id then 0 else info.group }).onGroup id
        fun group => { group with userCnt := group.userCnt - 1 }

/-- The body of the loop of `rwnx_mu_group_sta_del` -/
def leaveGroup (sta : Sta) (id : Nat) : MuInfo Sta :=
  match mu.place id (· = some sta) with
  | none => mu
  | some i =>
      let mu := mu.onGroup id fun group =>
        { users := Function.update group.users i none, userCnt := group.userCnt - 1 }
      if (mu.groups id).userCnt = 1 then
        let mu := mu.leaveAlone id
        { mu with groupCnt := mu.groupCnt - 1 }
      else mu

/-- `list_del(&sta->group_info.active)` -/
def delActive (sta : Sta) : MuInfo Sta :=
  { mu.onInfo sta fun info => { info with active := false } with
    activeSta := mu.activeSta.erase sta }

/-- `list_del(&sta->group_info.update)` -/
def delUpdate (sta : Sta) : MuInfo Sta :=
  { mu.onInfo sta fun info => { info with update := false } with
    updateSta := mu.updateSta.erase sta }

/-- `rwnx_mu_group_sta_del`, which gets the semaphore -/
def staDel (sta : Sta) : MuInfo Sta :=
  let mu := (groupIds (mu.info sta).map).foldl (fun mu id => mu.leaveGroup sta id) mu
  let mu := mu.onInfo sta fun info => { info with map := 0, cnt := 0, traffic := 0 }
  let mu := if (mu.info sta).active then mu.delActive sta else mu
  if (mu.info sta).update then mu.delUpdate sta else mu

/-- `rwnx_mu_group_move_head(&mu->update_sta, &sta->group_info.update)` -/
def moveUpdate (sta : Sta) : MuInfo Sta :=
  { mu.onInfo sta fun info => { info with update := true } with
    updateSta := moveHead mu.updateSta (mu.info sta).update sta }

/-- `rwnx_mu_group_move_head(&mu->active_groups, &group->list)` -/
def moveGroup (id : Nat) : MuInfo Sta := { mu with activeGroups := moveHead mu.activeGroups true id }

/-- The body of the loop of `rwnx_mu_group_remove_users` -/
def removeUser (id : Nat) (i : Fin 2) : MuInfo Sta :=
  match (mu.groups id).users i with
  | none => mu
  | some sta =>
      ((mu.onGroup id fun group => { group with users := Function.update group.users i none }).leave
        sta id).moveUpdate sta

/-- `rwnx_mu_group_remove_users` -/
def removeUsers (id : Nat) : MuInfo Sta :=
  let mu := (List.finRange 2).foldl (fun mu i => mu.removeUser id i) mu
  let mu := if (mu.groups id).userCnt ≠ 0 then { mu with groupCnt := mu.groupCnt - 1 } else mu
  mu.onGroup id fun group => { group with userCnt := 0 }

/-- A station takes a place of a group. -/
def addUser (id : Nat) (i : Fin 2) (sta : Sta) : MuInfo Sta :=
  let mu := mu.onGroup id fun group =>
    { users := Function.update group.users i (some sta), userCnt := group.userCnt + 1 }
  (mu.onInfo sta fun info =>
    { info with cnt := info.cnt + 1, map := info.map ||| bitUll id }).moveUpdate sta

/-- The loops of `rwnx_mu_group_add_users`, of which the inner goes on from the place `j` -/
def addFrom (id : Nat) : Nat → List Sta → MuInfo Sta → MuInfo Sta
  | _, [], mu => mu
  | j, sta :: rest, mu =>
      match (List.finRange 2).find? fun i => j ≤ i.val ∧ (mu.groups id).users i = none with
      | none => mu
      | some i => addFrom id (i + 1) rest (mu.addUser id i sta)

/-- `rwnx_mu_group_add_users` -/
def addUsers (id : Nat) (users : List Sta) : MuInfo Sta :=
  let mu := if (mu.groups id).userCnt = 0 then { mu with groupCnt := mu.groupCnt + 1 } else mu
  addFrom id 0 users mu

/-- `rwnx_mu_group_create_one`, which tells how many groups are left and whether there is a new
    one -/
def createOne (sta other : Sta) (left : Int) : Option (MuInfo Sta × Int × Bool) :=
  let groupMatch := (mu.info sta).map &&& (mu.info other).map
  if groupMatch ≠ 0#64 then
    (groupFromId (fls64 groupMatch - 1)).map fun id => (mu.moveGroup id, left, false)
  else
    mu.activeGroups.getLast?.map fun id =>
      (((mu.removeUsers id).addUsers id [sta, other]).moveGroup id, left - 1, true)

end MuInfo

/-- `rwnx_mu_group_create`; the list is what comes behind the station in `active_sta`. A new group
    is counted in `rwnx_mu_group_create_one` and here. -/
def MuInfo.create (sta : Sta) : List Sta → MuInfo Sta → Int → Option (MuInfo Sta × Int)
  | [], mu, left => some (mu, left)
  | other :: rest, mu, left =>
      if left = 0 then some (mu, left)
      else do
        let (mu, left, new) ← mu.createOne sta other left
        MuInfo.create sta rest mu (if new then left - 1 else left)

/-- The loop over `active_sta` of `rwnx_mu_group_work` -/
def MuInfo.regroup : List Sta → MuInfo Sta → Int → Option (MuInfo Sta × Int)
  | [], mu, left => some (mu, left)
  | sta :: rest, mu, left => do
      let (mu, left) ← (if left ≠ 0 then MuInfo.create sta rest mu left else some (mu, left))
      let mu := mu.onInfo sta fun info => { info with lastUpdate := mu.updateCount }
      MuInfo.regroup rest (mu.delActive sta) left

namespace MuInfo

variable (mu : MuInfo Sta)

/-- What `rwnx_send_mu_group_update_req` writes -/
def updateReq (sta : Sta) : UpdateReq Sta where
  sta := sta
  groupCnt := .ofInt (mu.info sta).cnt
  groups := ((groupIds (mu.info sta).map).take (mu.info sta).cnt.toNat).map fun id =>
    (.ofNat id, .ofInt (mu.staGetPos sta id))

/-- How many bytes it has for that: `param_len` has 16 bits. -/
def paramLen (sta : Sta) : Nat := ((2 + (mu.info sta).cnt * 2) % 2 ^ 16).toNat

/-- All that is written, by it and to `cmd_buf` behind 16 bytes of headers, is inside. -/
def Sends (sta : Sta) : Sending → Prop
  | .noMemory => True
  | .down | .refused => 2 + (mu.updateReq sta).groups.length * 2 ≤ mu.paramLen sta
  | .noCommand => False
  | .passed => 2 + (mu.updateReq sta).groups.length * 2 ≤ mu.paramLen sta ∧
      16 + mu.paramLen sta ≤ cmdBufMax

instance (sta : Sta) : (sending : Sending) → Decidable (mu.Sends sta sending)
  | .noMemory => inferInstanceAs (Decidable True)
  | .down => inferInstanceAs (Decidable (_ ≤ _))
  | .refused => inferInstanceAs (Decidable (_ ≤ _))
  | .noCommand => inferInstanceAs (Decidable False)
  | .passed => inferInstanceAs (Decidable (_ ∧ _))

/-- The body of the loop over `update_sta`. What is not inside is no step. -/
def sendUpdate (sending : Sta → Sending) (sta : Sta) : Option (MuInfo Sta) :=
  if mu.Sends sta (sending sta) then
    let sent := if sending sta = .passed then mu.sent ++ [mu.updateReq sta] else mu.sent
    some ({ mu with sent }.delUpdate sta)
  else none

def bumpCount : MuInfo Sta :=
  { mu with
    updateCount := if mu.updateCount + 1 = 0 then mu.updateCount + 2 else mu.updateCount + 1 }

/-- `rwnx_mu_group_work` up to the requests -/
def regroupAll : Option (MuInfo Sta) :=
  (regroup mu.bumpCount.activeSta mu.bumpCount nxMuGroupMax).map (·.1)

/-- `rwnx_mu_group_work` up to the selection, which is a call of its own. It does nothing without
    `mutx`, or if it does not get the semaphore. -/
def groupWork (mutx locked : Bool) (sending : Sta → Sending) : Option (MuInfo Sta) :=
  let mu := { mu with pending := false }
  if mutx && locked then do
    let mu ← mu.regroupAll
    mu.updateSta.foldlM (fun mu sta => mu.sendUpdate sending sta) mu
  else some mu

/-- `rwnx_mu_set_active_sta` -/
def setActiveSta (sta : Sta) (traffic : Int32) : MuInfo Sta :=
  if (mu.info sta).map &&& suGroup ≠ 0#64 then mu
  else
    let mu := mu.onInfo sta fun info => { info with traffic := info.traffic + traffic }
    if (mu.info sta).lastUpdate ≠ mu.updateCount ∨ mu.activeSta ≠ [] then
      let mu := { mu.onInfo sta fun info => { info with active := true } with
        activeSta := moveHead mu.activeSta (mu.info sta).active sta }
      { mu with pending := mu.pending || decide (mu.activeSta.length ≠ 1) }
    else mu

/-- `rwnx_mu_set_active_group` -/
def setActiveGroup (id : Nat) : Option (MuInfo Sta) := (groupFromId id).map mu.moveGroup

end MuInfo

end Aic8800.Mu
