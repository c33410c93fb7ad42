import Aic8800.Reorder.Frames
import Aic8800.Reorder.Timers

/-! # Stations that come and go

Any number of threads work on the station table: receive threads with a frame or
with a flush, the handler and the worker of each block, and those that remove a
station. `reord_process_unit` and `reord_flush_tid` look a station up under
`stas_reord_lock` and use the block they found after they have dropped it;
`reord_deinit_sta` goes through the eight blocks one by one, then unlinks the
station, then frees it. Each thread is cut where it takes or drops one of these
locks, and where it waits for a timer or a work item.

A station is known by the address it was allocated at. A thread whose station has
been freed has no next step. A flush gives each element back before it unlinks it
from the list of the block, whose lock it keeps meanwhile.
-/

namespace Aic8800.Reorder

open Lib Lib.Threads

/-- A `reord_ctrl_info`, and whether it is in `stas_reord_list`. -/
structure StaEntry where
  addr : Nat
  info : ReordCtrlInfo
  linked : Bool

namespace StaEntry

def ctrl (e : StaEntry) (tid : Fin 8) : ReordCtrl := e.info.preorderCtrl tid

def setCtrl (e : StaEntry) (tid : Fin 8) (c : ReordCtrl) : StaEntry :=
  { e with info := { e.info with preorderCtrl := Function.update e.info.preorderCtrl tid c } }

/-- The pending frames of a station. -/
def pending (e : StaEntry) : List RecvMsdu :=
  (List.finRange 8).flatMap fun tid => (e.ctrl tid).reordList

end StaEntry

/-- What the threads share. `rwnxVif` is the type of the interface of the frame
    that a receive thread took up last; `addrs` counts the stations so far. -/
structure RxFrames where
  rwnxVif : IfType
  stas : List StaEntry
  addrs : Nat
  pool : RxPool

/-- Where `reord_deinit_sta` is in the block it is at. -/
inductive DeinitPc where
  | stop
  | testTimer
  | deleteTimer
  | cancelWork
  | drain
  deriving DecidableEq

/-- Where a thread is. `deinit` has the blocks that come after the one it is at,
    and `unlink` the element that a flush has given back and not unlinked. -/
inductive Point where
  | process (eh : EthHdr) (f : RecvMsdu)
  | lookup (mac : MacAddr) (f : RecvMsdu)
  | flushTid (eh : EthHdr) (tid : Fin 8)
  | flushLookup (mac : MacAddr) (tid : Fin 8)
  | block (addr : Nat) (tid : Fin 8) (task : Task)
  | unlink (addr : Nat) (tid : Fin 8) (element : Nat)
  | search (mac : MacAddr)
  | deinit (addr : Nat) (tid : Fin 8) (later : List (Fin 8)) (pc : DeinitPc)
  | listDel (addr : Nat)
  | free (addr : Nat)
  deriving DecidableEq

/-- The frame that a thread at a block has taken an element for and not yet let go. -/
def Task.inHand : Task → Option RecvMsdu
  | .unit _ .offAfter => none
  | .unit f _ => some f
  | _ => none

namespace Point

/-- The station that the thread has a pointer to. -/
def station : Point → Option Nat
  | .block addr _ _ | .unlink addr _ _ | .deinit addr _ _ _ | .listDel addr | .free addr => some addr
  | _ => none

def unlinks : Point → Option Nat
  | .unlink _ _ element => some element
  | _ => none

def isSearch : Point → Bool
  | .search _ => true
  | _ => false

def inHand : Point → Option RecvMsdu
  | .process _ f | .lookup _ f => some f
  | .block _ _ task => task.inHand
  | _ => none

end Point

/-- The threads at a block. -/
def tasksAt (addr : Nat) (tid : Fin 8) (threads : List Point) : List Task :=
  threads.filterMap fun
    | .block a t task => if a = addr ∧ t = tid then some task else none
    | _ => none

/-- Whether a flush has `reord_list_lock` of a block. -/
def lockHeld (addr : Nat) (tid : Fin 8) (threads : List Point) : Bool :=
  threads.any fun
    | .unlink a t _ => a = addr && t = tid
    | _ => false

/-- Whether the next step of a thread at a block takes `reord_list_lock`. -/
def Task.locks : Task → Bool
  | .unit _ .locked | .unit _ .offLocked | .flush .drain | .worker => true
  | _ => false

namespace RxFrames

def init : RxFrames := ⟨.other, [], 0, .init⟩

def pending (s : RxFrames) : List RecvMsdu := s.stas.flatMap StaEntry.pending

def addresses (s : RxFrames) : List Nat := s.stas.map StaEntry.addr

/-- The first station in the list with an address. -/
def find (s : RxFrames) (mac : MacAddr) : Option StaEntry :=
  s.stas.find? fun e => e.linked && e.info.macAddr == mac

/-- What a pointer points to, unless it has been freed. -/
def entry (s : RxFrames) (addr : Nat) : Option StaEntry := s.stas.find? (·.addr == addr)

def setCtrl (s : RxFrames) (addr : Nat) (tid : Fin 8) (c : ReordCtrl) : RxFrames :=
  { s with stas := s.stas.map fun e => if e.addr = addr then e.setCtrl tid c else e }

def release (s : RxFrames) (ind drop : List RecvMsdu) : RxFrames :=
  { s with pool := s.pool.release ind drop }

/-- A block after a pass, and the frames that are done with. -/
def pass (s : RxFrames) (addr : Nat) (tid : Fin 8) (p : Pass) : RxFrames :=
  (s.setCtrl addr tid p.ctrl).release p.ind p.drop

/-! ## What comes from outside -/

/-- What comes from outside: a data frame, the flush for a frame that is not to be
    reordered, a timer that runs out, a work item that is taken up, and the removal
    of a station. -/
inductive Event where
  | data (iftype : IfType) (d : RxData)
  | flush (iftype : IfType) (eh : EthHdr) (tid : Fin 8)
  | expire (addr : Nat) (tid : Fin 8)
  | startWork (addr : Nat) (tid : Fin 8)
  | remove (mac : MacAddr)

/-- An element for a frame, which goes to `reord_process_unit`. -/
def attach (s : RxFrames) (eh : EthHdr) (f : RecvMsdu) (count : Nat) : RxFrames × Option Point :=
  match s.pool.attach f count with
  | none => (s, none)
  | some pool => ({ s with pool := pool }, some (.process eh f))

/-- The part of `rwnx_rxdataind_aicwf` before `reord_process_unit`, for a frame
    that is to be reordered; other interface types are not served. -/
def rxdataind (s : RxFrames) (iftype : IfType) (d : RxData) : RxFrames × Option Point :=
  let first := s.pool.skbs.issued
  let s := { s with rwnxVif := iftype }
  if d.isQos && d.needReord then
    match iftype with
    | .station | .p2pClient => s.attach d.skb.eh (stationFrame d first) 1
    | .ap | .p2pGo =>
        match d.msdus.getLast? with
        | none => (s, none)
        | some last => s.attach last.eh (apFrame d last first) d.msdus.length
    | .other => (s, none)
  else (s, none)

/-- The timer and the work item of a block. -/
def blockEvent (s : RxFrames) (threads : List Point) (addr : Nat) (tid : Fin 8) (call : BlockCall) :
    Option (RxFrames × Option Point) :=
  (s.entry addr).bind fun e =>
    (Shared.event ⟨e.ctrl tid, [], []⟩ (tasksAt addr tid threads) call).map fun next =>
      (s.setCtrl addr tid next.1.ctrl, next.2.map (.block addr tid))

def event (s : RxFrames) (threads : List Point) : Event → Option (RxFrames × Option Point)
  | .data iftype d => some (s.rxdataind iftype d)
  | .flush iftype eh tid => some ({ s with rwnxVif := iftype }, some (.flushTid eh tid))
  | .expire addr tid => s.blockEvent threads addr tid .expire
  | .startWork addr tid => s.blockEvent threads addr tid .startWork
  | .remove mac => some (s, some (.search mac))

/-! ## What a thread does next -/

/-- `reord_process_unit` up to `stas_reord_lock`. The exit for another interface
    type frees the buffer and keeps the element. -/
def processUnit (s : RxFrames) (eh : EthHdr) (f : RecvMsdu) : RxFrames × Option Point :=
  if eh.hProto = ethPPae ∨ eh.hDest.isGroup then (s.release [f] [], none)
  else
    match eh.staMac s.rwnxVif with
    | none => ({ s with pool := { s.pool with skbs := s.pool.skbs.settles [dropFate f] } }, none)
    | some mac => (s, some (.lookup mac f))

/-- `reord_init_sta`, and the station at the end of the list. -/
def initSta (s : RxFrames) (mac : MacAddr) : RxFrames :=
  { s with stas := s.stas ++ [⟨s.addrs, reordInitSta mac, true⟩], addrs := s.addrs + 1 }

/-- The part under `stas_reord_lock`; `initOk` is whether `reord_init_sta` succeeds
    (bus up, memory left). -/
def lookup (s : RxFrames) (mac : MacAddr) (f : RecvMsdu) (initOk : Bool) :
    RxFrames × Option Point :=
  match s.find mac with
  | some e =>
      (s.setCtrl e.addr f.tid (reordReenable (e.ctrl f.tid)),
        some (.block e.addr f.tid (.unit f .check)))
  | none =>
      if initOk then (s.initSta mac, some (.block s.addrs f.tid (.unit f .check)))
      else (s.release [f] [], none)

/-- One turn of the loop of a flush: the first pending frame is indicated, or none
    is left and the block is disabled. -/
def flushTurn (s : RxFrames) (addr : Nat) (tid : Fin 8) (c : ReordCtrl) : RxFrames × Option Point :=
  match c.reordList with
  | [] => (s.setCtrl addr tid { c with enable := false }, some (.block addr tid (.flush .testTimer)))
  | f :: rest =>
      (s.pass addr tid ⟨{ c with reordList := rest }, [f], []⟩,
        some (.unlink addr tid (s.pool.element f)))

/-- A thread at a block; `busUp` is what the timer handler finds. -/
def blockAction (s : RxFrames) (others : List Point) (addr : Nat) (tid : Fin 8) (c : ReordCtrl) :
    Task → Bool → Option (RxFrames × Option Point)
  | .flush .drain, _ => some (s.flushTurn addr tid c)
  | .handler, false => some (s, none)
  | task, _ =>
      (Shared.action ⟨c, [], []⟩ (tasksAt addr tid others) task ()).map fun next =>
        (s.pass addr tid ⟨next.1.ctrl, next.1.handed, next.1.dropped⟩, next.2.map (.block addr tid))

/-- The block that `reord_deinit_sta` is at next; after the last one the station is
    unlinked. -/
def deinitNext (addr : Nat) : List (Fin 8) → Point
  | [] => .listDel addr
  | tid :: later => .deinit addr tid later .stop

def deinitAction (s : RxFrames) (others : List Point) (addr : Nat) (tid : Fin 8)
    (later : List (Fin 8)) (c : ReordCtrl) : DeinitPc → Option (RxFrames × Option Point)
  | .stop =>
      if c.enable then
        some (s.setCtrl addr tid { c with enable := false },
          some (.deinit addr tid later .testTimer))
      else some (s, some (.deinit addr tid later .drain))
  | .testTimer =>
      some (s, some (.deinit addr tid later (if c.reordTimer then .deleteTimer else .cancelWork)))
  | .deleteTimer =>
      if Task.handler ∈ tasksAt addr tid others then none
      else some (s.setCtrl addr tid { c with reordTimer := false },
        some (.deinit addr tid later .cancelWork))
  | .cancelWork =>
      if Task.worker ∈ tasksAt addr tid others then none
      else some (s.setCtrl addr tid { c with reordTimerWork := false },
        some (.deinit addr tid later .drain))
  | .drain =>
      if lockHeld addr tid others then none
      else some (s.pass addr tid ⟨{ c with reordList := [] }, [], c.reordList⟩,
        some (deinitNext addr later))

/-- `list_del` of a station -/
def listDel (s : RxFrames) (addr : Nat) : RxFrames :=
  { s with stas := s.stas.map fun e => if e.addr = addr then { e with linked := false } else e }

def kfree (s : RxFrames) (addr : Nat) : RxFrames :=
  { s with stas := s.stas.filter fun e => e.addr != addr }

/-- A thread at a pointer that has been freed has no next step, and neither has a
    flush when the element it is to unlink was taken meanwhile. -/
def action (s : RxFrames) (others : List Point) : Point → Bool → Option (RxFrames × Option Point)
  | .process eh f, _ => some (s.processUnit eh f)
  | .lookup mac f, initOk => some (s.lookup mac f initOk)
  | .flushTid eh tid, _ => some (s, (eh.staMac s.rwnxVif).map (.flushLookup · tid))
  | .flushLookup mac tid, _ =>
      some (s, (s.find mac).map fun e => .block e.addr tid (.flush .check))
  | .block addr tid task, busUp =>
      if task.locks && lockHeld addr tid others then none
      else (s.entry addr).bind fun e => s.blockAction others addr tid (e.ctrl tid) task busUp
  | .unlink addr tid element, _ =>
      if element ∈ s.pool.rxframesFreequeue then
        (s.entry addr).map fun e => s.flushTurn addr tid (e.ctrl tid)
      else none
  | .search mac, _ => some (s, (s.find mac).map fun e => deinitNext e.addr (List.finRange 8))
  | .deinit addr tid later pc, _ =>
      (s.entry addr).bind fun e => s.deinitAction others addr tid later (e.ctrl tid) pc
  | .listDel addr, _ => (s.entry addr).map fun _ => (s.listDel addr, some (.free addr))
  | .free addr, _ => (s.entry addr).map fun _ => (s.kfree addr, none)

def program : Program RxFrames Point Event Bool := ⟨event, action⟩

abbrev RxConfig := Config RxFrames Point

abbrev RxLabel := Label Event Point Bool

/-- The frames that have an element: those in hand and the pending ones. -/
def frames (c : RxConfig) : List RecvMsdu :=
  c.threads.filterMap Point.inHand ++ c.shared.pending

/-! ## The property and when it holds -/

/-- Every element is in the free queue or belongs to one frame, and every buffer
    that was attached is attached to one frame or was delivered or freed once. -/
def Conserved (c : RxConfig) : Prop := c.shared.pool.Conserved (frames c)

/-- What a thread relies on is there: its station is not freed, and the element
    that it is about to unlink is not in use again. -/
structure Sound (s : RxFrames) (t : Point) : Prop where
  station : ∀ addr ∈ t.station, addr ∈ s.addresses
  unlinks : ∀ element ∈ t.unlinks, element ∈ s.pool.rxframesFreequeue

/-- The steps that release all buffers of a frame: no chain is taken up whose
    count is a multiple of 256, the interface has a type that is served when
    `reord_process_unit` reads it, a frame of several buffers is neither repeated nor
    a late RTP frame, no such frame is pending when its block is taken down, and
    nothing is pending when its station is freed. -/
def Lossless (c : RxConfig) : RxLabel → Prop
  | .event (.data iftype d) =>
      iftype = .ap ∨ iftype = .p2pGo → d.isQos && d.needReord →
        ∀ last ∈ d.msdus.getLast?, CountsFit (apFrame d last c.shared.pool.skbs.issued)
  | .run (.process eh _) _ =>
      eh.hProto = ethPPae ∨ eh.hDest.isGroup ∨ c.shared.rwnxVif ≠ .other
  | .run (.block addr tid (.unit f .locked)) _ =>
      Single f ∨ ∀ e ∈ c.shared.entry addr, (e.ctrl tid).refuses f = false
  | .run (.deinit addr tid _ .drain) _ =>
      ∀ e ∈ c.shared.entry addr, ∀ f ∈ (e.ctrl tid).reordList, Single f
  | .run (.free addr) _ => ∀ e ∈ c.shared.entry addr, e.pending = []
  | _ => True

/-- The steps that take nothing away that is in use: the element of a new frame is
    not one that a flush has still to unlink; a station that is unlinked is in the
    list and nobody searches it; one that is freed has no timer set and no work item
    queued, and no other thread is at it or searches the list. -/
def Safe (c : RxConfig) : RxLabel → Prop
  | .event (.data _ _) =>
      ∀ t ∈ c.threads, ∀ e ∈ t.unlinks, c.shared.pool.rxframesFreequeue.head? ≠ some e
  | .run (.listDel addr) _ =>
      (∀ e ∈ c.shared.entry addr, e.linked = true) ∧ ∀ t ∈ c.threads, t.isSearch = false
  | .run (.free addr) _ =>
      (∀ e ∈ c.shared.entry addr, ∀ tid,
        (e.ctrl tid).reordTimer = false ∧ (e.ctrl tid).reordTimerWork = false) ∧
      ∀ t ∈ c.threads.erase (.free addr), t.station ≠ some addr ∧ t.isSearch = false
  | _ => True

def Guard (c : RxConfig) (l : RxLabel) : Prop := Lossless c l ∧ Safe c l

/-- The steps at which `Lossless` is about what they drop. -/
def drops : RxLabel → Bool
  | .run (.process _ _) _ | .run (.block _ _ (.unit _ .locked)) _ | .run (.deinit _ _ _ .drain) _
  | .run (.free _) _ => true
  | _ => false

/-! ## What a pass does to the station table -/

/-- One list of several replaced by another. -/
theorem flatMap_update_perm {ι α : Type} [DecidableEq ι] (lists : ι → List α) (i : ι) (new : List α)
    {keys : List ι} (distinct : keys.Nodup) (member : i ∈ keys) :
    (keys.flatMap (Function.update lists i new) ++ lists i).Perm
      (new ++ keys.flatMap lists) := by
  induction keys with
  | nil => cases member
  | cons k rest ih =>
      obtain ⟨absent, others⟩ := List.nodup_cons.mp distinct
      by_cases here : i = k
      · subst here
        have same : rest.flatMap (Function.update lists i new) = rest.flatMap lists := by
          apply List.flatMap_congr
          intro j inside
          apply Function.update_of_ne
          rintro rfl
          exact absent inside
        rw [List.flatMap_cons, List.flatMap_cons, Function.update_self, same, List.append_assoc]
        exact List.perm_append_comm.append_left new
      · have there := ih others ((List.mem_cons.mp member).resolve_left here)
        rw [List.flatMap_cons, List.flatMap_cons, Function.update_of_ne (Ne.symm here),
          List.append_assoc]
        refine (there.append_left (lists k)).trans ?_
        rw [← List.append_assoc, ← List.append_assoc]
        exact List.perm_append_comm.append_right _

theorem pending_staSetCtrl (e : StaEntry) (tid : Fin 8) (c : ReordCtrl) :
    ((e.setCtrl tid c).pending ++ (e.ctrl tid).reordList).Perm (c.reordList ++ e.pending) := by
  have swapped := flatMap_update_perm (fun t => (e.ctrl t).reordList) tid c.reordList
    (List.nodup_finRange 8) (List.mem_finRange tid)
  have same : (fun t => ((e.setCtrl tid c).ctrl t).reordList) =
      Function.update (fun t => (e.ctrl t).reordList) tid c.reordList := by
    funext t
    by_cases here : t = tid
    · subst here
      simp [StaEntry.ctrl, StaEntry.setCtrl]
    · simp [StaEntry.ctrl, StaEntry.setCtrl, Function.update_of_ne here]
  simp only [StaEntry.pending, same]
  exact swapped

theorem pending_setCtrl {s : RxFrames} {e : StaEntry} (distinct : s.addresses.Nodup)
    (member : e ∈ s.stas) (tid : Fin 8) (c : ReordCtrl) :
    ((s.setCtrl e.addr tid c).pending ++ (e.ctrl tid).reordList).Perm
      (c.reordList ++ s.pending) := by
  obtain ⟨kind, stas, addrs, pool⟩ := s
  simp only [addresses, setCtrl, pending] at distinct member ⊢
  induction stas with
  | nil => cases member
  | cons d rest ih =>
      obtain ⟨absent, others⟩ := List.nodup_cons.mp distinct
      rw [List.map_cons, List.flatMap_cons, List.flatMap_cons, List.append_assoc]
      rcases List.mem_cons.mp member with rfl | later
      · have same : (rest.map fun d => if d.addr = e.addr then d.setCtrl tid c else d) = rest := by
          refine (List.map_congr_left fun d inside => ?_).trans (List.map_id rest)
          exact if_neg fun (same : d.addr = e.addr) => absent (same ▸ List.mem_map_of_mem inside)
        rw [same, if_pos rfl]
        refine (List.perm_append_comm.append_left _).trans ?_
        rw [← List.append_assoc, ← List.append_assoc]
        exact (pending_staSetCtrl e tid c).append_right _
      · have elsewhere : d.addr ≠ e.addr := fun same => absent (same ▸ List.mem_map_of_mem later)
        rw [if_neg elsewhere]
        refine ((ih others later).append_left _).trans ?_
        rw [← List.append_assoc, ← List.append_assoc]
        exact List.perm_append_comm.append_right _

/-- Freeing a station takes its pending frames away. -/
theorem pending_free {stas : List StaEntry} {e : StaEntry}
    (distinct : (stas.map StaEntry.addr).Nodup) (member : e ∈ stas) :
    (e.pending ++ (stas.filter fun d => d.addr != e.addr).flatMap StaEntry.pending).Perm
      (stas.flatMap StaEntry.pending) := by
  induction stas with
  | nil => cases member
  | cons d rest ih =>
      obtain ⟨absent, others⟩ := List.nodup_cons.mp distinct
      rcases List.mem_cons.mp member with rfl | later
      · have same : (rest.filter fun d => d.addr != e.addr) = rest := by
          refine List.filter_eq_self.mpr fun d inside => bne_iff_ne.mpr fun same => ?_
          exact absent (same ▸ List.mem_map_of_mem inside)
        simp only [List.filter_cons, bne_self_eq_false, Bool.false_eq_true, if_false, same,
          List.flatMap_cons]
        exact .refl _
      · have elsewhere : (d.addr != e.addr) = true :=
          bne_iff_ne.mpr fun same => absent (same ▸ List.mem_map_of_mem later)
        simp only [List.filter_cons, elsewhere, if_true]
        rw [List.flatMap_cons, List.flatMap_cons, ← List.append_assoc]
        refine (List.perm_append_comm.append_right _).trans ?_
        rw [List.append_assoc]
        exact (ih others later).append_left _

variable {s : RxFrames} {e : StaEntry} {addr : Nat} {tid : Fin 8}

@[simp] theorem setCtrl_addresses (s : RxFrames) (addr : Nat) (tid : Fin 8) (c : ReordCtrl) :
    (s.setCtrl addr tid c).addresses = s.addresses := by
  simp only [addresses, setCtrl, List.map_map]
  refine List.map_congr_left fun e _ => ?_
  simp only [Function.comp_apply]
  split <;> rfl

@[simp] theorem release_addresses (s : RxFrames) (ind drop : List RecvMsdu) :
    (s.release ind drop).addresses = s.addresses := rfl

@[simp] theorem pass_addresses (s : RxFrames) (addr : Nat) (tid : Fin 8) (p : Pass) :
    (s.pass addr tid p).addresses = s.addresses := setCtrl_addresses s addr tid p.ctrl

@[simp] theorem initSta_addresses (s : RxFrames) (mac : MacAddr) :
    (s.initSta mac).addresses = s.addresses ++ [s.addrs] := by
  simp [addresses, initSta]

@[simp] theorem initSta_pending (s : RxFrames) (mac : MacAddr) :
    (s.initSta mac).pending = s.pending := by
  simp [pending, initSta, StaEntry.pending, StaEntry.ctrl, reordInitSta, reordInitCtrl]

theorem entry_some (found : s.entry addr = some e) : e ∈ s.stas ∧ e.addr = addr :=
  ⟨List.mem_of_find?_eq_some found, beq_iff_eq.mp (List.find?_some found :)⟩

theorem find_some {mac : MacAddr} (found : s.find mac = some e) : e ∈ s.stas :=
  List.mem_of_find?_eq_some found

theorem mem_addresses (member : e ∈ s.stas) : e.addr ∈ s.addresses := List.mem_map_of_mem member

/-! ## What moves the frames -/

/-- A step of a thread with a frame in hand, or none, lets some frames go. -/
structure Moves (s : RxFrames) (hand : Option RecvMsdu) (next : RxFrames × Option Point)
    (ind drop : List RecvMsdu) : Prop where
  pool : next.1.pool = s.pool.release ind drop
  frames : (ind ++ drop ++ ((next.2.bind Point.inHand).toList ++ next.1.pending)).Perm
    (hand.toList ++ s.pending)

@[simp] theorem release_nil (p : RxPool) : p.release [] [] = p := by
  simp [RxPool.release, Ledger.settles]

/-- A step that leaves all frames where they are. -/
theorem Moves.same {hand : Option RecvMsdu} {next : RxFrames × Option Point}
    (pool : next.1.pool = s.pool) (pending : next.1.pending = s.pending)
    (held : next.2.bind Point.inHand = hand) : Moves s hand next [] [] :=
  ⟨pool.trans (release_nil _).symm, by rw [held, pending]; exact .refl _⟩

/-- A frame that does not come to a block is indicated at once. -/
theorem Moves.indicated (s : RxFrames) (f : RecvMsdu) :
    Moves s (some f) (s.release [f] [], none) [f] [] :=
  ⟨rfl, .refl _⟩

/-- A pass over the block of a station moves what it moves in that block. -/
theorem Moves.pass {hand : Option RecvMsdu} {next : Option Point} (distinct : s.addresses.Nodup)
    (member : e ∈ s.stas) {p : Pass}
    (moved : (p.ind ++ p.drop ++ ((next.bind Point.inHand).toList ++ p.ctrl.reordList)).Perm
      (hand.toList ++ (e.ctrl tid).reordList)) :
    Moves s hand (s.pass e.addr tid p, next) p.ind p.drop where
  pool := rfl
  frames := by
    have swapped := pending_setCtrl distinct member tid p.ctrl
    have same : (s.pass e.addr tid p).pending = (s.setCtrl e.addr tid p.ctrl).pending := rfl
    rw [List.perm_iff_count] at moved swapped ⊢
    intro f
    have there := moved f
    have here := swapped f
    simp only [same, List.count_append] at there here ⊢
    omega

/-- A block that is changed and keeps its frames. -/
theorem Moves.ctrl {hand : Option RecvMsdu} {next : Option Point} (distinct : s.addresses.Nodup)
    (member : e ∈ s.stas) {c : ReordCtrl} (kept : c.reordList = (e.ctrl tid).reordList)
    (held : next.bind Point.inHand = hand) :
    Moves s hand (s.setCtrl e.addr tid c, next) [] [] where
  pool := (release_nil _).symm
  frames := by
    have passed : Moves s hand (s.pass e.addr tid ⟨c, [], []⟩, next) [] [] :=
      Moves.pass distinct member (by rw [held, kept]; exact .refl _)
    exact passed.frames

/-- A step at a block sorts the frame in hand and those that were pending. -/
theorem task_perm {c : ReordCtrl} {tasks : List Task} {task : Task} {next : Shared × Option Task}
    (went : Shared.action ⟨c, [], []⟩ tasks task () = some next) :
    (next.1.handed ++ next.1.dropped ++
      ((next.2.bind Task.inHand).toList ++ next.1.ctrl.reordList)).Perm
        (task.inHand.toList ++ c.reordList) := by
  cases task with
  | unit f pc =>
      obtain rfl := Option.some.inj went
      cases pc with
      | lookup =>
          have same : (reordReenable c).reordList = c.reordList := by
            simp only [reordReenable]
            split <;> rfl
          simp [Shared.unitAction, Task.inHand, same]
      | check =>
          simp only [Shared.unitAction]
          split <;> simp [Task.inHand]
      | locked => simpa [Shared.unitAction, Shared.pass, Task.inHand] using processLocked_perm c f
      | offLocked => simp [Shared.unitAction, Task.inHand]
      | offAfter => simp [Shared.unitAction, Task.inHand]
  | flush pc =>
      simp only [Shared.action] at went
      cases pc with
      | lookup | testTimer =>
          obtain rfl := Option.some.inj went
          simp [Task.inHand]
      | check =>
          obtain rfl := Option.some.inj went
          dsimp only
          split <;> simp [Task.inHand]
      | drain =>
          obtain rfl := Option.some.inj went
          simp [Shared.pass, reordFlushLocked, Task.inHand]
      | deleteTimer | cancelWork =>
          simp only [Shared.flushAction, Option.ite_none_left_eq_some] at went
          obtain ⟨-, went⟩ := went
          obtain rfl := Option.some.inj went
          simp [Task.inHand]
  | handler =>
      obtain rfl := Option.some.inj went
      simp [reordTimeoutHandler, Task.inHand]
  | worker =>
      obtain rfl := Option.some.inj went
      have none : (reordTimeoutWorker c).drop = [] := rfl
      simp [Shared.pass, Task.inHand, none, timeoutWorker_append]

/-- Only a frame that its block refuses is dropped there. -/
theorem task_dropped {c : ReordCtrl} {tasks : List Task} {task : Task} {next : Shared × Option Task}
    (went : Shared.action ⟨c, [], []⟩ tasks task () = some next) {f : RecvMsdu}
    (member : f ∈ next.1.dropped) : task = .unit f .locked ∧ c.refuses f = true := by
  cases task with
  | unit g pc =>
      obtain rfl := Option.some.inj went
      cases pc with
      | lookup | offLocked | offAfter => cases member
      | check =>
          simp only [Shared.unitAction] at member
          split at member <;> cases member
      | locked =>
          simp only [Shared.unitAction, Shared.pass, List.nil_append, processLocked_drop] at member
          rw [List.mem_ite_nil_right, List.mem_singleton] at member
          obtain ⟨refused, rfl⟩ := member
          exact ⟨rfl, refused⟩
  | flush pc =>
      simp only [Shared.action] at went
      cases pc with
      | lookup | testTimer | check | drain =>
          obtain rfl := Option.some.inj went
          cases member
      | deleteTimer | cancelWork =>
          simp only [Shared.flushAction, Option.ite_none_left_eq_some] at went
          obtain ⟨-, went⟩ := went
          obtain rfl := Option.some.inj went
          cases member
  | handler | worker =>
      obtain rfl := Option.some.inj went
      cases member

/-! ## What is kept -/

structure Whole (s : RxFrames) (threads : List Point) : Prop where
  kept : s.pool.Kept (threads.filterMap Point.inHand ++ s.pending)
  fresh : ∀ addr ∈ s.addresses, addr < s.addrs
  distinct : s.addresses.Nodup

def framesProof : Threads.Proof RxFrames Point := ⟨Whole, Sound⟩

theorem Sound.mono {t : RxFrames} {p : Point} (h : Sound s p)
    (stations : ∀ addr ∈ p.station, addr ∈ s.addresses → addr ∈ t.addresses)
    (free : ∀ element ∈ s.pool.rxframesFreequeue, element ∈ t.pool.rxframesFreequeue) :
    Sound t p :=
  ⟨fun addr at_ => stations addr at_ (h.station addr at_),
    fun element unlinked => free element (h.unlinks element unlinked)⟩

theorem hands_append (next : Option Point) (others : List Point) :
    (next.toList ++ others).filterMap Point.inHand =
      (next.bind Point.inHand).toList ++ others.filterMap Point.inHand := by
  rw [List.filterMap_append]
  cases next with
  | none => rfl
  | some t => cases held : t.inHand <;> simp [held]

/-- What a step needs of the state before it, with the frame of the thread that
    moves in front. -/
structure Before (s : RxFrames) (hand : Option RecvMsdu) (others : List Point) : Prop where
  kept : s.pool.Kept (hand.toList ++ (others.filterMap Point.inHand ++ s.pending))
  fresh : ∀ addr ∈ s.addresses, addr < s.addrs
  distinct : s.addresses.Nodup
  sound : ∀ t ∈ others, Sound s t

variable {hand : Option RecvMsdu} {others : List Point} {next : RxFrames × Option Point}
  {ind drop : List RecvMsdu}

theorem Before.of_holds {t : Point} (h : framesProof.Holds s (t :: others)) :
    Before s t.inHand others ∧ Sound s t := by
  obtain ⟨⟨kept, fresh, distinct⟩, points⟩ := h
  obtain ⟨here, rest⟩ := List.forall_mem_cons.mp points
  have hands := hands_append (some t) others
  rw [Option.toList_some, List.singleton_append, Option.bind_some] at hands
  rw [hands, List.append_assoc] at kept
  exact ⟨⟨kept, fresh, distinct, rest⟩, here⟩

theorem Before.of_event (h : framesProof.Holds s others) : Before s none others :=
  ⟨h.1.kept, h.1.fresh, h.1.distinct, h.2⟩

/-- The frames that go, and those that stay in hand or pending. -/
theorem Moves.whole (m : Moves s hand next ind drop) (others : List Point) :
    (ind ++ drop ++ ((next.2.toList ++ others).filterMap Point.inHand ++ next.1.pending)).Perm
      (hand.toList ++ (others.filterMap Point.inHand ++ s.pending)) := by
  have moved := m.frames
  rw [hands_append, List.perm_iff_count] at *
  intro f
  have here := moved f
  simp only [List.count_append] at here ⊢
  omega

/-- A step keeps what it should if it drops frames of one buffer only, frees no
    station, and the thread relies on what is there. -/
theorem Before.keeps (h : Before s hand others) (m : Moves s hand next ind drop)
    (single : ∀ f ∈ drop, Single f) (addresses : next.1.addresses = s.addresses)
    (addrs : next.1.addrs = s.addrs) (sound : ∀ t ∈ next.2, Sound next.1 t) :
    framesProof.Keeps others next := by
  refine ⟨⟨?_, ?_, ?_⟩, sound, fun t member => (h.sound t member).mono ?_ ?_⟩
  · rw [m.pool]
    exact h.kept.release (m.whole others) single
  · rw [addresses, addrs]
    exact h.fresh
  · rw [addresses]
    exact h.distinct
  · exact fun addr _ inside => addresses ▸ inside
  · intro element free
    rw [m.pool]
    exact RxPool.release_free free _ _

/-- A step that conserves the pool has dropped frames of one buffer only. -/
theorem Before.single (h : Before s hand others) (m : Moves s hand next ind drop)
    (after : Conserved ⟨next.1, next.2.toList ++ others⟩) : ∀ f ∈ drop, Single f := by
  refine h.kept.single_of_release (m.whole others) ?_
  simp only [Conserved, frames, m.pool] at after
  exact after

theorem sound_none (s : RxFrames) : ∀ t ∈ (none : Option Point), Sound s t :=
  fun _ none => nomatch none

/-- A thread that has only a pointer to a station. -/
theorem sound_at {t : Point} (pointer : t.station = some addr) (there : addr ∈ s.addresses)
    (nothing : t.unlinks = none) : Sound s t where
  station := by
    rw [pointer]
    rintro _ ⟨⟩
    exact there
  unlinks := by simp [nothing]

/-- A thread that has no pointer. -/
theorem sound_apart {t : Point} (pointer : t.station = none) (nothing : t.unlinks = none) :
    Sound s t :=
  ⟨by simp [pointer], by simp [nothing]⟩

/-! ## Each step -/

/-- A turn of a flush indicates a frame, and its element is free. -/
theorem flushTurn_keeps (h : Before s none others) (member : e ∈ s.stas) :
    framesProof.Keeps others (s.flushTurn e.addr tid (e.ctrl tid)) := by
  have there := mem_addresses member
  cases list : (e.ctrl tid).reordList with
  | nil =>
      simp only [flushTurn, list]
      refine h.keeps (Moves.ctrl h.distinct member list.symm rfl) (by simp)
        (setCtrl_addresses s _ _ _) rfl ?_
      rintro t ⟨⟩
      exact sound_at rfl (by simpa using there) rfl
  | cons f rest =>
      simp only [flushTurn, list]
      refine h.keeps (Moves.pass h.distinct member ?_) (by simp) (pass_addresses s _ _ _) rfl ?_
      · rw [list]
        exact .refl _
      · rintro t ⟨⟩
        constructor
        · rintro addr ⟨⟩
          simpa using there
        · rintro element ⟨⟩
          exact RxPool.release_indicated (by simp) _

theorem blockAction_moves (distinct : s.addresses.Nodup) (member : e ∈ s.stas) {task : Task}
    (went : (Shared.action ⟨e.ctrl tid, [], []⟩ (tasksAt e.addr tid others) task ()).map
      (fun next => (s.pass e.addr tid ⟨next.1.ctrl, next.1.handed, next.1.dropped⟩,
        next.2.map (Point.block e.addr tid))) = some next) :
    ∃ ind drop, Moves s task.inHand next ind drop ∧ next.1.addresses = s.addresses ∧
      next.1.addrs = s.addrs ∧ (∀ t ∈ next.2, t.station = some e.addr ∧ t.unlinks = none) ∧
      ∀ f ∈ drop, task = .unit f .locked ∧ (e.ctrl tid).refuses f = true := by
  obtain ⟨⟨b, after⟩, done, rfl⟩ := Option.map_eq_some_iff.mp went
  refine ⟨b.handed, b.dropped, Moves.pass distinct member ?_, pass_addresses s _ _ _, rfl, ?_,
    fun f => task_dropped done⟩
  · have moved := task_perm done
    have held : (after.map (Point.block e.addr tid)).bind Point.inHand = after.bind Task.inHand := by
      rw [Option.bind_map]
      rfl
    rw [held]
    exact moved
  · intro t same
    obtain ⟨u, -, rfl⟩ := Option.map_eq_some_iff.mp same
    exact ⟨rfl, rfl⟩

theorem blockAction_keeps {task : Task} {busUp : Bool} (h : Before s task.inHand others)
    (member : e ∈ s.stas)
    (taken : ∀ f, task = .unit f .locked → Single f ∨ (e.ctrl tid).refuses f = false)
    (went : s.blockAction others e.addr tid (e.ctrl tid) task busUp = some next) :
    framesProof.Keeps others next := by
  simp only [blockAction] at went
  split at went
  · obtain rfl := Option.some.inj went
    exact flushTurn_keeps h member
  · obtain rfl := Option.some.inj went
    exact h.keeps (Moves.same rfl rfl rfl) (by simp) rfl rfl (sound_none s)
  · obtain ⟨ind, drop, moves, addresses, addrs, points, refused⟩ :=
      blockAction_moves h.distinct member went
    refine h.keeps moves (fun f dropped => ?_) addresses addrs fun t same => ?_
    · obtain ⟨here, refuses⟩ := refused f dropped
      refine (taken f here).resolve_right ?_
      simp [refuses]
    · obtain ⟨station, nothing⟩ := points t same
      exact sound_at station (addresses ▸ mem_addresses member) nothing

theorem sound_deinitNext {addr : Nat} (there : addr ∈ s.addresses) (later : List (Fin 8)) :
    Sound s (deinitNext addr later) := by
  cases later with
  | nil =>
      exact sound_at rfl there rfl
  | cons tid rest =>
      exact sound_at rfl there rfl

theorem inHand_deinitNext (addr : Nat) (later : List (Fin 8)) :
    (deinitNext addr later).inHand = none := by
  cases later <;> rfl

/-- Taking a block down drops its pending frames. -/
theorem deinit_moves (distinct : s.addresses.Nodup) (member : e ∈ s.stas) (later : List (Fin 8)) :
    Moves s none
      (s.pass e.addr tid ⟨{ e.ctrl tid with reordList := [] }, [], (e.ctrl tid).reordList⟩,
        some (deinitNext e.addr later)) [] (e.ctrl tid).reordList := by
  refine Moves.pass distinct member ?_
  rw [Option.bind_some, inHand_deinitNext]
  simp

theorem deinitAction_keeps {pc : DeinitPc} {later : List (Fin 8)} (h : Before s none others)
    (member : e ∈ s.stas) (single : pc = .drain → ∀ f ∈ (e.ctrl tid).reordList, Single f)
    (went : s.deinitAction others e.addr tid later (e.ctrl tid) pc = some next) :
    framesProof.Keeps others next := by
  have there := mem_addresses member
  -- a block that only changes in its flags
  have flags : ∀ (c : ReordCtrl) (pc' : DeinitPc), c.reordList = (e.ctrl tid).reordList →
      framesProof.Keeps others
        (s.setCtrl e.addr tid c, some (.deinit e.addr tid later pc')) := by
    intro c pc' list
    refine h.keeps (Moves.ctrl h.distinct member list rfl) (by simp)
      (setCtrl_addresses s _ _ _) rfl ?_
    rintro t ⟨⟩
    exact sound_at rfl (by simpa using there) rfl
  have stays : ∀ pc' : DeinitPc, framesProof.Keeps others
      (s, some (.deinit e.addr tid later pc')) := by
    intro pc'
    refine h.keeps (Moves.same rfl rfl rfl) (by simp) rfl rfl ?_
    rintro t ⟨⟩
    exact sound_at rfl there rfl
  cases pc with
  | stop =>
      simp only [deinitAction] at went
      split at went
      · obtain rfl := Option.some.inj went
        exact flags _ _ rfl
      · obtain rfl := Option.some.inj went
        exact stays _
  | testTimer =>
      obtain rfl := Option.some.inj went
      exact stays _
  | deleteTimer | cancelWork =>
      simp only [deinitAction, Option.ite_none_left_eq_some] at went
      obtain ⟨-, went⟩ := went
      obtain rfl := Option.some.inj went
      exact flags _ _ rfl
  | drain =>
      simp only [deinitAction, Option.ite_none_left_eq_some] at went
      obtain ⟨-, went⟩ := went
      obtain rfl := Option.some.inj went
      refine h.keeps (deinit_moves h.distinct member later) (single rfl) (pass_addresses s _ _ _)
        rfl ?_
      rintro t ⟨⟩
      exact sound_deinitNext (by simpa using there) later

theorem processUnit_keeps {eh : EthHdr} {f : RecvMsdu} (h : Before s (some f) others)
    (served : eh.hProto = ethPPae ∨ eh.hDest.isGroup ∨ s.rwnxVif ≠ .other) :
    framesProof.Keeps others (s.processUnit eh f) := by
  simp only [processUnit]
  split
  · exact h.keeps (Moves.indicated s f) (by simp) rfl rfl (sound_none _)
  · rename_i reordered
    have kind := (served.resolve_left fun pae => reordered (.inl pae)).resolve_left
      fun group => reordered (.inr group)
    split
    · rename_i unknown
      cases same : s.rwnxVif <;> simp_all [EthHdr.staMac]
    · refine h.keeps (Moves.same rfl rfl rfl) (by simp) rfl rfl ?_
      rintro t ⟨⟩
      exact sound_apart rfl rfl

theorem lookup_keeps {mac : MacAddr} {f : RecvMsdu} {initOk : Bool}
    (h : Before s (some f) others) : framesProof.Keeps others (s.lookup mac f initOk) := by
  simp only [lookup]
  split
  · rename_i e found
    have member := find_some found
    have list : (reordReenable (e.ctrl f.tid)).reordList = (e.ctrl f.tid).reordList := by
      simp only [reordReenable]
      split <;> rfl
    refine h.keeps (Moves.ctrl h.distinct member list rfl) (by simp)
      (setCtrl_addresses s _ _ _) rfl ?_
    rintro t ⟨⟩
    exact sound_at rfl (by simpa using mem_addresses member) rfl
  · split
    · -- the new station has an address that no other one has, and nothing pending
      have new : s.addrs ∉ s.addresses := fun old => Nat.lt_irrefl _ (h.fresh _ old)
      have others' := hands_append (some (.block s.addrs f.tid (.unit f .check))) others
      refine ⟨⟨?_, ?_, ?_⟩, ?_, fun t member => (h.sound t member).mono ?_ fun _ free => free⟩
      · rw [others', initSta_pending, List.append_assoc]
        exact h.kept
      · intro addr inside
        rw [initSta_addresses, List.mem_append, List.mem_singleton] at inside
        rcases inside with old | rfl
        · exact Nat.lt_succ_of_lt (h.fresh addr old)
        · exact Nat.lt_succ_self _
      · rw [initSta_addresses]
        exact List.nodup_append.mpr ⟨h.distinct, List.nodup_singleton _,
          by simpa using fun a old (same : a = s.addrs) => new (same ▸ old)⟩
      · rintro t ⟨⟩
        exact sound_at rfl (by simp) rfl
      · intro addr _ inside
        rw [initSta_addresses]
        exact List.mem_append_left _ inside
    · exact h.keeps (Moves.indicated s f) (by simp) rfl rfl (sound_none _)

/-- A new frame takes an element that no flush has still to unlink. -/
theorem attach_keeps {eh : EthHdr} {f : RecvMsdu} {count : Nat} (h : Before s none others)
    (framed : Framed f) (buffers : (attached f).Perm (List.range' s.pool.skbs.issued count))
    (safe : ∀ t ∈ others, ∀ e ∈ t.unlinks, s.pool.rxframesFreequeue.head? ≠ some e) :
    framesProof.Keeps others (s.attach eh f count) := by
  simp only [attach]
  split
  · exact h.keeps (Moves.same rfl rfl rfl) (by simp) rfl rfl (sound_none s)
  · rename_i pool taken
    refine ⟨⟨h.kept.attach taken framed buffers, h.fresh, h.distinct⟩, ?_, fun t member => ?_⟩
    · rintro t ⟨⟩
      exact sound_apart rfl rfl
    · refine ⟨(h.sound t member).station, fun e unlinked => ?_⟩
      have free := (h.sound t member).unlinks e unlinked
      exact RxPool.attach_free taken free (safe t member e unlinked)

/-- The interface of the last frame is of no account to the frames. -/
theorem Before.rwnxVif (h : Before s hand others) (iftype : IfType) :
    Before { s with rwnxVif := iftype } hand others :=
  ⟨h.kept, h.fresh, h.distinct, fun t member => (h.sound t member).mono (fun _ _ inside => inside)
    fun _ free => free⟩

theorem rxdataind_keeps {iftype : IfType} {d : RxData} (h : Before s none others)
    (fit : iftype = .ap ∨ iftype = .p2pGo → d.isQos && d.needReord →
      ∀ last ∈ d.msdus.getLast?, CountsFit (apFrame d last s.pool.skbs.issued))
    (safe : ∀ t ∈ others, ∀ e ∈ t.unlinks, s.pool.rxframesFreequeue.head? ≠ some e) :
    framesProof.Keeps others (s.rxdataind iftype d) := by
  have before := h.rwnxVif iftype
  have nothing : framesProof.Keeps others ({ s with rwnxVif := iftype }, none) :=
    before.keeps (Moves.same rfl rfl rfl) (by simp) rfl rfl (sound_none _)
  have station : framesProof.Keeps others
      ((RxFrames.mk iftype s.stas s.addrs s.pool).attach d.skb.eh
        (stationFrame d s.pool.skbs.issued) 1) :=
    attach_keeps before (framed_stationFrame d _) (.refl _) safe
  simp only [rxdataind]
  split
  · rename_i reorder
    have ap : (iftype = .ap ∨ iftype = .p2pGo) → ∀ last, d.msdus.getLast? = some last →
        framesProof.Keeps others ((RxFrames.mk iftype s.stas s.addrs s.pool).attach last.eh
          (apFrame d last s.pool.skbs.issued) d.msdus.length) := by
      intro kind last ends
      have framed := framed_apFrame s.pool.skbs.issued ends (fit kind reorder last ends)
      exact attach_keeps before framed (attached_apFrame d last _) safe
    cases iftype with
    | station | p2pClient => exact station
    | ap =>
        dsimp only
        split
        · exact nothing
        · exact ap (.inl rfl) _ ‹_›
    | p2pGo =>
        dsimp only
        split
        · exact nothing
        · exact ap (.inr rfl) _ ‹_›
    | other => exact nothing
  · exact nothing

theorem blockEvent_keeps {call : BlockCall} (h : Before s none others)
    (timer : call = .expire ∨ call = .startWork)
    (went : s.blockEvent others addr tid call = some next) : framesProof.Keeps others next := by
  obtain ⟨e, found, went⟩ := Option.bind_eq_some_iff.mp went
  obtain ⟨b, started, rfl⟩ := Option.map_eq_some_iff.mp went
  obtain ⟨member, rfl⟩ := entry_some found
  have kept : b.1.ctrl.reordList = (e.ctrl tid).reordList ∧
      (b.2 = some .handler ∨ b.2 = some .worker) := by
    rcases timer with rfl | rfl
    all_goals
      simp only [Shared.event, Option.ite_none_right_eq_some] at started
      obtain ⟨-, started⟩ := started
      obtain rfl := Option.some.inj started
      simp
  have held : (b.2.map (Point.block e.addr tid)).bind Point.inHand = none := by
    rcases kept.2 with same | same <;> rw [same] <;> rfl
  refine h.keeps (Moves.ctrl h.distinct member kept.1 held) (by simp)
    (setCtrl_addresses s _ _ _) rfl ?_
  intro t same
  obtain ⟨u, -, rfl⟩ := Option.map_eq_some_iff.mp same
  exact sound_at rfl (by simpa using mem_addresses member) rfl

theorem event_keeps (c : RxConfig) (event : Event) (next : RxFrames × Option Point)
    (h : framesProof.Holds c.shared c.threads) (guarded : Guard c (.event event))
    (went : RxFrames.event c.shared c.threads event = some next) :
    framesProof.Keeps c.threads next := by
  have before := Before.of_event h
  cases event with
  | data iftype d =>
      obtain rfl := Option.some.inj went
      exact rxdataind_keeps before guarded.1 guarded.2
  | flush iftype eh tid =>
      obtain rfl := Option.some.inj went
      refine (before.rwnxVif iftype).keeps (Moves.same rfl rfl rfl) (by simp) rfl rfl ?_
      rintro t ⟨⟩
      exact sound_apart rfl rfl
  | expire addr tid => exact blockEvent_keeps before (.inl rfl) went
  | startWork addr tid => exact blockEvent_keeps before (.inr rfl) went
  | remove mac =>
      obtain rfl := Option.some.inj went
      refine before.keeps (Moves.same rfl rfl rfl) (by simp) rfl rfl ?_
      rintro t ⟨⟩
      exact sound_apart rfl rfl

theorem listDel_keeps (h : Before s none others) (there : addr ∈ s.addresses) :
    framesProof.Keeps others (s.listDel addr, some (.free addr)) := by
  have addresses : (s.listDel addr).addresses = s.addresses := by
    simp only [addresses, listDel, List.map_map]
    refine List.map_congr_left fun e _ => ?_
    simp only [Function.comp_apply]
    split <;> rfl
  have pending : (s.listDel addr).pending = s.pending := by
    simp only [pending, listDel, List.flatMap_map]
    refine List.flatMap_congr fun e _ => ?_
    split <;> rfl
  refine h.keeps (Moves.same rfl pending rfl) (by simp) addresses rfl ?_
  rintro t ⟨⟩
  exact sound_at rfl (addresses ▸ there) rfl

/-- Freeing a station that has nothing pending and that no thread is at. -/
theorem free_keeps (h : Before s none others) (found : s.entry addr = some e)
    (nothing : e.pending = []) (alone : ∀ t ∈ others, t.station ≠ some addr) :
    framesProof.Keeps others (s.kfree addr, none) := by
  obtain ⟨member, rfl⟩ := entry_some found
  have left := pending_free h.distinct member
  rw [nothing, List.nil_append] at left
  have fewer : List.Sublist ((s.stas.filter fun d => d.addr != e.addr).map StaEntry.addr)
      s.addresses := List.filter_sublist.map _
  refine ⟨⟨?_, ?_, ?_⟩, sound_none _, fun t at_ => (h.sound t at_).mono ?_ fun _ free => free⟩
  · exact h.kept.perm (left.symm.append_left _)
  · exact fun addr inside => h.fresh addr (fewer.subset inside)
  · exact h.distinct.sublist fewer
  · intro addr station inside
    obtain ⟨d, kept, rfl⟩ := List.mem_map.mp inside
    refine List.mem_map_of_mem (List.mem_filter.mpr ⟨kept, bne_iff_ne.mpr fun same => ?_⟩)
    exact alone t at_ (same ▸ station)

theorem action_keeps (c : RxConfig) (t : Point) (choice : Bool) (next : RxFrames × Option Point)
    (h : framesProof.Holds c.shared (t :: c.threads.erase t))
    (guarded : Guard c (.run t choice))
    (went : RxFrames.action c.shared (c.threads.erase t) t choice = some next) :
    framesProof.Keeps (c.threads.erase t) next := by
  obtain ⟨before, sound⟩ := Before.of_holds h
  cases t with
  | process eh f =>
      obtain rfl := Option.some.inj went
      exact processUnit_keeps before guarded.1
  | lookup mac f =>
      obtain rfl := Option.some.inj went
      exact lookup_keeps before
  | flushTid eh tid =>
      obtain rfl := Option.some.inj went
      have none : ((eh.staMac c.shared.rwnxVif).map (Point.flushLookup · tid)).bind Point.inHand =
          none := by
        cases eh.staMac c.shared.rwnxVif <;> rfl
      refine before.keeps (Moves.same rfl rfl none) (by simp) rfl rfl fun t same => ?_
      obtain ⟨mac, -, rfl⟩ := Option.map_eq_some_iff.mp same
      exact sound_apart rfl rfl
  | flushLookup mac tid =>
      obtain rfl := Option.some.inj went
      have none : ((c.shared.find mac).map fun e => Point.block e.addr tid (.flush .check)).bind
          Point.inHand = none := by
        cases c.shared.find mac <;> rfl
      refine before.keeps (Moves.same rfl rfl none) (by simp) rfl rfl fun t same => ?_
      obtain ⟨e, found, rfl⟩ := Option.map_eq_some_iff.mp same
      exact sound_at rfl (mem_addresses (find_some found)) rfl
  | block addr tid task =>
      simp only [RxFrames.action, Option.ite_none_left_eq_some] at went
      obtain ⟨-, went⟩ := went
      obtain ⟨e, found, went⟩ := Option.bind_eq_some_iff.mp went
      obtain ⟨member, rfl⟩ := entry_some found
      refine blockAction_keeps before member (fun f same => ?_) went
      subst same
      exact guarded.1.imp_right fun taken => taken e found
  | unlink addr tid element =>
      simp only [RxFrames.action, Option.ite_none_right_eq_some] at went
      obtain ⟨-, went⟩ := went
      obtain ⟨e, found, rfl⟩ := Option.map_eq_some_iff.mp went
      obtain ⟨member, rfl⟩ := entry_some found
      exact flushTurn_keeps before member
  | search mac =>
      obtain rfl := Option.some.inj went
      have none : ((c.shared.find mac).map fun e => deinitNext e.addr (List.finRange 8)).bind
          Point.inHand = none := by
        cases c.shared.find mac <;> rfl
      refine before.keeps (Moves.same rfl rfl none) (by simp) rfl rfl fun t same => ?_
      obtain ⟨e, found, rfl⟩ := Option.map_eq_some_iff.mp same
      exact sound_deinitNext (mem_addresses (find_some found)) _
  | deinit addr tid later pc =>
      obtain ⟨e, found, went⟩ := Option.bind_eq_some_iff.mp went
      obtain ⟨member, rfl⟩ := entry_some found
      refine deinitAction_keeps before member (fun drain => ?_) went
      subst drain
      exact guarded.1 e found
  | listDel addr =>
      obtain ⟨e, found, rfl⟩ := Option.map_eq_some_iff.mp went
      exact listDel_keeps before (sound.station addr rfl)
  | free addr =>
      obtain ⟨e, found, rfl⟩ := Option.map_eq_some_iff.mp went
      exact free_keeps before found (guarded.1 e found) fun t member => (guarded.2.2 t member).1

theorem framesProof_invariant {c : RxConfig}
    (run : Run.Reachable program.step Guard ⟨init, []⟩ c) :
    framesProof.Holds c.shared c.threads := by
  apply framesProof.invariant _ _ _ _ run
  · intro s ts us same whole
    exact ⟨whole.kept.perm ((same.filterMap _).append_right _), whole.fresh, whole.distinct⟩
  · exact ⟨RxPool.Kept.init, by simp [addresses, init], List.nodup_nil⟩
  · exact event_keeps
  · exact action_keeps

/-! ## What a step drops -/

theorem Conserved.length {c : RxConfig} (h : Conserved c) :
    c.shared.pool.rxframesFreequeue.length + (frames c).length = maxReordRxframe := by
  have counted := h.elements.length_eq
  simpa using counted

/-- Where no frame goes and none is missing, no element is. -/
theorem Before.length (h : Before s hand others) :
    s.pool.rxframesFreequeue.length + (hand.toList.length +
      (others.filterMap Point.inHand ++ s.pending).length) = maxReordRxframe := by
  have counted := h.kept.conserved.elements.length_eq
  simpa using counted

theorem processUnit_served {eh : EthHdr} {f : RecvMsdu} (h : Before s (some f) others)
    (after : Conserved ⟨(s.processUnit eh f).1, (s.processUnit eh f).2.toList ++ others⟩) :
    eh.hProto = ethPPae ∨ eh.hDest.isGroup ∨ s.rwnxVif ≠ .other := by
  by_contra unserved
  push Not at unserved
  obtain ⟨plain, single, kind⟩ := unserved
  have lost : s.processUnit eh f =
      ({ s with pool := { s.pool with skbs := s.pool.skbs.settles [dropFate f] } }, none) := by
    simp [processUnit, plain, single, kind, EthHdr.staMac]
  rw [lost] at after
  have before := h.length
  have later := after.length
  simp only [frames, Option.toList_none, List.nil_append, Option.toList_some, List.length_cons,
    List.length_nil] at before later
  have same : (RxFrames.mk s.rwnxVif s.stas s.addrs
      { s.pool with skbs := s.pool.skbs.settles [dropFate f] }).pending = s.pending := rfl
  rw [same] at later
  omega

theorem blockLocked_taken {f : RecvMsdu} {busUp : Bool} (h : Before s (some f) others)
    (member : e ∈ s.stas)
    (went : s.blockAction others e.addr tid (e.ctrl tid) (.unit f .locked) busUp = some next)
    (after : Conserved ⟨next.1, next.2.toList ++ others⟩) :
    Single f ∨ (e.ctrl tid).refuses f = false := by
  cases refused : (e.ctrl tid).refuses f with
  | false => exact .inr rfl
  | true =>
      obtain rfl := Option.some.inj went
      have moved := processLocked_perm (e.ctrl tid) f
      have dropped := processLocked_drop (e.ctrl tid) f
      rw [refused, if_pos rfl] at dropped
      have moves : Moves s (some f)
          (s.pass e.addr tid (reordProcessLocked (e.ctrl tid) f), none) _ _ :=
        Moves.pass h.distinct member moved
      refine .inl (h.single moves after f ?_)
      rw [dropped]
      exact List.mem_singleton_self f

theorem free_empty (h : Before s none others) (member : e ∈ s.stas)
    (after : Conserved ⟨s.kfree e.addr, others⟩) :
    e.pending = [] := by
  have left := (pending_free h.distinct member).length_eq
  have before := h.length
  have later := after.length
  simp only [frames, pending, kfree, Option.toList_none, List.length_nil, List.length_append] at *
  exact List.eq_nil_of_length_eq_zero (by omega)

theorem free_conserved (h : Before s none others) (member : e ∈ s.stas) (nothing : e.pending = []) :
    Conserved ⟨s.kfree e.addr, others⟩ := by
  have left := pending_free h.distinct member
  rw [nothing, List.nil_append] at left
  exact h.kept.conserved.perm (left.symm.append_left _)

/-- A step that drops something conserves the pool exactly when it drops nothing
    that it should not. -/
theorem lossless_iff {c c' : RxConfig} {l : RxLabel} (h : framesProof.Holds c.shared c.threads)
    (taken : program.step c l = some c') (about : drops l = true) :
    Conserved c' ↔ Lossless c l := by
  obtain ⟨t, choice, rfl⟩ : ∃ t choice, l = .run t choice := by
    cases l with
    | event _ => cases about
    | run t choice => exact ⟨t, choice, rfl⟩
  simp only [Program.step, Option.ite_none_right_eq_some] at taken
  obtain ⟨member, taken⟩ := taken
  obtain ⟨next, went, rfl⟩ := Option.map_eq_some_iff.mp taken
  have same := List.perm_cons_erase member
  have holds : framesProof.Holds c.shared (t :: c.threads.erase t) := by
    obtain ⟨⟨kept, fresh, distinct⟩, points⟩ := h
    exact ⟨⟨kept.perm ((same.filterMap _).append_right _), fresh, distinct⟩,
      fun u at_ => points u (same.mem_iff.mpr at_)⟩
  have before := (Before.of_holds holds).1
  -- where the step is not restricted otherwise, the step lemma tells one direction
  have keeps : Safe c (.run t choice) → Lossless c (.run t choice) →
      Conserved ⟨next.1, next.2.toList ++ c.threads.erase t⟩ := fun safe lossless =>
    (action_keeps c t choice next holds ⟨lossless, safe⟩ went).1.kept.conserved
  cases t with
  | process eh f =>
      refine ⟨fun after => ?_, keeps trivial⟩
      obtain rfl := Option.some.inj went
      exact processUnit_served before after
  | block addr tid task =>
      cases task with
      | unit f pc =>
          cases pc with
          | locked =>
              refine ⟨fun after => ?_, keeps trivial⟩
              simp only [program, RxFrames.action, Option.ite_none_left_eq_some] at went
              obtain ⟨-, went⟩ := went
              obtain ⟨e, found, went⟩ := Option.bind_eq_some_iff.mp went
              obtain ⟨inside, rfl⟩ := entry_some found
              refine (blockLocked_taken before inside went after).imp_right fun took d other => ?_
              obtain rfl := Option.some.inj (found.symm.trans other)
              exact took
          | lookup | check | offLocked | offAfter => cases about
      | flush pc => cases about
      | handler => cases about
      | worker => cases about
  | deinit addr tid later pc =>
      cases pc with
      | drain =>
          refine ⟨fun after => ?_, keeps trivial⟩
          obtain ⟨e, found, went⟩ := Option.bind_eq_some_iff.mp went
          obtain ⟨inside, rfl⟩ := entry_some found
          simp only [deinitAction, Option.ite_none_left_eq_some] at went
          obtain ⟨-, went⟩ := went
          obtain rfl := Option.some.inj went
          intro d other
          obtain rfl := Option.some.inj (found.symm.trans other)
          exact before.single (deinit_moves before.distinct inside later) after
      | stop | testTimer | deleteTimer | cancelWork => cases about
  | free addr =>
      obtain ⟨e, found, rfl⟩ := Option.map_eq_some_iff.mp went
      obtain ⟨inside, rfl⟩ := entry_some found
      constructor
      · intro after d other
        obtain rfl := Option.some.inj (found.symm.trans other)
        exact free_empty before inside after
      · exact fun nothing => free_conserved before inside (nothing e found)
  | lookup _ _ | flushTid _ _ | flushLookup _ _ | unlink _ _ _ | search _ | listDel _ => cases about

/-- On every run whose steps release all buffers of a frame and take nothing away
    that is in use, the elements and the buffers are conserved, and no thread relies
    on what is not there. Where the condition is about what a step drops, the step
    conserves the frames exactly when it meets it. -/
theorem frames_conserved {c : RxConfig} (run : Run.Reachable program.step Guard ⟨init, []⟩ c) :
    Conserved c ∧ (∀ t ∈ c.threads, Sound c.shared t) ∧
      ∀ l c', program.step c l = some c' → drops l = true → (Conserved c' ↔ Lossless c l) := by
  have holds := framesProof_invariant run
  exact ⟨holds.1.kept.conserved, holds.2, fun l c' taken about => lossless_iff holds taken about⟩

instance (c : RxConfig) : (l : RxLabel) → Decidable (Lossless c l)
  | .event (.data iftype d) => inferInstanceAs (Decidable (iftype = .ap ∨ iftype = .p2pGo →
      d.isQos && d.needReord → ∀ last ∈ d.msdus.getLast?,
        CountsFit (apFrame d last c.shared.pool.skbs.issued)))
  | .event (.flush _ _ _) | .event (.expire _ _) | .event (.startWork _ _) | .event (.remove _)
  | .run (.lookup _ _) _ | .run (.flushTid _ _) _ | .run (.flushLookup _ _) _
  | .run (.unlink _ _ _) _ | .run (.search _) _ | .run (.listDel _) _
  | .run (.block _ _ (.unit _ .lookup)) _ | .run (.block _ _ (.unit _ .check)) _
  | .run (.block _ _ (.unit _ .offLocked)) _ | .run (.block _ _ (.unit _ .offAfter)) _
  | .run (.block _ _ (.flush _)) _ | .run (.block _ _ .handler) _ | .run (.block _ _ .worker) _
  | .run (.deinit _ _ _ .stop) _ | .run (.deinit _ _ _ .testTimer) _
  | .run (.deinit _ _ _ .deleteTimer) _ | .run (.deinit _ _ _ .cancelWork) _ =>
      inferInstanceAs (Decidable True)
  | .run (.process eh _) _ => inferInstanceAs (Decidable
      (eh.hProto = ethPPae ∨ eh.hDest.isGroup ∨ c.shared.rwnxVif ≠ .other))
  | .run (.block addr tid (.unit f .locked)) _ => inferInstanceAs (Decidable
      (Single f ∨ ∀ e ∈ c.shared.entry addr, (e.ctrl tid).refuses f = false))
  | .run (.deinit addr tid _ .drain) _ => inferInstanceAs (Decidable
      (∀ e ∈ c.shared.entry addr, ∀ f ∈ (e.ctrl tid).reordList, Single f))
  | .run (.free addr) _ => inferInstanceAs (Decidable
      (∀ e ∈ c.shared.entry addr, e.pending = []))

instance (c : RxConfig) : (l : RxLabel) → Decidable (Safe c l)
  | .event (.data _ _) => inferInstanceAs (Decidable (∀ t ∈ c.threads, ∀ e ∈ t.unlinks,
      c.shared.pool.rxframesFreequeue.head? ≠ some e))
  | .run (.listDel addr) _ => inferInstanceAs (Decidable
      ((∀ e ∈ c.shared.entry addr, e.linked = true) ∧ ∀ t ∈ c.threads, t.isSearch = false))
  | .run (.free addr) _ => inferInstanceAs (Decidable
      ((∀ e ∈ c.shared.entry addr, ∀ tid,
        (e.ctrl tid).reordTimer = false ∧ (e.ctrl tid).reordTimerWork = false) ∧
      ∀ t ∈ c.threads.erase (.free addr), t.station ≠ some addr ∧ t.isSearch = false))
  | .event (.flush _ _ _) | .event (.expire _ _) | .event (.startWork _ _) | .event (.remove _)
  | .run (.process _ _) _ | .run (.lookup _ _) _ | .run (.flushTid _ _) _
  | .run (.flushLookup _ _) _ | .run (.unlink _ _ _) _ | .run (.search _) _
  | .run (.block _ _ _) _ | .run (.deinit _ _ _ _) _ => inferInstanceAs (Decidable True)

instance (c : RxConfig) (l : RxLabel) : Decidable (Guard c l) :=
  inferInstanceAs (Decidable (Lossless c l ∧ Safe c l))

end RxFrames

/-! ## A repeated A-MSDU on an access point -/

namespace FramesSample

def plain : Msdu := ⟨⟨sampleMac, sampleMac, 0x0800⟩, [], false⟩

/-- A data frame with a number of sub-frames. -/
def data (seqNum : Fin 4096) (msdus : List Msdu) : RxData where
  isQos := true
  needReord := true
  isAmsdu := msdus.length != 1
  tid := sampleTid
  seqNum := seqNum
  skb := plain
  msdus := msdus

/-- A data frame from its arrival to the end of `reord_process_unit`, with its
    buffers numbered from `first`. -/
def received (first : Nat) (seqNum : Fin 4096) (msdus : List Msdu) : List RxFrames.RxLabel :=
  let f := apFrame (data seqNum msdus) plain first
  [.event (.data .ap (data seqNum msdus)), .run (.process plain.eh f) true,
    .run (.lookup sampleMac f) true, .run (.block 0 sampleTid (.unit f .check)) true,
    .run (.block 0 sampleTid (.unit f .locked)) true]

/-- The first frame, and an A-MSDU of two sub-frames past a gap. -/
def pending : List RxFrames.RxLabel :=
  received 0 ⟨0, by decide⟩ [plain] ++ received 1 ⟨5, by decide⟩ [plain, plain]

/-- The gap is given up. -/
def expired : List RxFrames.RxLabel :=
  [.event (.expire 0 sampleTid), .run (.block 0 sampleTid .handler) true,
    .event (.startWork 0 sampleTid), .run (.block 0 sampleTid .worker) true]

/-- The station leaves, and its blocks are taken down one by one. -/
def removed : List RxFrames.RxLabel :=
  [.event (.remove sampleMac), .run (.search sampleMac) true] ++
    (List.finRange 8).flatMap (fun tid =>
      [.stop, .testTimer, .cancelWork, .drain].map fun pc =>
        .run (.deinit 0 tid ((List.finRange 8).drop (tid.val + 1)) pc) true) ++
    [.run (.listDel 0) true, .run (.free 0) true]

end FramesSample

/-- The second copy of an A-MSDU is refused, and of its two buffers, 3 and 4, only
    the one in `pkt` is freed. -/
theorem repeated_amsdu_leaks : ∃ c,
    Run.Reachable RxFrames.program.step Run.Free ⟨RxFrames.init, []⟩ c ∧
      ¬ RxFrames.Conserved c := by
  have ends : (Run.exec RxFrames.program.step ⟨RxFrames.init, []⟩ (FramesSample.pending ++
      FramesSample.received 3 ⟨5, by decide⟩ [FramesSample.plain, FramesSample.plain])).map
        (fun c => (c.shared.pool.skbs.issued, (RxFrames.frames c).flatMap attached,
          c.shared.pool.skbs.settled.map Prod.fst)) = some (5, [1, 2], [0, 4]) := by
    decide +kernel
  obtain ⟨c, run, facts⟩ := Option.map_eq_some_iff.mp ends
  simp only [Prod.mk.injEq] at facts
  obtain ⟨issued, held, settled⟩ := facts
  refine ⟨c, Run.Reachable.exec _ .init run, ?_⟩
  intro conserved
  have known := conserved.skbs.held_or_settled (n := 3)
  rw [issued, held, settled] at known
  simp at known

/-- When the gap is given up, both buffers of the A-MSDU are handed up; then the
    station leaves. -/
theorem frames_conserved_timeout : ∃ c : RxFrames.RxConfig,
    c.shared.stas.length = 0 ∧ c.threads = [] ∧
      c.shared.pool.skbs.settled = [(0, .delivered), (1, .delivered), (2, .delivered)] ∧
      RxFrames.Conserved c := by
  have ends : (Run.exec RxFrames.program.step ⟨RxFrames.init, []⟩
      (FramesSample.pending ++ FramesSample.expired ++ FramesSample.removed)).map
        (fun c => (c.shared.stas.length, c.threads, c.shared.pool.skbs.settled)) =
      some (0, [], [(0, .delivered), (1, .delivered), (2, .delivered)]) := by
    decide +kernel
  obtain ⟨c, run, facts⟩ := Option.map_eq_some_iff.mp ends
  simp only [Prod.mk.injEq] at facts
  obtain ⟨stas, threads, settled⟩ := facts
  have guarded : Run.Reachable RxFrames.program.step RxFrames.Guard ⟨RxFrames.init, []⟩ c :=
    Run.Reachable.exec_guarded (fun _ _ => of_decide_eq_true) _ .init run (by decide +kernel)
  exact ⟨c, stas, threads, settled, (RxFrames.frames_conserved guarded).1⟩

end Aic8800.Reorder
