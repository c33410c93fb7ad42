import Aic8800.Lib.Ledger
import Aic8800.Usb.RxThread

/-! # The USB buffers

An `aicwf_usb_buf` is in the free list of its pool, or its URB is submitted, or, to
send, it is in the post list. What is attached to it (an skb, or the copy of a frame
that needs a confirmation) is released by the handler that takes it off. Each handler
is one step here; what the allocator and `usb_submit_urb` answer comes with it.
-/

namespace Aic8800.Usb

open Lib

/-- `AICWF_USB_RX_URBS` -/
def rxUrbs : Nat := 20

/-- `AICWF_USB_MSG_RX_URBS` -/
def msgRxUrbs : Nat := 100

/-- `AICWF_USB_TX_URBS` -/
def txUrbs : Nat := 50

/-- What is attached to a buffer, numbered in the order of the attachments: an skb, or
    a copy from `kmalloc`. -/
structure Payload where
  serial : Nat
  copy : Bool
  deriving DecidableEq

/-- The ways a payload is released: `dev_kfree_skb`, `kfree`, or to a queue of received
    skbs. -/
inductive Disposal where
  | freeSkb
  | kfree
  | queued
  deriving DecidableEq

structure Released where
  copy : Bool
  how : Disposal
  deriving DecidableEq

abbrev UsbLedger := Ledger Released

namespace UsbLedger

/-- The skb or copy that is attached next. -/
def payload (l : UsbLedger) (copy : Bool) : Payload := ⟨l.issued, copy⟩

def dispose (l : UsbLedger) (p : Payload) (how : Disposal) : UsbLedger := l.settle p.serial ⟨p.copy, how⟩

/-- A copy goes back to `kfree`, and nothing else does. -/
def Proper (l : UsbLedger) : Prop := ∀ r ∈ l.settled, (r.2.how = .kfree ↔ r.2.copy = true)

end UsbLedger

/-- The receive buffers of one endpoint. The flag tells that one was submitted since the
    bus came up. -/
structure RxPool where
  free : List Nat
  submitted : List (Nat × Payload)
  running : Bool
  deriving DecidableEq

structure TxPool where
  free : List Nat
  freeCount : Int
  post : List (Nat × Payload)
  postCount : Int
  submitted : List (Nat × Payload)
  deriving DecidableEq

structure UsbDev where
  up : Bool
  rx : RxPool
  msgRx : RxPool
  tx : TxPool
  ledger : UsbLedger

/-- What becomes of one attempt to submit a receive buffer. -/
inductive Attempt where
  | ok
  | noMemory
  | rejected
  deriving DecidableEq

/-- What `usb_submit_urb` answers for a buffer to send. -/
inductive Answer where
  | ok
  | failed (noDevice : Bool)
  deriving DecidableEq

namespace RxPool

def submit (pool : RxPool) (l : UsbLedger) (b : Nat) : RxPool :=
  { pool with submitted := pool.submitted ++ [(b, l.payload false)], running := true }

/-- The loop of `aicwf_usb_rx_submit_all_urb` over the free list. It ends with the first
    attempt that fails, whose buffer is put back. -/
def submitAll (pool : RxPool) (l : UsbLedger) : List Attempt → List Nat → RxPool × UsbLedger
  | _, [] => ({ pool with free := [] }, l)
  | results, b :: rest =>
      match results.headD .ok with
      | .ok => (pool.submit l b).submitAll l.issue results.tail rest
      | .noMemory => ({ pool with free := rest ++ [b] }, l)
      | .rejected => ({ pool with free := rest ++ [b] }, UsbLedger.dispose l.issue (l.payload false) .freeSkb)

/-- The loop of `aicwf_usb_msg_rx_submit_all_urb`, which goes on after a failure. -/
def msgSubmitAll (pool : RxPool) (l : UsbLedger) : List Attempt → List Nat → RxPool × UsbLedger
  | [], free => pool.submitAll l [] free
  | _ :: _, [] => ({ pool with free := [] }, l)
  | .ok :: results, b :: rest => (pool.submit l b).msgSubmitAll l.issue results rest
  | .noMemory :: results, b :: rest => pool.msgSubmitAll l results (rest ++ [b])
  | .rejected :: results, b :: rest =>
      pool.msgSubmitAll (UsbLedger.dispose l.issue (l.payload false) .freeSkb) results (rest ++ [b])

/-- A completed buffer is put back into the free list. -/
def put (pool : RxPool) (entry : Nat × Payload) : RxPool :=
  { pool with free := pool.free ++ [entry.1], submitted := pool.submitted.erase entry }

end RxPool

/-- What a receive completion does with its skb and its buffer: it drops the skb, and
    goes on to submit buffers or not; it queues the skb; or it drops the skb and keeps
    the buffer. -/
inductive Verdict where
  | dropped (resubmits : Bool)
  | queued
  | kept
  deriving DecidableEq

namespace Verdict

def disposal : Verdict → Disposal
  | .queued => .queued
  | _ => .freeSkb

def resubmits : Verdict → Bool
  | .dropped resubmits => resubmits
  | .queued => true
  | .kept => false

end Verdict

/-- `aicwf_usb_rx_complete`, when there is room in `rxq` or not. -/
def rxVerdict (up hwReady : Bool) (urb : Urb) (room : Bool) : Verdict :=
  if !hwReady then .dropped false
  else if urb.bufferLength < urb.actualLength then .dropped true
  else if urb.status ≠ 0 ∨ urb.actualLength = 0 then .dropped (decide (0 ≤ urb.status))
  else if up then (if room then .queued else .dropped true)
  else .dropped false

/-- `aicwf_usb_msg_rx_complete`, when there is room in `msg_rxq` or not. -/
def msgRxVerdict (up : Bool) (urb : Urb) (room : Bool) : Verdict :=
  if urb.bufferLength < urb.actualLength then .dropped true
  else if urb.status ≠ 0 ∨ urb.actualLength = 0 then .dropped (decide (0 ≤ urb.status))
  else if up then (if room then .queued else .kept)
  else .dropped false

namespace UsbDev

def init : UsbDev where
  up := false
  rx := ⟨List.range rxUrbs, [], false⟩
  msgRx := ⟨List.range msgRxUrbs, [], false⟩
  tx := ⟨List.range txUrbs, txUrbs, [], 0, []⟩
  ledger := Ledger.empty

/-- `aicwf_usb_rx_submit_all_urb` -/
def rxSubmitAll (s : UsbDev) (results : List Attempt) : UsbDev :=
  if s.up then
    { s with
      rx := (s.rx.submitAll s.ledger results s.rx.free).1
      ledger := (s.rx.submitAll s.ledger results s.rx.free).2 }
  else s

/-- `aicwf_usb_msg_rx_submit_all_urb` -/
def msgRxSubmitAll (s : UsbDev) (results : List Attempt) : UsbDev :=
  if s.up then
    { s with
      msgRx := (s.msgRx.msgSubmitAll s.ledger results s.msgRx.free).1
      ledger := (s.msgRx.msgSubmitAll s.ledger results s.msgRx.free).2 }
  else s

def rxComplete (s : UsbDev) (entry : Nat × Payload) (v : Verdict) (results : List Attempt) : UsbDev :=
  let s' := { s with rx := s.rx.put entry, ledger := UsbLedger.dispose s.ledger entry.2 v.disposal }
  if v.resubmits then s'.rxSubmitAll results else s'

def msgRxComplete (s : UsbDev) (entry : Nat × Payload) (v : Verdict) (results : List Attempt) : UsbDev :=
  let ledger := UsbLedger.dispose s.ledger entry.2 v.disposal
  match v with
  | .kept => { s with msgRx := { s.msgRx with submitted := s.msgRx.submitted.erase entry }, ledger }
  | v =>
      let s' := { s with msgRx := s.msgRx.put entry, ledger }
      if v.resubmits then s'.msgRxSubmitAll results else s'

/-- `aicwf_usb_bus_txdata`. The copy for a frame that needs a confirmation is written to
    without a look at what `kmalloc` returned: the buffer has then left the free list,
    and the call does not get any further. -/
def busTxdata (s : UsbDev) (needCfm allocated : Bool) : UsbDev :=
  if s.up then
    match s.tx.free with
    | [] => s
    | b :: rest =>
        let tx := { s.tx with free := rest, freeCount := s.tx.freeCount - 1 }
        if needCfm && !allocated then { s with tx }
        else
          { s with
            tx :=
              { tx with
                post := tx.post ++ [(b, s.ledger.payload needCfm)]
                postCount := tx.postCount + 1 }
            ledger := s.ledger.issue }
  else s

end UsbDev

namespace TxPool

/-- The buffer goes back to the free list. -/
def put (tx : TxPool) (b : Nat) : TxPool := { tx with free := tx.free ++ [b], freeCount := tx.freeCount + 1 }

/-- The loop of `aicwf_usb_tx_process` over the post list. -/
def process (tx : TxPool) (l : UsbLedger) : List Answer → List (Nat × Payload) → TxPool × UsbLedger
  | _, [] => ({ tx with post := [] }, l)
  | answers, entry :: rest =>
      let taken := { tx with postCount := tx.postCount - 1 }
      match answers.headD .ok with
      | .ok => { taken with submitted := tx.submitted ++ [entry] }.process l answers.tail rest
      | .failed noDevice =>
          let freed := UsbLedger.dispose l entry.2 .freeSkb
          if noDevice then ({ taken.put entry.1 with post := rest }, freed)
          else (taken.put entry.1).process freed answers.tail rest

/-- The loop of `aicwf_usb_tx_prepare`. -/
def prepare (tx : TxPool) (l : UsbLedger) : List (Nat × Payload) → TxPool × UsbLedger
  | [] => ({ tx with post := [] }, l)
  | entry :: rest =>
      ({ tx with postCount := tx.postCount - 1 }.put entry.1).prepare
        (UsbLedger.dispose l entry.2 .freeSkb) rest

end TxPool

namespace UsbDev

/-- `aicwf_usb_tx_process` -/
def txProcess (s : UsbDev) (answers : List Answer) : UsbDev :=
  if s.up then
    { s with
      tx := (s.tx.process s.ledger answers s.tx.post).1
      ledger := (s.tx.process s.ledger answers s.tx.post).2 }
  else s

/-- `aicwf_usb_tx_complete` -/
def txComplete (s : UsbDev) (entry : Nat × Payload) : UsbDev :=
  { s with
    tx := { s.tx with submitted := s.tx.submitted.erase entry }.put entry.1
    ledger := UsbLedger.dispose s.ledger entry.2 (if entry.2.copy then .kfree else .freeSkb) }

/-- `aicwf_usb_bus_start` -/
def busStart (s : UsbDev) (msgInPipe : Bool) (results : List Attempt) : UsbDev :=
  if s.up then s
  else
    let s' :=
      { s with
        up := true
        tx := (s.tx.prepare s.ledger s.tx.post).1
        ledger := (s.tx.prepare s.ledger s.tx.post).2 }
    if msgInPipe then s'.msgRxSubmitAll results else s'.rxSubmitAll results

/-- `aicwf_usb_bus_stop` -/
def busStop (s : UsbDev) : UsbDev :=
  { s with
    up := false
    rx := { s.rx with running := false }
    msgRx := { s.msgRx with running := false } }

end UsbDev

inductive UsbEvent where
  | rxComplete (entry : Nat × Payload) (hwReady : Bool) (urb : Urb) (room : Bool) (results : List Attempt)
  | msgRxComplete (entry : Nat × Payload) (urb : Urb) (room : Bool) (results : List Attempt)
  | rxSubmitAll (results : List Attempt)
  | msgRxSubmitAll (results : List Attempt)
  | busTxdata (needCfm allocated : Bool)
  | txProcess (answers : List Answer)
  | txComplete (entry : Nat × Payload)
  | busStart (msgInPipe : Bool) (results : List Attempt)
  | busStop
  deriving DecidableEq

/-- Only the URB of a submitted buffer completes. -/
def usbStep (s : UsbDev) : UsbEvent → Option UsbDev
  | .rxComplete entry hwReady urb room results =>
      if entry ∈ s.rx.submitted then
        some (s.rxComplete entry (rxVerdict s.up hwReady urb room) results)
      else none
  | .msgRxComplete entry urb room results =>
      if entry ∈ s.msgRx.submitted then
        some (s.msgRxComplete entry (msgRxVerdict s.up urb room) results)
      else none
  | .rxSubmitAll results => some (s.rxSubmitAll results)
  | .msgRxSubmitAll results => some (s.msgRxSubmitAll results)
  | .busTxdata needCfm allocated => some (s.busTxdata needCfm allocated)
  | .txProcess answers => some (s.txProcess answers)
  | .txComplete entry => if entry ∈ s.tx.submitted then some (s.txComplete entry) else none
  | .busStart msgInPipe results => some (s.busStart msgInPipe results)
  | .busStop => some s.busStop

/-! ## Conservation -/

/-- The buffers of a pool, wherever they are, and the numbers of what is attached. -/
def RxPool.buffers (pool : RxPool) : List Nat := pool.free ++ pool.submitted.map Prod.fst

def RxPool.held (pool : RxPool) : List Nat := pool.submitted.map fun entry => entry.2.serial

def TxPool.buffers (tx : TxPool) : List Nat :=
  tx.free ++ tx.post.map Prod.fst ++ tx.submitted.map Prod.fst

def TxPool.held (tx : TxPool) : List Nat :=
  tx.post.map (fun entry => entry.2.serial) ++ tx.submitted.map fun entry => entry.2.serial

/-- While the bus is up, a pool in use keeps a URB submitted: its completion is what puts
    the free buffers to use again. -/
def RxPool.Circulates (pool : RxPool) (up : Bool) : Prop :=
  up = true → pool.running = true → pool.submitted ≠ []

/-- Only skbs are attached to receive buffers. -/
def RxPool.HoldsSkbs (pool : RxPool) : Prop := ∀ entry ∈ pool.submitted, entry.2.copy = false

/-- Every buffer is in one place, the counts are those of the lists, and what was
    attached is still attached or was released once, the right way. -/
structure Placed (s : UsbDev) : Prop where
  rx : s.rx.buffers.Perm (List.range rxUrbs)
  msgRx : s.msgRx.buffers.Perm (List.range msgRxUrbs)
  tx : s.tx.buffers.Perm (List.range txUrbs)
  freeCount : s.tx.freeCount = s.tx.free.length
  postCount : s.tx.postCount = s.tx.post.length
  released : s.ledger.Accounts (s.rx.held ++ s.msgRx.held ++ s.tx.held)
  proper : s.ledger.Proper
  rxSkbs : s.rx.HoldsSkbs
  msgRxSkbs : s.msgRx.HoldsSkbs
  idle : s.up = false → s.rx.running = false ∧ s.msgRx.running = false

structure Conserved (s : UsbDev) : Prop extends Placed s where
  rxCirculates : s.rx.Circulates s.up
  msgRxCirculates : s.msgRx.Circulates s.up

/-- A step of a loop or a handler moves buffers and payloads, and loses none. -/
structure Moves (buffers held : List Nat) (l : UsbLedger) (buffers' held' : List Nat) (l' : UsbLedger) :
    Prop where
  buffers : buffers'.Perm buffers
  held : ∀ others, l.Accounts (held ++ others) → l'.Accounts (held' ++ others)

namespace Moves

variable {b b' b'' h h' h'' : List Nat} {l l' l'' : UsbLedger}

theorem refl (b h : List Nat) (l : UsbLedger) : Moves b h l b h l := ⟨.refl _, fun _ => id⟩

theorem trans (first : Moves b h l b' h' l') (second : Moves b' h' l' b'' h'' l'') :
    Moves b h l b'' h'' l'' :=
  ⟨second.buffers.trans first.buffers, fun others => second.held others ∘ first.held others⟩

/-- Something new is attached to a buffer. -/
theorem attach (same : b'.Perm b) (h : List Nat) (l : UsbLedger) :
    Moves b h l b' (h ++ [l.issued]) l.issue := by
  refine ⟨same, fun others accounts => accounts.issue.perm ?_⟩
  rw [List.append_assoc]
  exact List.perm_middle.symm

/-- A payload is taken off its buffer and released. -/
theorem release (same : b'.Perm b) {p : Payload} (taken : h.Perm (p.serial :: h')) (l : UsbLedger)
    (how : Disposal) : Moves b h l b' h' (UsbLedger.dispose l p how) := by
  refine ⟨same, fun others accounts => Ledger.Accounts.settle (accounts.perm ?_) _⟩
  exact taken.append_right others

end Moves

/-- The part of the ledger that another pool holds stays as it is. -/
theorem Moves.first {b b' h h' : List Nat} {l l' : UsbLedger} (moves : Moves b h l b' h' l')
    {second third : List Nat} (accounts : l.Accounts (h ++ second ++ third)) :
    l'.Accounts (h' ++ second ++ third) := by
  rw [List.append_assoc] at accounts ⊢
  exact moves.held _ accounts

theorem Moves.second {b b' h h' : List Nat} {l l' : UsbLedger} (moves : Moves b h l b' h' l')
    {first third : List Nat} (accounts : l.Accounts (first ++ h ++ third)) :
    l'.Accounts (first ++ h' ++ third) := by
  have front : ∀ held : List Nat, (first ++ held ++ third).Perm (held ++ (first ++ third)) := by
    intro held
    rw [← List.append_assoc held]
    exact List.perm_append_comm.append_right third
  exact (moves.held _ (accounts.perm (front h))).perm (front h').symm

theorem Moves.third {b b' h h' : List Nat} {l l' : UsbLedger} (moves : Moves b h l b' h' l')
    {first second : List Nat} (accounts : l.Accounts (first ++ second ++ h)) :
    l'.Accounts (first ++ second ++ h') :=
  (moves.held _ (accounts.perm List.perm_append_comm)).perm List.perm_append_comm

/-! ### The receive pools -/

section Receive

variable (pool : RxPool) (l : UsbLedger)

/-- A loop has submitted something, or nothing. -/
structure Starts (pool pool' : RxPool) (some : Prop) : Prop where
  running : pool'.running = true ↔ pool.running = true ∨ some
  submitted : pool'.submitted ≠ [] ↔ pool.submitted ≠ [] ∨ some

theorem Starts.none {pool pool' : RxPool} {some : Prop} (h : ¬some)
    (running : pool'.running = pool.running) (submitted : pool'.submitted = pool.submitted) :
    Starts pool pool' some :=
  ⟨by simp [running, h], by simp [submitted, h]⟩

end Receive

/-! ### The pool to send -/

/-- Whether the loop of `aicwf_usb_tx_process` comes to a copy that is not submitted. -/
def failsOnCopy : List Answer → List (Nat × Payload) → Bool
  | _, [] => false
  | answers, entry :: rest =>
      match answers.headD .ok with
      | .ok => failsOnCopy answers.tail rest
      | .failed noDevice => entry.2.copy || (!noDevice && failsOnCopy answers.tail rest)

/-- The counts are those of the lists, when `post` is the post list. -/
structure TxPool.Counted (tx : TxPool) (post : List (Nat × Payload)) : Prop where
  free : tx.freeCount = tx.free.length
  post : tx.postCount = post.length

section Send

variable (tx : TxPool) (l : UsbLedger)

theorem TxPool.Counted.put {tx : TxPool} {entry : Nat × Payload} {rest : List (Nat × Payload)}
    (h : tx.Counted (entry :: rest)) :
    ({ tx with postCount := tx.postCount - 1 }.put entry.1).Counted rest := by
  have free := h.free
  have post := h.post
  constructor
  · simp only [TxPool.put, List.length_append, List.length_singleton]
    omega
  · simp only [TxPool.put, List.length_cons] at post ⊢
    omega

theorem TxPool.Counted.submit {tx : TxPool} {entry : Nat × Payload} {rest : List (Nat × Payload)}
    (h : tx.Counted (entry :: rest)) :
    ({ tx with postCount := tx.postCount - 1, submitted := tx.submitted ++ [entry] }).Counted rest := by
  have post := h.post
  refine ⟨h.free, ?_⟩
  simp only [List.length_cons] at post ⊢
  omega

end Send

/-! ## The steps of the device -/

/-- The last submitted buffer of a pool in use is replaced when it completes; a message
    finds room in its queue; there is memory for the copy of a frame; and no copy is in
    the post list when its URB is rejected or the bus starts. -/
def Keeps (s : UsbDev) : UsbEvent → Prop
  | .rxComplete entry hwReady urb room results =>
      s.up = true → s.rx.running = true → s.rx.submitted.erase entry ≠ [] ∨
        ((rxVerdict s.up hwReady urb room).resubmits = true ∧ results.headD .ok = .ok)
  | .msgRxComplete entry urb room _ =>
      msgRxVerdict s.up urb room ≠ .kept ∧ (s.up = true → s.msgRx.running = true →
        s.msgRx.submitted.erase entry ≠ [] ∨ (msgRxVerdict s.up urb room).resubmits = true)
  | .busTxdata needCfm allocated => s.up = true → s.tx.free ≠ [] → needCfm = true → allocated = true
  | .txProcess answers => s.up = true → failsOnCopy answers s.tx.post = false
  | .busStart _ _ => s.up = false → ∀ entry ∈ s.tx.post, entry.2.copy = false
  | _ => True

section Device

variable {s : UsbDev}

end Device

end Aic8800.Usb
