import Aic8800.Lib.Loop
import Aic8800.Rx.Amsdu
import Mathlib

/-! # What is received in one transfer

With aggregation, `aicwf_process_rxframes` takes packets off the front of a buffer as long as
there is another one. A packet begins with its length, of 16 bits, and its type. The length
counts neither the header that the hardware puts before data, nor the first four bytes of a
configuration packet, which is filled up to a multiple of four.
-/

namespace Aic8800.Usb.Aggregate

open Lib

open Rx.Amsdu (roundup skbPull skbPull_drop)

/-- Which allocations succeed, turn by turn, and what is in memory behind the buffer. -/
structure Env where
  alloc : Nat → Bool
  behind : Nat → UInt8

/-- `RX_HWHRD_LEN` -/
def rxHwhrdLen : Nat := 60

/-- `RX_ALIGNMENT` -/
def rxAlignment : Nat := 4

/-- `USB_TYPE_CFG` -/
def usbTypeCfg : UInt8 := 0x10

def isCfg (type : UInt8) : Bool := type &&& usbTypeCfg == usbTypeCfg

def pktLen (skb : List UInt8) : Nat := (skb.getD 0 0).toNat + (skb.getD 1 0).toNat * 256

/-- `aicwf_another_ptk` -/
def anotherPtk (skb : List UInt8) : Prop := 2 ≤ skb.length ∧ pktLen skb ≠ 0

instance (skb : List UInt8) : Decidable (anotherPtk skb) := inferInstanceAs (Decidable (_ ∧ _))

/-- What is read at `skb->data[i]`, within the buffer or not. -/
def Env.byte (env : Env) (skb : List UInt8) (i : Nat) : UInt8 :=
  skb.getD i (env.behind (i - skb.length))

/-- A `memcpy` from `skb->data`. -/
def Env.memcpy (env : Env) (skb : List UInt8) (len : Nat) : List UInt8 :=
  (List.range len).map (env.byte skb)

/-- `aggr_len` and `adjust_len` of data are one `u16`. -/
def aggrLen (pktLen : Nat) : Nat := (pktLen + rxHwhrdLen) % 2 ^ 16

/-- `adjust_len` of a configuration packet, which is a `u16` too. -/
def adjustLen (pktLen : Nat) : Nat :=
  if pktLen % rxAlignment = 0 then pktLen else roundup pktLen rxAlignment % 2 ^ 16

/-- How much is copied of a packet. -/
def copied (cfg : Bool) (pktLen : Nat) : Nat := if cfg then pktLen + 4 else aggrLen pktLen

/-- How much is pulled for it. -/
def pulled (cfg : Bool) (pktLen : Nat) : Nat := if cfg then adjustLen pktLen + 4 else aggrLen pktLen

/-- The state at the head of the loop. -/
structure State where
  turns : Nat
  skb : List UInt8
  emitted : List (List UInt8)
  deriving DecidableEq

def start (skb : List UInt8) : State := ⟨0, skb, []⟩

namespace State

variable (env : Env) (s : State)

/-- The loop goes on to a packet that is not longer than what is left. -/
def more : Prop := anotherPtk s.skb ∧ pktLen s.skb ≤ s.skb.length

instance : Decidable s.more := inferInstanceAs (Decidable (_ ∧ _))

def cfg : Bool := isCfg (env.byte s.skb 2)

/-- A turn of the loop. Data for which there is no memory is skipped, and with no memory for a
    configuration packet the function returns. -/
def turn : Option State :=
  if s.more then
    let pull := skbPull s.skb (pulled (s.cfg env) (pktLen s.skb))
    if env.alloc s.turns then
      some ⟨s.turns + 1, pull,
        s.emitted ++ [env.memcpy s.skb (copied (s.cfg env) (pktLen s.skb))]⟩
    else if s.cfg env then none
    else some ⟨s.turns + 1, pull, s.emitted⟩
  else none

/-- What the function returns when the loop is left here, if it does. -/
def ret : Option Int :=
  if s.more ∧ env.alloc s.turns = false ∧ s.cfg env then some (-52) else none

end State

/-- The aggregated branch of `aicwf_process_rxframes`, with at most `fuel` turns for each buffer:
    what it returns, and what it has handed on. -/
def aicwfProcessRxframes (env : Env) (fuel : Nat) :
    List (List UInt8) → Option (Int × List (List UInt8))
  | [] => some (0, [])
  | skb :: rxq => do
      let s ← Loop.exec (State.turn env) fuel (start skb)
      match s.ret env with
      | some ret => some (ret, s.emitted)
      | none =>
          let (ret, emitted) ← aicwfProcessRxframes env fuel rxq
          some (ret, s.emitted ++ emitted)

/-! ## Packets -/

/-- A packet, as the device forms it. -/
structure Packet where
  len : UInt16
  type : UInt8
  /-- What follows the length and the type. -/
  body : List UInt8
  /-- What fills up a configuration packet to a multiple of four. -/
  pad : List UInt8
  some : len ≠ 0
  size : 3 + body.length = if isCfg type then len.toNat + 4 else len.toNat + rxHwhrdLen
  padded : len.toNat + pad.length =
    if isCfg type then roundup len.toNat rxAlignment else len.toNat

namespace Packet

variable (p : Packet)

/-- The bytes that are handed on. -/
def bytes : List UInt8 :=
  UInt8.ofNat p.len.toNat :: UInt8.ofNat (p.len.toNat / 256) :: p.type :: p.body

/-- The bytes that are received. -/
def encode : List UInt8 := p.bytes ++ p.pad

/-- The lengths that are computed for the packet fit into 16 bits. -/
def Small : Prop := if isCfg p.type then p.len.toNat ≤ 65532 else p.len.toNat < 65476

end Packet

def encode (ps : List Packet) : List UInt8 := ps.flatMap Packet.encode

/-! ## What is asked of the loop -/

/-- A packet that is copied lies within the buffer. -/
def Within (env : Env) (s : State) : Prop :=
  s.more → env.alloc s.turns = true → copied (s.cfg env) (pktLen s.skb) ≤ s.skb.length

/-- The loop comes to its end, whatever memory there is, it copies what it has received, and
    where packets were received, and there is memory, it hands on these and leaves nothing. -/
structure Parses (skb : List UInt8) : Prop where
  returns : ∀ env, ∃ t, Loop.Exits (State.turn env) (start skb) t
  within : ∀ env s, Loop.Head (State.turn env) (start skb) s → Within env s
  emits : ∀ env, (∀ n, env.alloc n = true) → ∀ ps, skb = encode ps →
    ∀ t, Loop.Exits (State.turn env) (start skb) t → t.emitted = ps.map Packet.bytes ∧ t.skb = []

/-- The buffer is a chain of packets, up to where the loop is left. What is copied of a packet,
    and what is pulled for it, is there, and is something. -/
inductive Chained : List UInt8 → Prop where
  | stop {skb : List UInt8} : ¬(anotherPtk skb ∧ pktLen skb ≤ skb.length) → Chained skb
  | next {skb : List UInt8} (cfg : Bool) : anotherPtk skb → pktLen skb ≤ skb.length →
      isCfg (skb.getD 2 0) = cfg → copied cfg (pktLen skb) ≤ skb.length →
      pulled cfg (pktLen skb) ≠ 0 → pulled cfg (pktLen skb) ≤ skb.length →
      Chained (skb.drop (pulled cfg (pktLen skb))) → Chained skb

section Turns

variable {env : Env} {s t : State} {skb : List UInt8} {cfg : Bool} {n : Nat}

theorem Env.byte_eq (within : n < skb.length) : env.byte skb n = skb.getD n 0 := by
  unfold Env.byte
  rw [List.getD_eq_getElem _ _ within, List.getD_eq_getElem _ _ within]

theorem Env.memcpy_eq (within : n ≤ skb.length) : env.memcpy skb n = skb.take n := by
  apply List.ext_getElem
  · simp [Env.memcpy, within]
  · intro i inside there
    have before : i < n := by simpa [Env.memcpy] using inside
    simp only [Env.memcpy, List.getElem_map, List.getElem_range, List.getElem_take]
    rw [Env.byte, List.getD_eq_getElem _ _ (before.trans_le within)]

/-- The type of a packet lies within the buffer if what is copied does. -/
theorem type_within (another : anotherPtk skb) (brief : pktLen skb ≤ skb.length)
    (within : copied cfg (pktLen skb) ≤ skb.length) : 2 < skb.length := by
  obtain ⟨two, some⟩ := another
  unfold copied aggrLen rxHwhrdLen at within
  by_contra short
  split at within <;> omega

theorem turn_cases (taken : s.turn env = some t) :
    s.more ∧ t.skb = skbPull s.skb (pulled (s.cfg env) (pktLen s.skb)) := by
  unfold State.turn at taken
  dsimp only at taken
  split at taken
  · rename_i more
    split at taken
    · cases taken
      exact ⟨more, rfl⟩
    · split at taken
      · cases taken
      · cases taken
        exact ⟨more, rfl⟩
  · cases taken

theorem turn_alloc (more : s.more) (alloc : env.alloc s.turns = true) :
    s.turn env = some ⟨s.turns + 1, skbPull s.skb (pulled (s.cfg env) (pktLen s.skb)),
      s.emitted ++ [env.memcpy s.skb (copied (s.cfg env) (pktLen s.skb))]⟩ := by
  unfold State.turn
  rw [if_pos more]
  exact if_pos alloc

/-- In a chain every packet is copied from the buffer, and the loop is left at its end. -/
theorem Chained.safe (h : Chained skb) (env : Env) (s : State) (same : s.skb = skb) :
    Loop.Safe (State.turn env) (Within env) s := by
  induction h generalizing s with
  | stop last =>
      subst same
      exact .leave (fun more => absurd more last) (if_neg last)
  | next cfg another brief type within _ pull _ ih =>
      subst same
      have there : s.cfg env = cfg := by
        rw [State.cfg, Env.byte_eq (type_within another brief within), type]
      have inside : Within env s := fun _ _ => there ▸ within
      cases taken : s.turn env with
      | none => exact .leave inside taken
      | some t =>
          refine .next inside taken (ih t ?_)
          rw [(turn_cases taken).2, there, skbPull_drop pull]

/-- There is memory for every packet. -/
def plenty : Env := ⟨fun _ => true, fun _ => 0⟩

/-- A pull of nothing, or of more than there is, leaves the loop where it is. -/
theorem stuck (more : s.more)
    (stays : skbPull s.skb (pulled (s.cfg plenty) (pktLen s.skb)) = s.skb) :
    ¬Loop.Exits (State.turn plenty) s t := by
  have trap : ∀ u : State, u.skb = s.skb →
      ∃ v, State.turn plenty u = some v ∧ v.skb = s.skb := by
    intro u same
    have more' : u.more := by rwa [State.more, same]
    refine ⟨_, turn_alloc more' rfl, ?_⟩
    rw [State.cfg, same]
    exact stays
  exact Loop.Exits.not_of_trap trap rfl

theorem chained_of_safe (h : Loop.Safe (State.turn plenty) (Within plenty) s) : Chained s.skb := by
  induction h with
  | @leave s within left =>
      apply Chained.stop
      intro more
      cases left.symm.trans (turn_alloc more rfl)
  | @next s t within taken rest ih =>
      obtain ⟨more, pull⟩ := turn_cases taken
      obtain ⟨u, exits⟩ := rest.exits
      have moves : skbPull s.skb (pulled (s.cfg plenty) (pktLen s.skb)) ≠ s.skb :=
        fun stays => stuck more stays (.next taken exits)
      have some : pulled (s.cfg plenty) (pktLen s.skb) ≠ 0 := by
        intro zero
        rw [zero] at moves
        exact moves (skbPull_drop (Nat.zero_le _))
      have fits : pulled (s.cfg plenty) (pktLen s.skb) ≤ s.skb.length := by
        by_contra far
        exact moves (if_pos (Nat.lt_of_not_le far))
      rw [pull, skbPull_drop fits] at ih
      exact .next _ more.1 more.2 rfl (within more rfl) some fits ih

end Turns

/-! ## Packets are handed on as they were sent -/

section Emission

variable {env : Env} {s t : State} {skb rest : List UInt8} {p : Packet} {ps : List Packet}

/-- What was pulled for a packet that was handed on. -/
def cost (e : List UInt8) : Nat :=
  if isCfg (e.getD 2 0) then adjustLen (e.length - 4) + 4 else e.length % 2 ^ 16

theorem cost_take {cfg : Bool} (type : isCfg (skb.getD 2 0) = cfg)
    (within : copied cfg (pktLen skb) ≤ skb.length) :
    cost (skb.take (copied cfg (pktLen skb))) = pulled cfg (pktLen skb) := by
  unfold cost
  rw [List.length_take, Nat.min_eq_left within]
  cases cfg with
  | true =>
      have there : ((skb.take (pktLen skb + 4)).getD 2 0) = skb.getD 2 0 := by
        simp [List.getD_eq_getElem?_getD]
      unfold copied pulled
      rw [if_pos rfl, if_pos rfl, there, if_pos type, Nat.add_sub_cancel]
  | false =>
      have data : isCfg ((skb.take (aggrLen (pktLen skb))).getD 2 0) = false := by
        by_cases short : aggrLen (pktLen skb) ≤ 2
        · rw [List.getD_eq_default _ _ (by rw [List.length_take]; omega)]
          rfl
        · have there : (skb.take (aggrLen (pktLen skb))).getD 2 0 = skb.getD 2 0 := by
            simp [List.getD_eq_getElem?_getD, Nat.lt_of_not_le short]
          rw [there, type]
      unfold copied pulled
      rw [if_neg Bool.false_ne_true, if_neg Bool.false_ne_true, data, if_neg Bool.false_ne_true]
      exact Nat.mod_mod _ _

/-- What is left of the buffer, and what was pulled for what has been handed on. -/
theorem Chained.account (h : Chained skb) (alloc : ∀ n, env.alloc n = true) (same : s.skb = skb)
    (exits : Loop.Exits (State.turn env) s t) :
    t.skb.length + (t.emitted.map cost).sum = skb.length + (s.emitted.map cost).sum := by
  induction h generalizing s with
  | stop last =>
      subst same
      cases exits with
      | leave _ => rfl
      | next taken _ => exact absurd (turn_cases taken).1 last
  | next cfg another brief type within _ pull _ ih =>
      subst same
      have taken := turn_alloc ⟨another, brief⟩ (alloc s.turns)
      have there : s.cfg env = cfg := by
        rw [State.cfg, Env.byte_eq (type_within another brief within), type]
      rw [there, skbPull_drop pull, Env.memcpy_eq within] at taken
      cases exits with
      | leave left => cases left.symm.trans taken
      | next taken' rest =>
          obtain rfl := Option.some.inj (taken.symm.trans taken')
          rw [ih rfl rest, List.length_drop, List.map_append, List.sum_append, List.map_singleton,
            List.sum_singleton, cost_take type within]
          omega

theorem length_bytes (p : Packet) : p.bytes.length = 3 + p.body.length := by
  simp only [Packet.bytes, List.length_cons]
  omega

theorem length_encode (p : Packet) : p.encode.length = 3 + p.body.length + p.pad.length := by
  rw [Packet.encode, List.length_append, length_bytes]

/-- For no packet more is pulled than it has, and for a small one all of it. -/
theorem cost_bytes (p : Packet) :
    cost p.bytes ≤ p.encode.length ∧ (p.encode.length ≤ cost p.bytes → p.Small) := by
  have size := p.size
  have padded := p.padded
  have below := p.len.toNat_lt
  have type : p.bytes.getD 2 0 = p.type := rfl
  rw [length_encode]
  unfold cost Packet.Small
  rw [length_bytes, type]
  split at size
  · rename_i cfg
    rw [if_pos cfg] at padded ⊢
    rw [if_pos cfg, size, Nat.add_sub_cancel]
    unfold adjustLen
    unfold roundup rxAlignment at *
    split <;> omega
  · rename_i data
    rw [if_neg data] at padded ⊢
    rw [if_neg data, size]
    unfold rxHwhrdLen at *
    omega

theorem small_of_cost (ps : List Packet) :
    ((ps.map Packet.bytes).map cost).sum ≤ (encode ps).length ∧
      ((encode ps).length ≤ ((ps.map Packet.bytes).map cost).sum → ∀ p ∈ ps, p.Small) := by
  induction ps with
  | nil => exact ⟨le_rfl, fun _ => nofun⟩
  | cons p ps ih =>
      obtain ⟨bound, small⟩ := cost_bytes p
      obtain ⟨bounds, smalls⟩ := ih
      have length : (encode (p :: ps)).length = p.encode.length + (encode ps).length := by
        rw [encode, List.flatMap_cons, List.length_append]
        rfl
      rw [length, List.map_cons, List.map_cons, List.sum_cons]
      refine ⟨Nat.add_le_add bound bounds, fun all => ?_⟩
      rw [List.forall_mem_cons]
      exact ⟨small (by omega), smalls (by omega)⟩

theorem pktLen_encode (p : Packet) (rest : List UInt8) :
    pktLen (p.encode ++ rest) = p.len.toNat := by
  have below := p.len.toNat_lt
  show (UInt8.ofNat p.len.toNat).toNat + (UInt8.ofNat (p.len.toNat / 256)).toNat * 256 = _
  rw [UInt8.toNat_ofNat', UInt8.toNat_ofNat']
  omega

/-- For a small packet, its bytes are copied, and it is pulled whole. -/
theorem Packet.Small.lengths (small : p.Small) :
    copied (isCfg p.type) p.len.toNat = p.bytes.length ∧
      pulled (isCfg p.type) p.len.toNat = p.encode.length := by
  have size := p.size
  have padded := p.padded
  rw [length_encode, length_bytes]
  unfold Packet.Small at small
  unfold copied pulled aggrLen adjustLen
  unfold roundup at *
  unfold rxAlignment rxHwhrdLen at *
  cases type : isCfg p.type with
  | true =>
      simp only [type, if_true] at *
      split <;> omega
  | false =>
      simp only [type, Bool.false_eq_true, if_false] at *
      omega

/-- What the loop sees when a packet comes next. -/
theorem head_encode (begins : s.skb = p.encode ++ rest) :
    s.cfg env = isCfg p.type ∧ pktLen s.skb = p.len.toNat ∧
      s.skb.length = p.encode.length + rest.length := by
  have all : s.skb.length = p.encode.length + rest.length := by rw [begins, List.length_append]
  have whole := length_encode p
  refine ⟨?_, by rw [begins, pktLen_encode], all⟩
  rw [State.cfg, Env.byte_eq (by omega), begins]
  rfl

theorem turn_encode (small : p.Small) (alloc : env.alloc s.turns = true)
    (begins : s.skb = p.encode ++ rest) :
    s.turn env = some ⟨s.turns + 1, rest, s.emitted ++ [p.bytes]⟩ := by
  obtain ⟨copies, pulls⟩ := small.lengths
  have nonzero : p.len.toNat ≠ 0 := fun zero => p.some (UInt16.toNat_inj.mp zero)
  have whole := length_encode p
  have size := p.size
  obtain ⟨type, length, all⟩ := head_encode begins
  have long : p.len.toNat + 4 ≤ 3 + p.body.length := by
    unfold rxHwhrdLen at size
    split at size <;> omega
  have more : s.more := by
    refine ⟨⟨?_, ?_⟩, ?_⟩
    · omega
    · rwa [length]
    · omega
  rw [turn_alloc more alloc, type, length, copies, pulls, skbPull_drop (by omega),
    Env.memcpy_eq (by rw [length_bytes]; omega), begins, List.drop_left, Packet.encode,
    List.append_assoc, List.take_left]

theorem emits_encode (alloc : ∀ n, env.alloc n = true) (small : ∀ p ∈ ps, p.Small)
    (same : s.skb = encode ps) (exits : Loop.Exits (State.turn env) s t) :
    t.emitted = s.emitted ++ ps.map Packet.bytes ∧ t.skb = [] := by
  induction ps generalizing s with
  | nil =>
      have last : ¬s.more := by
        rintro ⟨⟨two, -⟩, -⟩
        rw [same] at two
        exact absurd two (by decide)
      cases exits with
      | leave _ => exact ⟨(List.append_nil _).symm, same⟩
      | next taken _ => exact absurd (turn_cases taken).1 last
  | cons p ps ih =>
      rw [List.forall_mem_cons] at small
      have taken := turn_encode small.1 (alloc s.turns) same
      cases exits with
      | leave left => cases left.symm.trans taken
      | next taken' rest =>
          obtain rfl := Option.some.inj (taken.symm.trans taken')
          obtain ⟨emitted, empty⟩ := ih small.2 rfl rest
          refine ⟨?_, empty⟩
          rw [emitted, List.append_assoc]
          rfl

/-- What was put together from small packets is a chain. -/
theorem chained_encode (small : ∀ p ∈ ps, p.Small) : Chained (encode ps) := by
  have safe : ∀ s : State, s.skb = encode ps → Loop.Safe (State.turn plenty) (Within plenty) s := by
    induction ps with
    | nil =>
        intro s same
        have last : ¬s.more := fun more => absurd (same ▸ more.1.1) (by decide)
        exact .leave (fun more => absurd more last) (if_neg last)
    | cons p ps ih =>
        rw [List.forall_mem_cons] at small
        intro s same
        have taken := turn_encode small.1 (rfl : plenty.alloc s.turns = true) same
        obtain ⟨copies, -⟩ := small.1.lengths
        refine .next (fun _ _ => ?_) taken (ih small.2 _ rfl)
        have size := length_bytes p
        obtain ⟨type, length, all⟩ := head_encode same
        rw [type, length, copies, all, length_encode]
        omega
  exact chained_of_safe (safe ⟨0, encode ps, []⟩ rfl)

/-- Of buffers that are chains the branch takes one after another, and returns. -/
theorem rxframes_return {rxq : List (List UInt8)} (env : Env) (h : ∀ skb ∈ rxq, Chained skb) :
    ∃ fuel, ∀ n ≥ fuel, (aicwfProcessRxframes env n rxq).isSome = true := by
  induction rxq with
  | nil => exact ⟨0, fun _ _ => rfl⟩
  | cons skb rxq ih =>
      rw [List.forall_mem_cons] at h
      obtain ⟨t, exits⟩ := (h.1.safe env (start skb) rfl).exits
      obtain ⟨first, left⟩ := exits.exec
      obtain ⟨fuel, rest⟩ := ih h.2
      refine ⟨max first fuel, fun n enough => ?_⟩
      obtain ⟨result, returned⟩ :=
        Option.isSome_iff_exists.mp (rest n ((le_max_right _ _).trans enough))
      unfold aicwfProcessRxframes
      simp only [left n ((le_max_left _ _).trans enough), returned, Option.bind_eq_bind,
        Option.bind_some]
      cases t.ret env with
      | none => rfl
      | some ret => rfl

end Emission

/-- A buffer is parsed as it should be exactly if it is a chain of packets, and, where it was put
    together from packets, none of them is too long for 16 bits. -/
theorem rxframes_parses_iff (skb : List UInt8) :
    Parses skb ↔ Chained skb ∧ ∀ ps, skb = encode ps → ∀ p ∈ ps, p.Small := by
  constructor
  · intro h
    have chained : Chained skb :=
      chained_of_safe (Loop.safe_iff.mpr ⟨h.returns plenty, h.within plenty⟩)
    refine ⟨chained, fun ps same => ?_⟩
    obtain ⟨t, exits⟩ := h.returns plenty
    obtain ⟨emitted, empty⟩ := h.emits plenty (fun _ => rfl) ps same t exits
    have account := chained.account (fun _ => rfl) rfl exits
    rw [emitted, empty, same] at account
    apply (small_of_cost ps).2
    simpa [start] using account.ge
  · rintro ⟨chained, small⟩
    have safe := fun env => Loop.safe_iff.mp (chained.safe env (start skb) rfl)
    refine ⟨fun env => (safe env).1, fun env => (safe env).2, ?_⟩
    intro env alloc ps same t exits
    simpa [start] using emits_encode alloc (small ps same) same exits

/-- Data of which three bytes are received: more is copied than that, and nothing is pulled. -/
theorem cut_data_stays : ¬∀ skb : List UInt8, Parses skb := by
  intro parses
  obtain ⟨t, exits⟩ := (parses [1, 0, 0]).returns plenty
  have more : (start [1, 0, 0]).more := by decide
  exact stuck more rfl exits

end Aic8800.Usb.Aggregate
