import Aic8800.Lib.Loop
import Aic8800.Rx.Amsdu
import Mathlib

/-! # What the loader receives

`aicwf_process_rxframes` of the firmware loader copies each packet of a received buffer, hands the
responses to the message handler, and frees the buffer and what `skb_inblock` points to. That is
declared outside both loops: it points to the last copy, of whichever buffer that was made.
-/

namespace Aic8800.Loader.RxFrames

open Lib

open Rx.Amsdu (roundup skbPull)

/-- Which copies find memory, and what is in memory behind each received buffer -/
structure Env where
  alloc : Nat → Bool
  behind : Nat → Nat → UInt8

/-- `RX_HWHRD_LEN` -/
def rxHwhrdLen : Nat := 60

/-- `RX_ALIGNMENT` -/
def rxAlignment : Nat := 4

/-- `USB_TYPE_CFG` -/
def usbTypeCfg : UInt8 := 0x10

/-- `USB_TYPE_CFG_CMD_RSP` -/
def usbTypeCfgCmdRsp : UInt8 := 0x11

section Packet

variable (env : Env) (n : Nat) (skb : List UInt8)

/-- `skb->data[i]` of the `n`-th buffer, of which `skb` is left -/
def Env.byte (i : Nat) : UInt8 := skb.getD i (env.behind n (i - skb.length))

/-- `memcpy` from `skb->data` -/
def Env.memcpy (len : Nat) : List UInt8 := (List.range len).map (env.byte n skb)

def Env.pktLen : Nat := (env.byte n skb 0).toNat + (env.byte n skb 1).toNat * 256

/-- `aicwf_another_ptk` -/
def Env.AnotherPtk : Prop := skb ≠ [] ∧ env.pktLen n skb ≠ 0

instance : Decidable (env.AnotherPtk n skb) := inferInstanceAs (Decidable (_ ∧ _))

/-- The packet is a configuration packet. -/
def Env.cfg : Bool := env.byte n skb 2 &&& usbTypeCfg == usbTypeCfg

/-- `aggr_len`, a `u16` -/
def Env.aggrLen : Nat :=
  if env.cfg n skb then env.pktLen n skb else (env.pktLen n skb + rxHwhrdLen) % 2 ^ 16

/-- `adjust_len`, a `u16` -/
def Env.adjustLen : Nat :=
  let aggrLen := env.aggrLen n skb
  if aggrLen % rxAlignment = 0 then aggrLen else roundup aggrLen rxAlignment % 2 ^ 16

/-- How much is copied of the packet -/
def Env.copied : Nat := if env.cfg n skb then env.aggrLen n skb + 4 else env.aggrLen n skb

/-- What `skb_pull` is asked for -/
def Env.pulled : Nat := if env.cfg n skb then env.adjustLen n skb + 4 else env.adjustLen n skb

/-- The packet is a response to a command. -/
def Env.response : Bool :=
  env.cfg n skb && env.byte n skb 2 &&& 0x7f == usbTypeCfgCmdRsp

/-- What is left when the packet is pulled -/
def Env.rest : List UInt8 := skbPull skb (env.pulled n skb)

end Packet

/-- A packet that was given to the message handler, and the bytes that were left of the buffer -/
structure Message where
  bytes : List UInt8
  room : Nat

/-- The inner loop: what is left of the buffer, `skb_inblock`, the copies made so far, what was
    handed on, and whether the function returns for want of memory -/
structure Parse where
  skb : List UInt8
  skbInblock : Option Nat
  copies : Nat
  handed : List Message
  failed : Bool

/-- A turn of the inner loop -/
def Parse.turn (env : Env) (n : Nat) (p : Parse) : Option Parse :=
  if p.failed = false ∧ env.AnotherPtk n p.skb then
    if env.alloc p.copies then
      some
        { skb := env.rest n p.skb
          skbInblock := some p.copies
          copies := p.copies + 1
          handed :=
            if env.response n p.skb then
              p.handed ++ [⟨env.memcpy n p.skb (env.copied n p.skb), p.skb.length⟩]
            else p.handed
          failed := false }
    else some { p with skbInblock := none, failed := true }
  else none

/-- The skbs there are: the buffers as they were received, and the copies -/
inductive Skb where
  | received (n : Nat)
  | copy (n : Nat)
  deriving DecidableEq

/-- The function between two buffers -/
structure State where
  dequeued : Nat
  skbInblock : Option Nat
  copies : Nat
  handed : List Message
  freed : List Skb
  /-- How often `rx_cnt` was counted down -/
  counted : Nat

def start : State := ⟨0, none, 0, [], [], 0⟩

namespace State

variable (s : State)

/-- The inner loop begins with the next buffer. -/
def entry (skb : List UInt8) : Parse := ⟨skb, s.skbInblock, s.copies, s.handed, false⟩

/-- The inner loop is left: on failure the buffer is freed, else `skb_inblock` and the buffer. -/
def close (p : Parse) : State where
  dequeued := s.dequeued + 1
  skbInblock := p.skbInblock
  copies := p.copies
  handed := p.handed
  freed :=
    if p.failed then s.freed ++ [.received s.dequeued]
    else s.freed ++ (p.skbInblock.map Skb.copy).toList ++ [.received s.dequeued]
  counted := if p.failed then s.counted else s.counted + 1

end State

/-- `aicwf_process_rxframes` on the buffers in the queue, with at most `fuel` turns for each: what
    it returns, and what it leaves -/
def aicwfProcessRxframes (env : Env) (fuel : Nat) : State → List (List UInt8) → Option (Int × State)
  | s, [] => some (0, s)
  | s, skb :: rxq => do
      let p ← Loop.exec (Parse.turn env s.dequeued) fuel (s.entry skb)
      if p.failed then some (-52, s.close p) else aicwfProcessRxframes env fuel (s.close p) rxq

/-- Every skb there was is freed once, every message lies in its buffer, and `rx_cnt` was counted
    down for each buffer. -/
structure State.Settled (s : State) : Prop where
  freed : s.freed.Perm
    ((List.range s.dequeued).map Skb.received ++ (List.range s.copies).map Skb.copy)
  within : ∀ m ∈ s.handed, m.bytes.length ≤ m.room
  counted : s.counted = s.dequeued

/-- The function returns, and all is settled. -/
def Accounted (env : Env) (rxq : List (List UInt8)) : Prop :=
  ∃ fuel ret s, aicwfProcessRxframes env fuel start rxq = some (ret, s) ∧ s.Settled

/-- The buffers from the `n`-th on, with so many copies made before, which are freed: only before
    the first copy there may be buffers without a packet, and any other has one, for which there is
    memory, which lies in it if it is a response, and behind which no other one is found. -/
def Orderly (env : Env) : (n copies : Nat) → List (List UInt8) → Prop
  | _, _, [] => True
  | n, copies, skb :: rxq =>
      if env.AnotherPtk n skb then
        env.alloc copies = true ∧ (env.response n skb → env.copied n skb ≤ skb.length) ∧
          ¬env.AnotherPtk n (env.rest n skb) ∧ Orderly env (n + 1) (copies + 1) rxq
      else copies = 0 ∧ Orderly env (n + 1) copies rxq

section Run

variable {env : Env} {fuel m ret : Nat} {s t : State} {skb : List UInt8} {rxq : List (List UInt8)}

theorem process_mono {fuel m : Nat} {result : Int × State}
    (returned : aicwfProcessRxframes env fuel s rxq = some result) (more : fuel ≤ m) :
    aicwfProcessRxframes env m s rxq = some result := by
  induction rxq generalizing s with
  | nil => exact returned
  | cons skb rxq ih =>
      unfold aicwfProcessRxframes at returned ⊢
      obtain ⟨p, left, after⟩ := Option.bind_eq_some_iff.mp returned
      rw [Loop.exec_mono left more]
      simp only [Option.bind_eq_bind, Option.bind_some]
      split at after
      · rename_i failed
        rw [if_pos failed]
        exact after
      · rename_i done
        rw [if_neg done]
        exact ih after

/-- The function returns in this state. -/
def Returns (env : Env) (s : State) (rxq : List (List UInt8)) (t : State) : Prop :=
  ∃ fuel ret, aicwfProcessRxframes env fuel s rxq = some (ret, t)

theorem returns_nil : Returns env s [] t ↔ s = t := by
  constructor
  · rintro ⟨fuel, ret, returned⟩
    exact (Prod.mk.inj (Option.some.inj returned)).2
  · rintro rfl
    exact ⟨0, 0, rfl⟩

/-- The inner loop is left, and the function returns there or goes on to the next buffer. -/
theorem returns_cons : Returns env s (skb :: rxq) t ↔
    ∃ p, Loop.Exits (Parse.turn env s.dequeued) (s.entry skb) p ∧
      if p.failed then t = s.close p else Returns env (s.close p) rxq t := by
  constructor
  · rintro ⟨fuel, ret, returned⟩
    unfold aicwfProcessRxframes at returned
    obtain ⟨p, left, after⟩ := Option.bind_eq_some_iff.mp returned
    refine ⟨p, Loop.exits_of_exec left, ?_⟩
    split at after
    · rename_i failed
      rw [if_pos failed]
      exact (Prod.mk.inj (Option.some.inj after)).2.symm
    · rename_i done
      rw [if_neg done]
      exact ⟨fuel, ret, after⟩
  · rintro ⟨p, exits, after⟩
    obtain ⟨first, left⟩ := exits.exec
    by_cases failed : p.failed = true
    · rw [if_pos failed] at after
      refine ⟨first, -52, ?_⟩
      unfold aicwfProcessRxframes
      rw [left first le_rfl]
      simp [failed, after]
    · rw [if_neg failed] at after
      obtain ⟨fuel, ret, rest⟩ := after
      refine ⟨max first fuel, ret, ?_⟩
      unfold aicwfProcessRxframes
      rw [left _ (le_max_left _ _)]
      simp only [Option.bind_eq_bind, Option.bind_some, if_neg failed]
      exact process_mono rest (le_max_right _ _)

theorem accounted_iff : Accounted env rxq ↔ ∃ t, Returns env start rxq t ∧ t.Settled := by
  constructor
  · rintro ⟨fuel, ret, t, returned, settled⟩
    exact ⟨t, ⟨fuel, ret, returned⟩, settled⟩
  · rintro ⟨t, ⟨fuel, ret, returned⟩, settled⟩
    exact ⟨fuel, ret, t, returned, settled⟩

end Run

section Buffer

variable {env : Env} {n c : Nat} {p q : Parse} {s t : State} {skb : List UInt8}
  {rxq : List (List UInt8)}

/-- What a turn that finds memory leaves -/
def Parse.next (env : Env) (n : Nat) (p : Parse) : Parse where
  skb := env.rest n p.skb
  skbInblock := some p.copies
  copies := p.copies + 1
  handed :=
    if env.response n p.skb then
      p.handed ++ [⟨env.memcpy n p.skb (env.copied n p.skb), p.skb.length⟩]
    else p.handed
  failed := false

/-- What a turn can do -/
theorem turn_cases (taken : p.turn env n = some q) :
    p.failed = false ∧ env.AnotherPtk n p.skb ∧
      (env.alloc p.copies = true ∧ q = p.next env n ∨
        env.alloc p.copies = false ∧ q = { p with skbInblock := none, failed := true }) := by
  unfold Parse.turn at taken
  split at taken
  · rename_i more
    refine ⟨more.1, more.2, ?_⟩
    split at taken
    · rename_i memory
      exact .inl ⟨memory, (Option.some.inj taken).symm⟩
    · rename_i none
      exact .inr ⟨by simpa using none, (Option.some.inj taken).symm⟩
  · cases taken

theorem turn_eq_none (last : ¬env.AnotherPtk n p.skb) : p.turn env n = none :=
  if_neg fun more => last more.2

theorem turn_failed (failed : p.failed = true) : p.turn env n = none :=
  if_neg fun more => by simp [failed] at more

/-- Without a packet, or for want of memory, the loop is left where it is. -/
theorem exits_of_none (none : p.turn env n = none) (exits : Loop.Exits (Parse.turn env n) p q) :
    q = p := by
  cases exits with
  | leave _ => rfl
  | next taken _ => cases none.symm.trans taken

/-- A copy that was made and that nothing points to stays so, and what was handed on stays. -/
structure Parse.Grows (p q : Parse) : Prop where
  copies : p.copies ≤ q.copies
  handed : p.handed ⊆ q.handed
  lost : ∀ c < p.copies, p.skbInblock ≠ some c → q.skbInblock ≠ some c

theorem grows_of_turn (taken : p.turn env n = some q) : p.Grows q := by
  obtain ⟨-, -, ⟨-, rfl⟩ | ⟨-, rfl⟩⟩ := turn_cases taken
  · refine ⟨Nat.le_succ _, ?_, fun c before _ same => ?_⟩
    · unfold Parse.next
      dsimp only
      split
      · exact List.subset_append_left _ _
      · exact List.Subset.refl _
    · obtain rfl := Option.some.inj same
      exact Nat.lt_irrefl _ before
  · exact ⟨le_rfl, List.Subset.refl _, fun c _ _ same => by cases same⟩

theorem grows_of_exits (exits : Loop.Exits (Parse.turn env n) p q) : p.Grows q := by
  induction exits with
  | leave _ => exact ⟨le_rfl, List.Subset.refl _, fun _ _ other => other⟩
  | next taken _ ih =>
      have first := grows_of_turn taken
      refine ⟨first.copies.trans ih.copies, List.Subset.trans first.handed ih.handed, ?_⟩
      intro c before other
      exact ih.lost c (before.trans_le first.copies) (first.lost c before other)

/-- A copy that is lost: not freed, and nothing points to it -/
structure State.Lost (s : State) (c : Nat) : Prop where
  made : c < s.copies
  unreachable : s.skbInblock ≠ some c
  kept : Skb.copy c ∉ s.freed

theorem Parse.Grows.close (grows : (s.entry skb).Grows q) :
    s.handed ⊆ (s.close q).handed ∧ s.freed <+: (s.close q).freed ∧
      ∀ c, s.Lost c → (s.close q).Lost c := by
  refine ⟨grows.handed, ?_, ?_⟩
  · unfold State.close
    dsimp only
    split
    · exact List.prefix_append _ _
    · rw [List.append_assoc]
      exact List.prefix_append _ _
  · rintro c ⟨made, unreachable, kept⟩
    have other := grows.lost c made unreachable
    refine ⟨made.trans_le grows.copies, other, ?_⟩
    unfold State.close
    dsimp only
    split
    · simpa using kept
    · cases last : q.skbInblock with
      | none => simpa using kept
      | some d =>
          have : d ≠ c := fun same => other (by rw [last, same])
          simpa [kept] using Ne.symm this

/-- What is lost, handed on or freed at some time is so at the end. -/
theorem Returns.grows (returns : Returns env s rxq t) :
    s.handed ⊆ t.handed ∧ s.freed <+: t.freed ∧ ∀ c, s.Lost c → t.Lost c := by
  induction rxq generalizing s with
  | nil =>
      obtain rfl := returns_nil.mp returns
      exact ⟨List.Subset.refl _, List.prefix_rfl, fun _ lost => lost⟩
  | cons skb rxq ih =>
      obtain ⟨q, exits, after⟩ := returns_cons.mp returns
      obtain ⟨handed, freed, lost⟩ := (grows_of_exits exits).close
      split at after
      · subst after
        exact ⟨handed, freed, lost⟩
      · obtain ⟨handed', freed', lost'⟩ := ih after
        exact ⟨List.Subset.trans handed handed', freed.trans freed',
          fun c there => lost' c (lost c there)⟩

/-- Nothing is lost when all is settled. -/
theorem State.Settled.not_lost (settled : s.Settled) : ¬s.Lost c := by
  rintro ⟨made, -, kept⟩
  apply kept
  rw [settled.freed.mem_iff]
  simp [made]

/-- Between two buffers, with all freed that there was: `skb_inblock` points to the last copy, which
    is freed too. -/
structure State.Even (s : State) : Prop where
  freed : s.freed.Perm
    ((List.range s.dequeued).map Skb.received ++ (List.range s.copies).map Skb.copy)
  counted : s.counted = s.dequeued
  skbInblock : s.skbInblock = if s.copies = 0 then none else some (s.copies - 1)

theorem State.Settled.nodup (settled : s.Settled) : s.freed.Nodup := by
  rw [settled.freed.nodup_iff]
  refine List.Nodup.append ?_ ?_ ?_
  · exact List.nodup_range.map fun _ _ same => Skb.received.inj same
  · exact List.nodup_range.map fun _ _ same => Skb.copy.inj same
  · intro x received copy
    obtain ⟨_, -, rfl⟩ := List.mem_map.mp received
    obtain ⟨_, -, same⟩ := List.mem_map.mp copy
    cases same

/-- A buffer without a packet, when no copy was made yet -/
theorem State.Even.close_none (even : s.Even) (none : s.copies = 0) (skb : List UInt8) :
    (s.close (s.entry skb)).Even := by
  have unset := even.skbInblock
  rw [if_pos none] at unset
  refine ⟨?_, congrArg (· + 1) even.counted, ?_⟩
  · have freed := even.freed
    simp only [none, List.range_zero, List.map_nil, List.append_nil] at freed
    simp only [State.close, State.entry, unset, none, Option.map_none, Option.toList_none,
      List.append_nil, Bool.false_eq_true, if_false, List.range_succ, List.map_append,
      List.map_singleton, List.range_zero, List.map_nil]
    exact freed.append_right _
  · simp [State.close, State.entry, unset, none]

/-- A buffer with one packet -/
theorem State.Even.close_one (even : s.Even) (skb : List UInt8) :
    (s.close ((s.entry skb).next env s.dequeued)).Even := by
  refine ⟨?_, congrArg (· + 1) even.counted, ?_⟩
  · have freed := List.perm_iff_count.mp even.freed
    rw [List.perm_iff_count]
    intro x
    have same := freed x
    simp only [State.close, State.entry, Parse.next, Bool.false_eq_true, if_false, Option.map_some,
      Option.toList_some, List.range_succ, List.map_append, List.map_singleton,
      List.count_append] at same ⊢
    omega
  · simp [State.close, State.entry, Parse.next]

/-- With `skb_inblock` still pointing to the last copy, it is freed again. -/
theorem State.Even.freed_twice (even : s.Even) (some' : s.copies ≠ 0) (skb : List UInt8) :
    ¬(s.close (s.entry skb)).freed.Nodup := by
  have last := even.skbInblock
  rw [if_neg some'] at last
  have freed : Skb.copy (s.copies - 1) ∈ s.freed := by
    rw [even.freed.mem_iff]
    simp
    omega
  intro nodup
  simp only [State.close, State.entry, last, Option.map_some, Option.toList_some,
    Bool.false_eq_true, if_false] at nodup
  have before := (List.nodup_append.mp nodup).1
  exact (List.nodup_append.mp before).2.2 _ freed _ (List.mem_singleton_self _) rfl

/-- A copy that `skb_inblock` has left is lost. -/
theorem State.Even.lost_first (even : s.Even) (made : s.copies < q.copies)
    (other : q.skbInblock ≠ some s.copies) : (s.close q).Lost s.copies := by
  have kept : Skb.copy s.copies ∉ s.freed := by
    rw [even.freed.mem_iff]
    simp
  refine ⟨made, other, ?_⟩
  unfold State.close
  dsimp only
  split
  · simpa using kept
  · cases last : q.skbInblock with
    | none => simpa using kept
    | some d =>
        have apart : d ≠ s.copies := fun same => other (by rw [last, same])
        simpa [kept] using Ne.symm apart

/-- Without memory, the buffer is not counted. -/
theorem State.Even.uncounted (even : s.Even) (failed : q.failed = true) : ¬(s.close q).Settled := by
  intro settled
  have counted := settled.counted
  simp only [State.close, failed, if_true] at counted
  have before := even.counted
  omega

theorem turn_some (going : p.failed = false) (another : env.AnotherPtk n p.skb) :
    p.turn env n ≠ none := by
  unfold Parse.turn
  rw [if_pos ⟨going, another⟩]
  split <;> exact Option.some_ne_none _

/-- A buffer with a packet, of a run that settles all, has no other one behind it. -/
theorem State.Even.one_packet (even : s.Even) (another : env.AnotherPtk s.dequeued skb)
    (exits : Loop.Exits (Parse.turn env s.dequeued) (s.entry skb) q)
    (going : q.failed = false) (kept : ∀ c, ¬(s.close q).Lost c) :
    env.alloc s.copies = true ∧ ¬env.AnotherPtk s.dequeued (env.rest s.dequeued skb) ∧
      q = (s.entry skb).next env s.dequeued := by
  cases exits with
  | leave none => exact absurd none (turn_some rfl another)
  | next taken rest =>
      obtain ⟨-, -, ⟨memory, rfl⟩ | ⟨-, rfl⟩⟩ := turn_cases taken
      · have alone : ¬env.AnotherPtk s.dequeued (env.rest s.dequeued skb) := by
          intro second
          cases rest with
          | leave none => exact turn_some rfl second none
          | next taken rest =>
              have grows := grows_of_exits rest
              obtain ⟨-, -, ⟨-, rfl⟩ | ⟨-, rfl⟩⟩ := turn_cases taken
              · apply kept s.copies
                apply even.lost_first
                · exact Nat.lt_of_lt_of_le (by simp [Parse.next, State.entry]) grows.copies
                · apply grows.lost s.copies (by simp [Parse.next, State.entry])
                  simp [Parse.next, State.entry]
              · rw [exits_of_none (turn_failed rfl) rest] at going
                cases going
        exact ⟨memory, alone, exits_of_none (turn_eq_none alone) rest⟩
      · rw [exits_of_none (turn_failed rfl) rest] at going
        cases going

/-- What is settled in the end went on in order. -/
theorem orderly_of_settled (even : s.Even) (returns : Returns env s rxq t) (settled : t.Settled) :
    Orderly env s.dequeued s.copies rxq := by
  induction rxq generalizing s with
  | nil => trivial
  | cons skb rxq ih =>
      obtain ⟨q, exits, after⟩ := returns_cons.mp returns
      have going : q.failed = false := by
        by_contra failed
        rw [if_pos (by simpa using failed)] at after
        exact even.uncounted (by simpa using failed) (after ▸ settled)
      rw [if_neg (by simp [going])] at after
      obtain ⟨handed, freed, lost⟩ := after.grows
      unfold Orderly
      by_cases another : env.AnotherPtk s.dequeued skb
      · obtain ⟨memory, alone, rfl⟩ := even.one_packet another exits going
          fun c there => settled.not_lost (lost c there)
        rw [if_pos another]
        refine ⟨memory, fun response => ?_, alone, ih (even.close_one skb) after⟩
        have there : Message.mk (env.memcpy s.dequeued skb (env.copied s.dequeued skb)) skb.length ∈
            t.handed := by
          apply handed
          simp [State.close, State.entry, Parse.next, response]
        simpa [Env.memcpy] using settled.within _ there
      · obtain rfl := exits_of_none (turn_eq_none (p := s.entry skb) another) exits
        rw [if_neg another]
        have none : s.copies = 0 := by
          by_contra some'
          exact even.freed_twice some' skb (settled.nodup.sublist freed.sublist)
        exact ⟨none, ih (even.close_none none skb) after⟩

theorem exits_none (last : ¬env.AnotherPtk n p.skb) : Loop.Exits (Parse.turn env n) p p :=
  .leave (turn_eq_none last)

theorem exits_one (going : p.failed = false) (another : env.AnotherPtk n p.skb)
    (memory : env.alloc p.copies = true) (alone : ¬env.AnotherPtk n (env.rest n p.skb)) :
    Loop.Exits (Parse.turn env n) p (p.next env n) := by
  refine .next ?_ (exits_none (p := p.next env n) alone)
  unfold Parse.turn
  rw [if_pos ⟨going, another⟩, if_pos memory]
  rfl

/-- A message is an old one, or the packet that was copied. -/
theorem handed_next {m : Message} (member : m ∈ (p.next env n).handed) :
    m ∈ p.handed ∨ env.response n p.skb = true ∧
      m = ⟨env.memcpy n p.skb (env.copied n p.skb), p.skb.length⟩ := by
  unfold Parse.next at member
  dsimp only at member
  split at member
  · rename_i response
    obtain old | new := List.mem_append.mp member
    · exact .inl old
    · exact .inr ⟨response, List.mem_singleton.mp new⟩
  · exact .inl member

/-- What goes on in order is settled in the end. -/
theorem settled_of_orderly (even : s.Even) (within : ∀ m ∈ s.handed, m.bytes.length ≤ m.room)
    (orderly : Orderly env s.dequeued s.copies rxq) : ∃ t, Returns env s rxq t ∧ t.Settled := by
  induction rxq generalizing s with
  | nil => exact ⟨s, returns_nil.mpr rfl, even.freed, within, even.counted⟩
  | cons skb rxq ih =>
      unfold Orderly at orderly
      by_cases another : env.AnotherPtk s.dequeued skb
      · rw [if_pos another] at orderly
        obtain ⟨memory, inside, alone, rest⟩ := orderly
        have messages : ∀ m ∈ (s.close ((s.entry skb).next env s.dequeued)).handed,
            m.bytes.length ≤ m.room := by
          intro m member
          obtain old | ⟨response, rfl⟩ := handed_next (p := s.entry skb) member
          · exact within m old
          · rw [Env.memcpy, List.length_map, List.length_range]
            exact inside response
        obtain ⟨t, returns, settled⟩ := ih (even.close_one skb) messages rest
        refine ⟨t, returns_cons.mpr ⟨_, exits_one rfl another memory alone, ?_⟩, settled⟩
        rw [if_neg (by simp [Parse.next])]
        exact returns
      · rw [if_neg another] at orderly
        obtain ⟨none, rest⟩ := orderly
        obtain ⟨t, returns, settled⟩ := ih (even.close_none none skb) within rest
        refine ⟨t, returns_cons.mpr ⟨_, exits_none (p := s.entry skb) another, ?_⟩, settled⟩
        rw [if_neg (by simp [State.entry])]
        exact returns

theorem even_start : start.Even := ⟨List.Perm.refl _, rfl, rfl⟩

end Buffer

/-- The function returns with every skb freed once, every message within its buffer, and every
    buffer counted, exactly if the buffers are in order. -/
theorem rxframes_accounted_iff (env : Env) (rxq : List (List UInt8)) :
    Accounted env rxq ↔ Orderly env 0 0 rxq := by
  rw [accounted_iff]
  constructor
  · rintro ⟨t, returns, settled⟩
    exact orderly_of_settled even_start returns settled
  · exact settled_of_orderly even_start nofun

/-- Two responses of one byte in one buffer -/
def twoResponses : List UInt8 := [1, 0, 0x11, 0, 0, 0, 0, 0, 1, 0, 0x11, 0, 0, 0, 0, 0]

/-- The copy of the first one is never freed. -/
theorem first_copy_lost : ¬∀ env rxq, Accounted env rxq := by
  intro accounted
  obtain ⟨t, returns, settled⟩ :=
    accounted_iff.mp (accounted ⟨fun _ => true, fun _ _ => 0⟩ [twoResponses])
  have orderly := orderly_of_settled even_start returns settled
  unfold Orderly at orderly
  rw [if_pos (by decide)] at orderly
  exact absurd orderly.2.2.1 (by decide)

end Aic8800.Loader.RxFrames
