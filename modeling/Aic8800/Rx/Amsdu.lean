import Aic8800.Lib.Loop
import Aic8800.Reorder.Frames
import Mathlib

/-! # The sub-frames of an A-MSDU

`rwnx_rxdata_process_amsdu` takes the sub-frames off the front of the aggregate and
makes an Ethernet frame of each. Where the next one starts is computed from the length
field of this one, in 16 bits, and the aggregate is left as it is by a pull that is
longer than what is left of it.
-/

namespace Aic8800.Rx.Amsdu

open Lib

open Reorder (MacAddr)

/-- Which allocations succeed, and whether the interface is found, for each turn. -/
structure Env where
  alloc : Nat → Bool
  vif : Nat → Bool

/-- `MAC_ADDR_LEN` -/
def macAddrLen : Nat := 6

def sublen (skb : List UInt8) : Nat := (skb.getD 12 0).toNat * 256 + (skb.getD 13 0).toNat

def roundup (n m : Nat) : Nat := (n + m - 1) / m * m

/-- `len_alligned` is a `u16`. There is none for a sub-frame that is longer than the data. -/
def lenAlligned (skb : List UInt8) : Option Nat :=
  if sublen skb + 14 < skb.length then some (roundup (sublen skb + 14) 4 % 2 ^ 16)
  else if skb.length = sublen skb + 14 then some ((sublen skb + 14) % 2 ^ 16)
  else none

/-- A `memcpy` out of the data. -/
structure Copy where
  src : Nat
  size : Int

/-- What is copied to make a frame, in the order of the frame. -/
def copies (skb : List UInt8) : List Copy :=
  [⟨0, macAddrLen⟩, ⟨6, macAddrLen⟩, ⟨14 + 6, sublen skb - 6⟩]

namespace Copy

def Within (c : Copy) (skb : List UInt8) : Prop := 0 ≤ c.size ∧ c.src + c.size ≤ skb.length

instance (c : Copy) (skb : List UInt8) : Decidable (c.Within skb) :=
  inferInstanceAs (Decidable (_ ∧ _))

def bytes (c : Copy) (skb : List UInt8) : List UInt8 := (skb.drop c.src).take c.size.toNat

end Copy

/-- `skb_pull` -/
def skbPull (skb : List UInt8) (len : Nat) : List UInt8 :=
  if skb.length < len then skb else skb.drop len

/-- The state at the head of the loop. -/
structure Aggregate where
  turns : Nat
  skb : List UInt8
  list : List (List UInt8)
  deriving DecidableEq

def start (skb : List UInt8) : Aggregate := ⟨0, skb, []⟩

/-- A turn of the loop. The loop is left at a `break`, and at a copy that is not within the
    data, which is not survived. -/
def Aggregate.turn (env : Env) (s : Aggregate) : Option Aggregate :=
  if 16 < s.skb.length then
    (lenAlligned s.skb).bind fun lenAlligned =>
      if env.alloc s.turns ∧ (∀ c ∈ copies s.skb, c.Within s.skb) ∧ env.vif s.turns then
        some
          { turns := s.turns + 1, skb := skbPull s.skb lenAlligned
            list := s.list ++ [(copies s.skb).flatMap fun c => c.bytes s.skb] }
      else none
  else none

/-- The frames that are queued, and how often the aggregate is freed. -/
structure Processed where
  list : List (List UInt8)
  freed : Nat
  deriving DecidableEq

/-- `rwnx_rxdata_process_amsdu`, with at most `fuel` turns. -/
def rwnxRxdataProcessAmsdu (env : Env) (fuel : Nat) (skb : List UInt8) : Option Processed :=
  (Loop.exec (Aggregate.turn env) fuel (start skb)).map fun s => ⟨s.list, 1⟩

/-! ## The loop is left -/

/-- What a turn does: its copies are within the data, and it leaves less data. -/
structure Good (env : Env) (s : Aggregate) : Prop where
  copies : 16 < s.skb.length → (lenAlligned s.skb).isSome = true → env.alloc s.turns = true →
    ∀ c ∈ copies s.skb, c.Within s.skb
  progress : ∀ t, s.turn env = some t → t.skb.length < s.skb.length

/-- The data is left in good order, whatever memory there is: the loop comes to its end, and each
    of its turns is good. -/
def Terminates (skb : List UInt8) : Prop :=
  ∀ env, (∃ t, Loop.Exits (Aggregate.turn env) (start skb) t) ∧
    ∀ s, Loop.Head (Aggregate.turn env) (start skb) s → Good env s

/-- The data is a chain of sub-frames. One that more than 16 bytes begin and that is not cut
    short has a length of 6 at least; what it takes up, with the bytes to the next multiple
    of four unless it is the last one, is there, and is not a multiple of 2^16. -/
inductive Chained : List UInt8 → Prop where
  | short {skb : List UInt8} : skb.length ≤ 16 → Chained skb
  | cut {skb : List UInt8} : skb.length < sublen skb + 14 → Chained skb
  | last {skb : List UInt8} : 16 < skb.length → skb.length = sublen skb + 14 → 6 ≤ sublen skb →
      (sublen skb + 14) % 2 ^ 16 ≠ 0 → Chained (skb.drop ((sublen skb + 14) % 2 ^ 16)) →
      Chained skb
  | next {skb : List UInt8} : 16 < skb.length → sublen skb + 14 < skb.length → 6 ≤ sublen skb →
      roundup (sublen skb + 14) 4 % 2 ^ 16 ≠ 0 →
      roundup (sublen skb + 14) 4 % 2 ^ 16 ≤ skb.length →
      Chained (skb.drop (roundup (sublen skb + 14) 4 % 2 ^ 16)) → Chained skb

section Turns

variable {env : Env} {s t : Aggregate}

theorem copies_within {skb : List UInt8} (long : 16 < skb.length)
    (fits : sublen skb + 14 ≤ skb.length) :
    (∀ c ∈ copies skb, c.Within skb) ↔ 6 ≤ sublen skb := by
  simp only [copies, Copy.Within, macAddrLen, List.forall_mem_cons, List.not_mem_nil]
  constructor
  · rintro ⟨_, _, ⟨size, _⟩, _⟩
    omega
  · intro size
    refine ⟨by omega, by omega, by omega, fun _ none => none.elim⟩

/-- A turn that is taken, with the length that is pulled. -/
theorem turn_cases (taken : s.turn env = some t) :
    16 < s.skb.length ∧ (∀ c ∈ copies s.skb, c.Within s.skb) ∧
      ∃ len, lenAlligned s.skb = some len ∧ t.skb = skbPull s.skb len := by
  unfold Aggregate.turn at taken
  split at taken
  · rename_i long
    obtain ⟨len, aligned, rest⟩ := Option.bind_eq_some_iff.mp taken
    split at rest
    · rename_i ok
      obtain rfl := Option.some.inj rest
      exact ⟨long, ok.2.1, len, aligned, rfl⟩
    · cases rest
  · cases taken

theorem lenAlligned_le {skb : List UInt8} {len : Nat} (aligned : lenAlligned skb = some len) :
    sublen skb + 14 ≤ skb.length := by
  unfold lenAlligned at aligned
  grind

theorem skbPull_drop {skb : List UInt8} {len : Nat} (fits : len ≤ skb.length) :
    skbPull skb len = skb.drop len := if_neg (by omega)

/-- A pull takes something away unless it is of nothing, or of too much. -/
theorem length_skbPull {skb : List UInt8} {len : Nat} (some : skb ≠ []) :
    (skbPull skb len).length < skb.length ↔ len ≠ 0 ∧ len ≤ skb.length := by
  have := List.length_pos_iff.mpr some
  unfold skbPull
  split
  · omega
  · rw [List.length_drop]
    omega

/-- A sub-frame that is there, and long enough, is taken, or the loop is left. -/
theorem safe_of_fits {len : Nat} (long : 16 < s.skb.length)
    (aligned : lenAlligned s.skb = some len) (size : 6 ≤ sublen s.skb) (some : len ≠ 0)
    (fits : len ≤ s.skb.length)
    (rest : ∀ t, t.skb = s.skb.drop len → Loop.Safe (Aggregate.turn env) (Good env) t) :
    Loop.Safe (Aggregate.turn env) (Good env) s := by
  have within := (copies_within long (lenAlligned_le aligned)).mpr size
  cases taken : s.turn env with
  | none =>
      refine .leave ⟨fun _ _ _ => within, fun t wrong => ?_⟩ taken
      cases taken.symm.trans wrong
  | some t =>
      obtain ⟨_, _, len', aligned', pulled⟩ := turn_cases taken
      obtain rfl := Option.some.inj (aligned.symm.trans aligned')
      refine .next ⟨fun _ _ _ => within, fun t' taken' => ?_⟩ taken
        (rest t (pulled.trans (skbPull_drop fits)))
      obtain rfl := Option.some.inj (taken.symm.trans taken')
      rw [pulled, length_skbPull (by rintro empty; simp [empty] at long)]
      exact ⟨some, fits⟩

theorem Chained.safe {skb : List UInt8} (h : Chained skb) (env : Env) (s : Aggregate)
    (same : s.skb = skb) : Loop.Safe (Aggregate.turn env) (Good env) s := by
  induction h generalizing s with
  | short brief =>
      subst same
      have left : s.turn env = none := if_neg (by omega)
      refine .leave ⟨fun long => absurd long (by omega), fun t taken => ?_⟩ left
      cases left.symm.trans taken
  | cut brief =>
      subst same
      have none : lenAlligned s.skb = none := by
        unfold lenAlligned
        rw [if_neg (by omega), if_neg (by omega)]
      have left : s.turn env = .none := by simp [Aggregate.turn, none]
      refine .leave ⟨fun _ there => ?_, fun t taken => ?_⟩ left
      · rw [none] at there
        cases there
      · cases left.symm.trans taken
  | last long exact size some _ ih =>
      subst same
      have aligned : lenAlligned s.skb = .some ((sublen s.skb + 14) % 2 ^ 16) := by
        unfold lenAlligned
        rw [if_neg (by omega), if_pos exact]
      exact safe_of_fits long aligned size some (by omega) ih
  | next long more size some fits _ ih =>
      subst same
      exact safe_of_fits long (if_pos more) size some fits ih

/-- Every allocation succeeds, and the interface is there. -/
def plenty : Env := ⟨fun _ => true, fun _ => true⟩

theorem chained_of_safe (h : Loop.Safe (Aggregate.turn plenty) (Good plenty) s) :
    Chained s.skb := by
  induction h with
  | @leave s good left =>
      by_cases brief : s.skb.length ≤ 16
      · exact .short brief
      · by_cases cut : s.skb.length < sublen s.skb + 14
        · exact .cut cut
        · have aligned : ∃ len, lenAlligned s.skb = some len := by
            unfold lenAlligned
            split
            · exact ⟨_, rfl⟩
            · exact ⟨_, if_pos (by omega)⟩
          obtain ⟨len, aligned⟩ := aligned
          have within := good.copies (by omega) (by simp [aligned]) rfl
          have taken : s.turn plenty ≠ none := by
            simp only [Aggregate.turn, Nat.lt_of_not_le brief, aligned, plenty, if_true]
            simpa using within
          exact absurd left taken
  | @next s t good taken _ ih =>
      obtain ⟨long, within, len, aligned, pulled⟩ := turn_cases taken
      have size := (copies_within long (lenAlligned_le aligned)).mp within
      have shrinks := good.progress t taken
      rw [pulled, length_skbPull (by rintro empty; simp [empty] at long)] at shrinks
      obtain ⟨some, fits⟩ := shrinks
      rw [pulled, skbPull_drop fits] at ih
      unfold lenAlligned at aligned
      split at aligned
      · obtain rfl := Option.some.inj aligned
        exact .next long ‹_› size some fits ih
      · split at aligned
        · obtain rfl := Option.some.inj aligned
          exact .last long ‹_› size some ih
        · cases aligned

end Turns

/-- The loop comes to its end with good turns only, whatever memory there is, exactly for the
    data that is a chain of sub-frames. -/
theorem amsdu_terminates_iff (skb : List UInt8) : Terminates skb ↔ Chained skb := by
  constructor
  · intro h
    have safe := Loop.safe_iff.mpr (h plenty)
    exact chained_of_safe safe
  · intro h env
    exact Loop.safe_iff.mp (h.safe env (start skb) rfl)

/-- A sub-frame of 21 bytes, and one byte that follows it. -/
def paddedShort : List UInt8 := List.replicate 12 0 ++ [0, 7] ++ List.replicate 8 0

/-- Three bytes are to be pulled after the sub-frame, and none is: the turn is taken again. -/
theorem padded_short_stays : ¬ ∀ skb : List UInt8, Terminates skb := by
  intro terminates
  have good := (terminates paddedShort plenty).2 _ .start
  have taken : (start paddedShort).turn plenty =
      some ⟨1, paddedShort, [List.replicate 12 0 ++ [0]]⟩ := by decide
  have shrinks := good.progress _ taken
  exact absurd shrinks (by decide)

/-! ## The frames are those that were aggregated -/

/-- A destination, a source and an LLC header with what follows it. -/
structure Msdu where
  da : MacAddr
  sa : MacAddr
  payload : List UInt8
  llc : 8 ≤ payload.length

/-- An MSDU with the bytes that fill it up to a multiple of four. -/
structure SubFrame extends Msdu where
  pad : List UInt8
  brief : pad.length < 4
  aligned : (14 + payload.length + pad.length) % 4 = 0

namespace Msdu

/-- The sub-frame without its padding. -/
def encode (m : Msdu) : List UInt8 :=
  m.da.toList ++ (m.sa.toList ++ (UInt8.ofNat (m.payload.length / 256) ::
    UInt8.ofNat m.payload.length :: m.payload))

/-- The Ethernet frame, with the EtherType of the LLC header. -/
def ethernet (m : Msdu) : List UInt8 := m.da.toList ++ (m.sa.toList ++ m.payload.drop 6)

end Msdu

/-- The aggregate, with no padding after the last sub-frame. -/
def encode : List SubFrame → List UInt8
  | [] => []
  | [m] => m.toMsdu.encode
  | m :: ms => m.toMsdu.encode ++ (m.pad ++ encode ms)

/-- Each sub-frame is shorter than 2^16 bytes, with its padding unless it is the last one. -/
def Fits : List SubFrame → Prop
  | [] => True
  | [m] => m.toMsdu.encode.length < 2 ^ 16
  | m :: ms => (m.toMsdu.encode ++ m.pad).length < 2 ^ 16 ∧ Fits ms

section Decode

variable {m : Msdu} {rest : List UInt8}

theorem length_encode (m : Msdu) : m.encode.length = 14 + m.payload.length := by
  simp [Msdu.encode]
  omega

theorem sublen_encode (small : m.payload.length < 2 ^ 16) :
    sublen (m.encode ++ rest) = m.payload.length := by
  have high : (m.encode ++ rest).getD 12 0 = UInt8.ofNat (m.payload.length / 256) := by
    simp [Msdu.encode, List.getD_eq_getElem?_getD, List.getElem?_append]
  have low : (m.encode ++ rest).getD 13 0 = UInt8.ofNat m.payload.length := by
    simp [Msdu.encode, List.getD_eq_getElem?_getD, List.getElem?_append]
  unfold sublen
  rw [high, low, UInt8.toNat_ofNat', UInt8.toNat_ofNat']
  omega

theorem bytes_encode (small : m.payload.length < 2 ^ 16) :
    ((copies (m.encode ++ rest)).flatMap fun c => c.bytes (m.encode ++ rest)) = m.ethernet := by
  have llc := m.llc
  have size : ((m.payload.length : Int) - 6).toNat = m.payload.length - 6 := by omega
  simp only [copies, sublen_encode small, Copy.bytes, macAddrLen, List.flatMap_cons,
    List.flatMap_nil, List.append_nil, size]
  have da : ((m.encode ++ rest).drop 0).take (Int.toNat (6 : Nat)) = m.da.toList := by
    simp [Msdu.encode]
  have sa : ((m.encode ++ rest).drop 6).take (Int.toNat (6 : Nat)) = m.sa.toList := by
    simp [Msdu.encode]
  have header : ∀ a : MacAddr, ∀ n, 6 ≤ n → a.toList.drop n = [] := by
    intro a n far
    exact List.drop_eq_nil_of_le (by simpa using far)
  have body : ((m.encode ++ rest).drop (14 + 6)).take (m.payload.length - 6) =
      m.payload.drop 6 := by
    simp [Msdu.encode, List.drop_append, header]
  rw [da, sa, body]
  rfl

/-- The turn that takes a sub-frame off the front. -/
theorem turn_encode {s : Aggregate} (small : m.payload.length < 2 ^ 16)
    (begins : s.skb = m.encode ++ rest) {len : Nat} (aligned : lenAlligned s.skb = some len)
    (fits : len ≤ s.skb.length) {env : Env} (alloc : ∀ n, env.alloc n = true)
    (vif : ∀ n, env.vif n = true) :
    s.turn env = some ⟨s.turns + 1, s.skb.drop len, s.list ++ [m.ethernet]⟩ := by
  have llc := m.llc
  have length : s.skb.length = 14 + m.payload.length + rest.length := by
    rw [begins, List.length_append, length_encode]
  have long : 16 < s.skb.length := by omega
  have sub : sublen s.skb = m.payload.length := by rw [begins, sublen_encode small]
  have within : ∀ c ∈ copies s.skb, c.Within s.skb :=
    (copies_within long (by omega)).mpr (by omega)
  have bytes : ((copies s.skb).flatMap fun c => c.bytes s.skb) = m.ethernet := by
    rw [begins, bytes_encode small]
  have ok : env.alloc s.turns = true ∧ (∀ c ∈ copies s.skb, c.Within s.skb) ∧
      env.vif s.turns = true := ⟨alloc _, within, vif _⟩
  unfold Aggregate.turn
  rw [if_pos long, aligned, Option.bind_some, if_pos ok, bytes, skbPull_drop fits]

theorem length_pos_encode {ms : List SubFrame} (some : ms ≠ []) : 0 < (encode ms).length := by
  induction ms using encode.induct with
  | case1 => exact absurd rfl some
  | case2 m =>
      rw [encode, length_encode]
      omega
  | case3 m ms more ih =>
      rw [encode, List.length_append, length_encode]
      · omega
      · exact more

/-- Where the padding of a sub-frame ends, if more follows. -/
theorem roundup_length (m : SubFrame) :
    roundup (m.payload.length + 14) 4 = 14 + m.payload.length + m.pad.length := by
  have brief := m.brief
  have aligned := m.aligned
  unfold roundup
  omega

variable {env : Env} {s : Aggregate}

theorem turn_last (alloc : ∀ n, env.alloc n = true) (vif : ∀ n, env.vif n = true)
    (fits : m.encode.length < 2 ^ 16) (same : s.skb = m.encode) :
    s.turn env = some ⟨s.turns + 1, [], s.list ++ [m.ethernet]⟩ := by
  have length := length_encode m
  have begins : s.skb = m.encode ++ [] := by rw [same, List.append_nil]
  have small : m.payload.length < 2 ^ 16 := by omega
  have sub : sublen s.skb = m.payload.length := by rw [begins, sublen_encode small]
  have aligned : lenAlligned s.skb = some s.skb.length := by
    unfold lenAlligned
    rw [sub, same, length, if_neg (by omega), if_pos (by omega), Nat.mod_eq_of_lt (by omega),
      Nat.add_comm]
  rw [turn_encode small begins aligned le_rfl alloc vif, List.drop_length]

theorem turn_next (alloc : ∀ n, env.alloc n = true) (vif : ∀ n, env.vif n = true)
    {f : SubFrame} {ms : List SubFrame} (more : ms ≠ [])
    (fits : (f.toMsdu.encode ++ f.pad).length < 2 ^ 16)
    (same : s.skb = f.toMsdu.encode ++ (f.pad ++ encode ms)) :
    s.turn env = some ⟨s.turns + 1, encode ms, s.list ++ [f.ethernet]⟩ := by
  have follows := length_pos_encode more
  have length := length_encode f.toMsdu
  rw [List.length_append] at fits
  have small : f.payload.length < 2 ^ 16 := by omega
  have sub : sublen s.skb = f.payload.length := by rw [same, sublen_encode small]
  have aligned : lenAlligned s.skb = some (14 + f.payload.length + f.pad.length) := by
    unfold lenAlligned
    rw [sub, if_pos, roundup_length, Nat.mod_eq_of_lt (by omega)]
    rw [same, List.length_append, List.length_append]
    omega
  have within : 14 + f.payload.length + f.pad.length ≤ s.skb.length := by
    rw [same, List.length_append, List.length_append]
    omega
  have rest : s.skb.drop (14 + f.payload.length + f.pad.length) = encode ms := by
    rw [same, ← length, ← List.append_assoc, ← List.length_append, List.drop_left]
  rw [turn_encode small same aligned within alloc vif, rest]

/-- The loop takes the sub-frames off one by one, and is left when there is none. -/
theorem exec_encode (alloc : ∀ n, env.alloc n = true) (vif : ∀ n, env.vif n = true)
    (ms : List SubFrame) (fits : Fits ms) (same : s.skb = encode ms)
    {fuel : Nat} (enough : ms.length < fuel) :
    Loop.exec (Aggregate.turn env) fuel s =
      some ⟨s.turns + ms.length, [], s.list ++ ms.map fun f => f.ethernet⟩ := by
  have leaves : ∀ (s : Aggregate) (n : Nat), s.skb = [] → 0 < n →
      Loop.exec (Aggregate.turn env) n s = some s := by
    intro s n empty some
    obtain ⟨n, rfl⟩ := Nat.exists_eq_succ_of_ne_zero some.ne'
    exact Loop.exec_leave (by simp [Aggregate.turn, empty]) n
  induction ms using encode.induct generalizing s fuel with
  | case1 =>
      rw [leaves s fuel same enough, ← show s.skb = [] from same]
      simp
  | case2 f =>
      obtain ⟨n, rfl⟩ := Nat.exists_eq_succ_of_ne_zero (Nat.ne_zero_of_lt enough)
      rw [Loop.exec_next (turn_last alloc vif fits same),
        leaves _ n rfl (Nat.lt_of_succ_lt_succ enough)]
      rfl
  | case3 f ms more ih =>
      obtain ⟨n, rfl⟩ := Nat.exists_eq_succ_of_ne_zero (Nat.ne_zero_of_lt enough)
      have unfolded : encode (f :: ms) = f.toMsdu.encode ++ (f.pad ++ encode ms) := by
        rw [encode]
        exact more
      rw [unfolded] at same
      have fits : (f.toMsdu.encode ++ f.pad).length < 2 ^ 16 ∧ Fits ms := by
        rw [Fits] at fits
        · exact fits
        · exact more
      rw [Loop.exec_next (turn_next alloc vif more fits.1 same),
        ih fits.2 rfl (Nat.lt_of_succ_lt_succ enough)]
      simp [Nat.add_comm, Nat.add_left_comm]

end Decode

/-- What was aggregated comes out frame by frame, in order, and the aggregate is freed once. -/
theorem amsdu_decode_encode (ms : List SubFrame) (fits : Fits ms) (env : Env)
    (alloc : ∀ n, env.alloc n = true) (vif : ∀ n, env.vif n = true) :
    ∀ fuel, ms.length < fuel →
      rwnxRxdataProcessAmsdu env fuel (encode ms) = some ⟨ms.map fun f => f.ethernet, 1⟩ := by
  intro fuel enough
  unfold rwnxRxdataProcessAmsdu
  rw [exec_encode alloc vif ms fits rfl enough]
  simp [start]

/-- An LLC header and nothing else, and a body of one byte. -/
theorem amsdu_decode_encode_pair : ∃ ms : List SubFrame, ms.length = 2 ∧
    rwnxRxdataProcessAmsdu plenty 3 (encode ms) = some ⟨ms.map fun f => f.ethernet, 1⟩ := by
  refine ⟨[⟨⟨.replicate 6 1, .replicate 6 2, [0xAA, 0xAA, 3, 0, 0, 0, 8, 0], by decide⟩, [0, 0],
      by decide, by decide⟩,
    ⟨⟨.replicate 6 3, .replicate 6 2, [0xAA, 0xAA, 3, 0, 0, 0, 8, 6, 0xFF], by decide⟩, [0],
      by decide, by decide⟩], rfl, ?_⟩
  refine amsdu_decode_encode _ ?_ _ (fun _ => rfl) (fun _ => rfl) 3 (by decide)
  refine ⟨by decide, ?_⟩
  show List.length _ < 2 ^ 16
  decide

/-- An MSDU of 65522 bytes makes a sub-frame of 2^16. The aligned length is 0 in 16 bits, and the
    sub-frame is taken again and again. -/
theorem long_msdu_stays : ¬ ∀ (ms : List SubFrame) (env : Env), ms ≠ [] →
    (∀ n, env.alloc n = true) → (∀ n, env.vif n = true) → ∀ fuel, ms.length < fuel →
      rwnxRxdataProcessAmsdu env fuel (encode ms) = some ⟨ms.map fun f => f.ethernet, 1⟩ := by
  intro decodes
  obtain ⟨payload, length⟩ : ∃ payload : List UInt8, payload.length = 65522 :=
    ⟨List.replicate 65522 0, List.length_replicate⟩
  obtain ⟨m, payload⟩ : ∃ m : SubFrame, m.payload.length = 65522 :=
    ⟨⟨⟨.replicate 6 1, .replicate 6 2, payload, by omega⟩, [], by decide,
      by rw [length]; decide⟩, length⟩
  have stays : ∀ s : Aggregate, s.skb = m.toMsdu.encode →
      ∃ t, s.turn plenty = some t ∧ t.skb = m.toMsdu.encode := by
    intro s same
    have begins : s.skb = m.toMsdu.encode ++ [] := by rw [same, List.append_nil]
    have length : s.skb.length = 65536 := by rw [same, length_encode, payload]
    have sub : sublen s.skb = 65522 := by
      rw [begins, sublen_encode (by rw [payload]; decide), payload]
    have aligned : lenAlligned s.skb = some 0 := by
      unfold lenAlligned
      rw [sub, length]
      rfl
    have alloc : ∀ n, plenty.alloc n = true := fun _ => rfl
    have taken := turn_encode (by rw [payload]; decide) begins aligned (Nat.zero_le _) alloc
      fun _ => rfl
    exact ⟨_, taken, same⟩
  have result := decodes [m] plenty (by simp) (fun _ => rfl) (fun _ => rfl) 2 (by simp)
  obtain ⟨t, first, same⟩ := stays (start m.toMsdu.encode) rfl
  obtain ⟨u, second, -⟩ := stays t same
  have endless : Loop.exec (Aggregate.turn plenty) 2 (start m.toMsdu.encode) = none := by
    rw [Loop.exec_next first, Loop.exec_next second]
    rfl
  rw [rwnxRxdataProcessAmsdu, encode, endless] at result
  cases result

end Aic8800.Rx.Amsdu
