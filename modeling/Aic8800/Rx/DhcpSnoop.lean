import Aic8800.Lib.Loop
import Mathlib

/-! # DHCP replies that are looked at

`arpoffload_proc` looks for the acknowledgement in replies to the interface, and has the firmware
answer ARP requests for the address. It walks over the options with an offset of 16 bits, as if
each of them began with a code and a size, and `PAD` has no size.
-/

namespace Aic8800.Rx.DhcpSnoop

open Lib

abbrev Bytes := List UInt8

/-- The `sk_buff` from the IP header on, and what is in memory behind the options -/
structure Packet where
  bytes : Bytes
  behind : Nat → UInt8
  /-- `skb->protocol == htons(ETH_P_IP)` -/
  isIp : Bool

/-- What is looked at of the interface -/
structure Vif where
  devAddr : Bytes
  pairedCipherType : Nat
  groupCipherType : Nat

/-- `rwnx_send_arpoffload_en_req` -/
structure ArpOffload where
  ipaddr : Bytes
  enable : Bool
  deriving DecidableEq

def ipprotoUdp : UInt8 := 17

def serverPort : Nat := 67

def clientPort : Nat := 68

/-- `htonl(DHCP_MAGIC)` -/
def dhcpMagic : Bytes := [0x63, 0x82, 0x53, 0x63]

def dhcpAck : UInt8 := 5

def dhcpOptionMessageType : UInt8 := 53

def dhcpOptionEnd : UInt8 := 255

def wlanCipherSuiteCcmp : Nat := 0x000FAC04

def wlanCipherSuiteAesCmac : Nat := 0x000FAC06

/-- `sizeof(struct udphdr)` -/
def sizeofUdphdr : Nat := 8

/-- `offsetof(struct DHCPInfo, options)` -/
def offsetofOptions : Nat := 240

def Vif.enable (vif : Vif) : Bool :=
  vif.pairedCipherType = wlanCipherSuiteCcmp ∨ vif.pairedCipherType = wlanCipherSuiteAesCmac ∨
    (vif.groupCipherType = 0xff ∧ vif.pairedCipherType = 0xff)

/-- Two bytes as `htons` has them -/
def be16 (n : Nat) : Bytes := [.ofNat (n / 256), .ofNat n]

/-- `ntohs` -/
def ntohs (b : Bytes) : Nat := (b.getD 0 0).toNat * 256 + (b.getD 1 0).toNat

/-- A reply to the interface, whose options are walked over -/
structure Reply where
  dhcph : Nat
  length : Nat
  deriving DecidableEq

namespace Packet

variable (p : Packet)

/-- `n` bytes that are read, if they are in the packet -/
def read (i n : Nat) : Option Bytes :=
  if i + n ≤ p.bytes.length then some ((p.bytes.drop i).take n) else none

/-- `(u8 *)iphead + (iphead->ihl << 2)` -/
def udph : Nat := (p.bytes.headD 0).toNat % 16 * 4

/-- `arpoffload_proc` before its loop -/
def arpoffloadProc (vif : Vif) : Option (Option Reply) :=
  if p.isIp = false then some none
  else do
    if (← p.read 9 1) ≠ [ipprotoUdp] then return none
    if (← p.read p.udph 2) ≠ be16 serverPort then return none
    if (← p.read (p.udph + 2) 2) ≠ be16 clientPort then return none
    let dhcph := p.udph + sizeofUdphdr
    if (← p.read (dhcph + 236) 4) ≠ dhcpMagic then return none
    if (← p.read dhcph 1) ≠ [2] then return none
    if (← p.read (dhcph + 28) 6) ≠ vif.devAddr then return none
    let len := ntohs (← p.read (p.udph + 4) 2)
    return some ⟨dhcph, (len + 2 ^ 32 - sizeofUdphdr - offsetofOptions) % 2 ^ 32⟩

/-- What is in the packet from `dhcph->options` on -/
def options (r : Reply) : Bytes := p.bytes.drop (r.dhcph + offsetofOptions)

/-- `option[i]` -/
def option (r : Reply) (i : Nat) : UInt8 := (p.options r).getD i (p.behind i)

/-- `dhcph->yiaddr` -/
def yiaddr (r : Reply) : Bytes := (p.bytes.drop (r.dhcph + 16)).take 4

end Packet

/-- The state at the head of the loop -/
structure Scan where
  offset : Nat
  requests : List ArpOffload
  deriving DecidableEq

namespace Scan

variable (p : Packet) (vif : Vif) (r : Reply) (s : Scan)

/-- A turn of the loop -/
def turn : Option Scan :=
  if p.option r s.offset ≠ dhcpOptionEnd ∧ s.offset < r.length then
    some
      { offset := (s.offset + (2 + (p.option r (s.offset + 1)).toNat)) % 2 ^ 16
        requests :=
          if p.option r s.offset = dhcpOptionMessageType ∧ p.option r (s.offset + 2) = dhcpAck then
            s.requests ++ [⟨p.yiaddr r, vif.enable⟩]
          else s.requests }
  else none

/-- What is read at the head of the loop, and in the turn if there is one, is in the packet. -/
def Inside : Prop :=
  s.offset < (p.options r).length ∧
    (s.turn p vif r ≠ none → s.offset + 1 < (p.options r).length ∧
      (p.option r s.offset = dhcpOptionMessageType → s.offset + 2 < (p.options r).length))

end Scan

def start : Scan := ⟨0, []⟩

/-- The function returns, having issued these requests. -/
def Issues (p : Packet) (vif : Vif) (requests : List ArpOffload) : Prop :=
  p.arpoffloadProc vif = some none ∧ requests = [] ∨
    ∃ r s, p.arpoffloadProc vif = some (some r) ∧ Loop.Exits (Scan.turn p vif r) start s ∧
      requests = s.requests

/-- The function returns, and reads only bytes of the packet. -/
def Bounded (p : Packet) (vif : Vif) : Prop :=
  ∃ entry, p.arpoffloadProc vif = some entry ∧ ∀ r, entry = some r →
    (∃ s, Loop.Exits (Scan.turn p vif r) start s) ∧
      ∀ s, Loop.Head (Scan.turn p vif r) start s → s.Inside p vif r

/-! ## Replies -/

/-- An option, as the format has it -/
inductive Item where
  | pad
  | option (code : UInt8) (data : Bytes)
  deriving DecidableEq

namespace Item

def encode : Item → Bytes
  | pad => [0]
  | option code data => code :: .ofNat data.length :: data

/-- The code is not one of those that stand alone, and the size is a byte. -/
def Valid : Item → Prop
  | pad => True
  | option code data => code ≠ 0 ∧ code ≠ dhcpOptionEnd ∧ data.length < 2 ^ 8

end Item

/-- A reply that is well formed -/
structure Form where
  /-- The IP header, with its options -/
  ip : Bytes
  checksum : Bytes
  /-- What is between `op` and `yiaddr` -/
  transaction : Bytes
  yiaddr : Bytes
  /-- `siaddr` and `giaddr` -/
  servers : Bytes
  chaddr : Bytes
  /-- `sname` and `file` -/
  names : Bytes
  items : List Item
  messageType : UInt8
  /-- How many `PAD`s follow the end of the options -/
  pads : Nat
  /-- What follows the datagram -/
  trailer : Bytes

namespace Form

variable (f : Form)

def options : Bytes :=
  f.items.flatMap Item.encode ++ dhcpOptionEnd :: List.replicate f.pads 0

def udpLength : Nat := sizeofUdphdr + offsetofOptions + f.options.length

/-- The header of UDP and the fixed part of DHCP -/
def fixed : Bytes :=
  be16 serverPort ++ be16 clientPort ++ be16 f.udpLength ++ f.checksum ++ [2] ++ f.transaction ++
    f.yiaddr ++ f.servers ++ f.chaddr ++ f.names ++ dhcpMagic

def encode : Bytes := f.ip ++ f.fixed ++ f.options ++ f.trailer

/-- The parts have their sizes, and one option is the message type. -/
structure Valid (vif : Vif) : Prop where
  ihl : f.ip.length = (f.ip.headD 0).toNat % 16 * 4 ∧ 20 ≤ f.ip.length
  protocol : f.ip[9]? = some ipprotoUdp
  checksum : f.checksum.length = 2
  transaction : f.transaction.length = 15
  yiaddr : f.yiaddr.length = 4
  servers : f.servers.length = 8
  chaddr : f.chaddr.length = 16 ∧ f.chaddr.take 6 = vif.devAddr
  names : f.names.length = 192
  items : ∀ i ∈ f.items, i.Valid
  length : f.udpLength < 2 ^ 16
  messageType : ∀ data, .option dhcpOptionMessageType data ∈ f.items ↔ data = [f.messageType]

end Form

/-- What is promised of a reply: a request if it is an acknowledgement, with its address -/
def Answered (f : Form) (requests : List ArpOffload) : Prop :=
  (requests ≠ [] ↔ f.messageType = dhcpAck) ∧ ∀ q ∈ requests, q.ipaddr = f.yiaddr

/-- The function returns and stays in the packet, and a reply is answered. -/
def Snooped (p : Packet) (vif : Vif) : Prop :=
  Bounded p vif ∧ ∀ f : Form, f.Valid vif → p.isIp = true → p.bytes = f.encode →
    ∃ requests, Issues p vif requests ∧ Answered f requests

/-! ## What the bytes have to be -/

/-- As far as the headers are looked at, they are in the packet. -/
def HeadersInside (p : Packet) : Prop :=
  p.isIp = true → 10 ≤ p.bytes.length ∧
    (p.read 9 1 = some [ipprotoUdp] → p.udph + 2 ≤ p.bytes.length ∧
      (p.read p.udph 2 = some (be16 serverPort) → p.udph + 4 ≤ p.bytes.length ∧
        (p.read (p.udph + 2) 2 = some (be16 clientPort) →
          p.udph + sizeofUdphdr + offsetofOptions ≤ p.bytes.length)))

/-- The bytes of the headers are those of a reply to the interface. -/
def Addressed (p : Packet) (vif : Vif) : Prop :=
  p.isIp = true ∧ p.read 9 1 = some [ipprotoUdp] ∧ p.read p.udph 2 = some (be16 serverPort) ∧
    p.read (p.udph + 2) 2 = some (be16 clientPort) ∧
      p.read (p.udph + sizeofUdphdr + 236) 4 = some dhcpMagic ∧
        p.read (p.udph + sizeofUdphdr) 1 = some [2] ∧
          p.read (p.udph + sizeofUdphdr + 28) 6 = some vif.devAddr

namespace Packet

/-- Where its parts are -/
def reply (p : Packet) : Reply where
  dhcph := p.udph + sizeofUdphdr
  length := (ntohs ((p.bytes.drop (p.udph + 4)).take 2) + 2 ^ 32 - sizeofUdphdr -
    offsetofOptions) % 2 ^ 32

end Packet

/-- Where pairs of a code and a size lead to from `start`, each with as many bytes as it says -/
def place (start : Nat) (pairs : List (UInt8 × UInt8)) : Nat :=
  (start + (pairs.map fun pair => 2 + pair.2.toNat).sum) % 2 ^ 16

/-- At a place before the length there is a code with its size, other than the end. A message type
    has another byte. -/
structure Held (options : Bytes) (length i : Nat) (pair : UInt8 × UInt8) : Prop where
  short : i < length
  code : options[i]? = some pair.1
  other : pair.1 ≠ dhcpOptionEnd
  size : options[i + 1]? = some pair.2
  message : pair.1 = dhcpOptionMessageType → i + 2 < options.length

/-- At a place is the end, or a byte at or behind the length. -/
def Stops (options : Bytes) (length i : Nat) : Prop :=
  options[i]? = some dhcpOptionEnd ∨ i < options.length ∧ length ≤ i

/-- From `start` on the bytes are these pairs, one behind the other. -/
structure Pairs (options : Bytes) (length start : Nat) (pairs : List (UInt8 × UInt8)) : Prop where
  held : ∀ pre pair post, pairs = pre ++ pair :: post → Held options length (place start pre) pair
  stops : Stops options length (place start pairs)

/-- One of them is a message type, with `DHCP_ACK` two bytes on. -/
def Acked (options : Bytes) (start : Nat) (pairs : List (UInt8 × UInt8)) : Prop :=
  ∃ pre pair post, pairs = pre ++ pair :: post ∧ pair.1 = dhcpOptionMessageType ∧
    options[place start pre + 2]? = some dhcpAck

/-- The headers are in the packet, and from the options of a reply on there are pairs in it. -/
def InPacket (p : Packet) (vif : Vif) : Prop :=
  HeadersInside p ∧
    (Addressed p vif → ∃ pairs, Pairs (p.options p.reply) p.reply.length 0 pairs)

/-- `PAD`s come in pairs. The second of a pair is the size of the first. -/
inductive Paired : List Item → Prop where
  | nil : Paired []
  | option {rest : List Item} (code : UInt8) (data : Bytes) : Paired rest →
      Paired (.option code data :: rest)
  | pads {rest : List Item} : Paired rest → Paired (.pad :: .pad :: rest)

/-- What is read is in the packet, and the `PAD`s of a reply that is well formed come in pairs. -/
def Regular (p : Packet) (vif : Vif) : Prop :=
  InPacket p vif ∧ ∀ f : Form, f.Valid vif → p.isIp = true → p.bytes = f.encode → Paired f.items

/-! ## The options as they are taken -/

section Places

variable {options : Bytes} {length start : Nat} {pair : UInt8 × UInt8}
  {rest : List (UInt8 × UInt8)}

/-- The place behind a pair -/
def next (start : Nat) (pair : UInt8 × UInt8) : Nat := (start + (2 + pair.2.toNat)) % 2 ^ 16

theorem next_lt : next start pair < 2 ^ 16 := Nat.mod_lt _ (by decide)

theorem place_nil (small : start < 2 ^ 16) : place start [] = start := Nat.mod_eq_of_lt small

theorem place_cons : place start (pair :: rest) = place (next start pair) rest := by
  unfold place next
  rw [List.map_cons, List.sum_cons, Nat.mod_add_mod, Nat.add_assoc start]

theorem pairs_nil (small : start < 2 ^ 16) :
    Pairs options length start [] ↔ Stops options length start := by
  constructor
  · intro pairs
    have stops := pairs.stops
    rwa [place_nil small] at stops
  · intro stops
    refine ⟨fun pre pair post split => ?_, by rwa [place_nil small]⟩
    cases pre <;> cases split

theorem pairs_cons (small : start < 2 ^ 16) :
    Pairs options length start (pair :: rest) ↔
      Held options length start pair ∧ Pairs options length (next start pair) rest := by
  constructor
  · intro pairs
    have first := pairs.held [] pair rest rfl
    rw [place_nil small] at first
    refine ⟨first, fun pre other post split => ?_, ?_⟩
    · have held := pairs.held (pair :: pre) other post (by rw [split, List.cons_append])
      rwa [place_cons] at held
    · have stops := pairs.stops
      rwa [place_cons] at stops
  · rintro ⟨first, pairs⟩
    refine ⟨fun pre other post split => ?_, by rw [place_cons]; exact pairs.stops⟩
    cases pre with
    | nil =>
        obtain ⟨rfl, rfl⟩ := List.cons.inj split
        rwa [place_nil small]
    | cons one pre =>
        obtain ⟨rfl, behind⟩ := List.cons.inj split
        rw [place_cons]
        exact pairs.held pre other post behind

theorem not_acked_nil : ¬Acked options start [] := by
  rintro ⟨pre, pair, post, split, -⟩
  cases pre <;> cases split

theorem acked_cons (small : start < 2 ^ 16) :
    Acked options start (pair :: rest) ↔
      pair.1 = dhcpOptionMessageType ∧ options[start + 2]? = some dhcpAck ∨
        Acked options (next start pair) rest := by
  constructor
  · rintro ⟨pre, other, post, split, message, ack⟩
    cases pre with
    | nil =>
        obtain ⟨rfl, rfl⟩ := List.cons.inj split
        rw [place_nil small] at ack
        exact .inl ⟨message, ack⟩
    | cons one pre =>
        obtain ⟨rfl, behind⟩ := List.cons.inj split
        rw [place_cons] at ack
        exact .inr ⟨pre, other, post, behind, message, ack⟩
  · rintro (⟨message, ack⟩ | ⟨pre, other, post, rfl, message, ack⟩)
    · exact ⟨[], pair, rest, rfl, message, by rwa [place_nil small]⟩
    · exact ⟨pair :: pre, other, post, rfl, message, by rwa [place_cons]⟩

end Places

section Walks

variable {p : Packet} {vif : Vif} {r : Reply} {s t : Scan} {i : Nat} {b : UInt8}
  {pair : UInt8 × UInt8} {list : List (UInt8 × UInt8)}

theorem option_eq (there : (p.options r)[i]? = some b) : p.option r i = b := by
  unfold Packet.option
  rw [List.getD_eq_getElem?_getD, there]
  rfl

theorem option_get (inside : i < (p.options r).length) :
    (p.options r)[i]? = some (p.option r i) := by
  unfold Packet.option
  rw [List.getElem?_eq_getElem inside, List.getD_eq_getElem _ _ inside]

/-- What is issued in a turn -/
def issued (p : Packet) (vif : Vif) (r : Reply) (i : Nat) : List ArpOffload :=
  if p.option r i = dhcpOptionMessageType ∧ p.option r (i + 2) = dhcpAck then
    [⟨p.yiaddr r, vif.enable⟩]
  else []

theorem issued_ne_nil (held : Held (p.options r) r.length i pair) :
    issued p vif r i ≠ [] ↔
      pair.1 = dhcpOptionMessageType ∧ (p.options r)[i + 2]? = some dhcpAck := by
  have same : (p.option r i = dhcpOptionMessageType ∧ p.option r (i + 2) = dhcpAck) ↔
      pair.1 = dhcpOptionMessageType ∧ (p.options r)[i + 2]? = some dhcpAck := by
    rw [option_eq held.code]
    refine and_congr_right fun type => ?_
    rw [option_get (held.message type), Option.some.injEq]
  unfold issued
  rw [← same]
  split
  · rename_i ack
    exact iff_of_true (List.cons_ne_nil _ _) ack
  · rename_i other
    exact iff_of_false (fun no => no rfl) other

theorem ipaddr_of_issued {q : ArpOffload} (member : q ∈ issued p vif r i) :
    q.ipaddr = p.yiaddr r := by
  unfold issued at member
  split at member
  · rw [List.mem_singleton.mp member]
  · cases member

theorem turn_held (held : Held (p.options r) r.length s.offset pair) :
    s.turn p vif r = some ⟨next s.offset pair, s.requests ++ issued p vif r s.offset⟩ := by
  unfold Scan.turn issued
  rw [if_pos ⟨by rw [option_eq held.code]; exact held.other, held.short⟩, option_eq held.size]
  split
  · rfl
  · rw [List.append_nil]
    rfl

theorem inside_of_held (held : Held (p.options r) r.length s.offset pair) :
    s.Inside p vif r := by
  refine ⟨(List.getElem?_eq_some_iff.mp held.code).1, fun _ =>
    ⟨(List.getElem?_eq_some_iff.mp held.size).1, fun type => held.message ?_⟩⟩
  rw [← type, option_eq held.code]

theorem turn_stops (stops : Stops (p.options r) r.length s.offset) :
    s.turn p vif r = none ∧ s.Inside p vif r := by
  have left : s.turn p vif r = none := by
    refine if_neg fun more => ?_
    rcases stops with there | ⟨-, behind⟩
    · exact more.1 (option_eq there)
    · exact absurd more.2 (Nat.not_lt.mpr behind)
  refine ⟨left, ?_, fun more => absurd left more⟩
  rcases stops with there | ⟨inside, -⟩
  · exact (List.getElem?_eq_some_iff.mp there).1
  · exact inside

/-- The loop comes by pairs that are in the packet, and by nothing else. -/
theorem Pairs.safe (pairs : Pairs (p.options r) r.length s.offset list)
    (small : s.offset < 2 ^ 16) :
    Loop.Safe (Scan.turn p vif r) (Scan.Inside p vif r) s ∧
      ∃ t, Loop.Exits (Scan.turn p vif r) s t ∧
        (t.requests ≠ [] ↔ s.requests ≠ [] ∨ Acked (p.options r) s.offset list) ∧
          ∀ q ∈ t.requests, q ∈ s.requests ∨ q.ipaddr = p.yiaddr r := by
  induction list generalizing s with
  | nil =>
      obtain ⟨left, inside⟩ := @turn_stops p vif r s ((pairs_nil small).mp pairs)
      refine ⟨.leave inside left, s, .leave left, ?_, fun q member => .inl member⟩
      rw [or_iff_left not_acked_nil]
  | cons pair rest ih =>
      obtain ⟨held, pairs⟩ := (pairs_cons small).mp pairs
      have turned := @turn_held p vif r s pair held
      obtain ⟨safe, t, exits, acked, addresses⟩ :=
        @ih ⟨_, s.requests ++ issued p vif r s.offset⟩ pairs next_lt
      refine ⟨.next (inside_of_held held) turned safe, t, .next turned exits, ?_, ?_⟩
      · rw [acked, acked_cons small, ← @issued_ne_nil p vif r s.offset pair held, ← or_assoc]
        refine or_congr_left ?_
        rw [ne_eq, List.append_eq_nil_iff, not_and_or]
      · intro q member
        rcases addresses q member with before | ipaddr
        · rw [List.mem_append] at before
          exact before.imp id ipaddr_of_issued
        · exact .inr ipaddr

/-- A loop that stays in the packet comes by pairs. -/
theorem pairs_of_safe (safe : Loop.Safe (Scan.turn p vif r) (Scan.Inside p vif r) s)
    (small : s.offset < 2 ^ 16) : ∃ list, Pairs (p.options r) r.length s.offset list := by
  induction safe with
  | @leave s inside left =>
      have there := option_get inside.1
      refine ⟨[], (pairs_nil small).mpr ?_⟩
      unfold Scan.turn at left
      split at left
      · cases left
      · rename_i ends
        by_cases last : p.option r s.offset = dhcpOptionEnd
        · exact .inl (by rw [there, last])
        · exact .inr ⟨inside.1, Nat.le_of_not_lt fun short => ends ⟨last, short⟩⟩
  | @next s t inside turned _ ih =>
      have more := inside.2 (by rw [turned]; exact Option.some_ne_none t)
      unfold Scan.turn at turned
      split at turned
      · rename_i goes
        obtain rfl := Option.some.inj turned
        obtain ⟨list, pairs⟩ := ih (Nat.mod_lt _ (by decide))
        refine ⟨(p.option r s.offset, p.option r (s.offset + 1)) :: list,
          (pairs_cons small).mpr ⟨?_, pairs⟩⟩
        exact ⟨goes.2, option_get inside.1, goes.1, option_get more.1, more.2⟩
      · cases turned

end Walks

section Headers

variable {p : Packet} {vif : Vif} {i n : Nat}

theorem read_isSome : (p.read i n).isSome ↔ i + n ≤ p.bytes.length := by
  unfold Packet.read
  split <;> simp_all

theorem read_eq (pre field post : Bytes) (whole : p.bytes = pre ++ (field ++ post))
    (place : pre.length = i) (size : field.length = n) : p.read i n = some field := by
  unfold Packet.read
  rw [whole, if_pos, List.drop_left' place, List.take_left' size]
  simp only [List.length_append]
  omega

/-- What is read is there, and if it is what is looked for then the rest is too. -/
theorem isSome_expect {x : Option Bytes} {want : Bytes} {rest : Option (Option Reply)} :
    (x.bind fun got => if got ≠ want then some none else rest).isSome ↔
      x.isSome ∧ (x = some want → rest.isSome) := by
  cases x with
  | none => simp
  | some got =>
      rw [Option.bind_some]
      split
      · rename_i other
        simp [other]
      · rename_i same
        simp [not_not.mp same]

theorem headersInside_iff : (p.arpoffloadProc vif).isSome ↔ HeadersInside p := by
  unfold Packet.arpoffloadProc HeadersInside
  split
  · rename_i other
    simp [other]
  · rename_i ip
    simp only [Option.bind_eq_bind, Option.pure_def, isSome_expect, read_isSome]
    rw [Bool.not_eq_false] at ip
    rw [forall_prop_of_true ip]
    refine and_congr Iff.rfl (imp_congr_right fun _ => and_congr Iff.rfl
      (imp_congr_right fun _ => and_congr Iff.rfl (imp_congr_right fun _ => ?_)))
    unfold sizeofUdphdr offsetofOptions
    constructor
    · intro more
      exact more.1
    · intro fits
      refine ⟨fits, fun _ => ⟨by omega, fun _ => ⟨by omega, fun _ => ?_⟩⟩⟩
      obtain ⟨len, there⟩ := Option.isSome_iff_exists.mp
        (read_isSome (p := p) (i := p.udph + 4) (n := 2) |>.mpr (by omega))
      rw [there]
      rfl

theorem eq_of_expect {x : Option Bytes} {want : Bytes} {rest : Option (Option Reply)}
    {r : Reply} : (x.bind fun got => if got ≠ want then some none else rest) = some (some r) ↔
      x = some want ∧ rest = some (some r) := by
  cases x with
  | none => simp
  | some got =>
      rw [Option.bind_some]
      split
      · rename_i other
        simp [other]
      · rename_i same
        simp [not_not.mp same]

/-- The options are walked over of what the headers tell to be a reply to the interface. -/
theorem arpoffloadProc_iff {r : Reply} : p.arpoffloadProc vif = some (some r) ↔
    HeadersInside p ∧ Addressed p vif ∧ r = p.reply := by
  constructor
  · intro found
    refine ⟨headersInside_iff.mp (by rw [found]; rfl), ?_⟩
    unfold Packet.arpoffloadProc at found
    split at found
    · cases found
    · rename_i ip
      simp only [Option.bind_eq_bind, Option.pure_def, eq_of_expect] at found
      obtain ⟨udp, source, dest, cookie, op, chaddr, rest⟩ := found
      refine ⟨⟨by simpa using ip, udp, source, dest, cookie, op, chaddr⟩, ?_⟩
      obtain ⟨len, there, same⟩ := Option.bind_eq_some_iff.mp rest
      unfold Packet.read at there
      split at there
      · obtain rfl := Option.some.inj there
        exact (Option.some.inj (Option.some.inj same)).symm
      · cases there
  · rintro ⟨inside, ⟨ip, udp, source, dest, cookie, op, chaddr⟩, rfl⟩
    have fits := ((inside ip).2 udp).2 source |>.2 dest
    have len : p.read (p.udph + 4) 2 = some ((p.bytes.drop (p.udph + 4)).take 2) :=
      if_pos (by unfold sizeofUdphdr offsetofOptions at fits; omega)
    unfold Packet.arpoffloadProc
    rw [if_neg (by rw [ip]; decide)]
    simp only [Option.bind_eq_bind, Option.bind_some, udp, source, dest, cookie, op, chaddr, len,
      ne_eq, not_true_eq_false, if_false]
    rfl

end Headers

/-! ## A reply that is well formed -/

section Forms

variable {p : Packet} {vif : Vif} {f : Form}

theorem be16_length (n : Nat) : (be16 n).length = 2 := rfl

theorem ntohs_be16 {n : Nat} (short : n < 2 ^ 16) : ntohs (be16 n) = n := by
  simp only [ntohs, be16, List.getD_cons_zero, List.getD_cons_succ, UInt8.toNat_ofNat']
  omega

namespace Form

/-- The reply, as it is come by -/
def reply (f : Form) : Reply := ⟨f.ip.length + sizeofUdphdr, f.options.length⟩

theorem fixed_length (valid : f.Valid vif) :
    f.fixed.length = sizeofUdphdr + offsetofOptions := by
  simp only [fixed, List.length_append, be16_length, valid.checksum, valid.transaction,
    valid.yiaddr, valid.servers, valid.chaddr.1, valid.names]
  rfl

theorem udph_eq (valid : f.Valid vif) (whole : p.bytes = f.encode) : p.udph = f.ip.length := by
  obtain ⟨ihl, some'⟩ := valid.ihl
  have first : p.bytes.headD 0 = f.ip.headD 0 := by
    rw [whole, encode]
    cases ip : f.ip with
    | nil => rw [ip] at some'; simp at some'
    | cons b rest => rfl
  unfold Packet.udph
  rw [first, ← ihl]

theorem read_fixed {i n : Nat} (whole : p.bytes = f.encode) (a field b : Bytes)
    (parts : f.fixed = a ++ (field ++ b)) (place : f.ip.length + a.length = i)
    (size : field.length = n) : p.read i n = some field := by
  refine read_eq (f.ip ++ a) field (b ++ f.options ++ f.trailer) ?_ ?_ size
  · rw [whole, encode, parts]
    simp only [List.append_assoc]
  · rw [List.length_append, place]

/-- What follows `yiaddr` -/
def tail (f : Form) : Bytes := f.servers ++ (f.chaddr ++ (f.names ++ dhcpMagic))

/-- What follows the length -/
def body (f : Form) : Bytes := f.checksum ++ ([2] ++ (f.transaction ++ (f.yiaddr ++ f.tail)))

theorem read_protocol (valid : f.Valid vif) (whole : p.bytes = f.encode) :
    p.read 9 1 = some [ipprotoUdp] := by
  obtain ⟨inside, same⟩ := List.getElem?_eq_some_iff.mp valid.protocol
  have parts : f.ip = f.ip.take 9 ++ ([ipprotoUdp] ++ f.ip.drop 10) := by
    rw [← same, List.singleton_append, ← List.drop_eq_getElem_cons inside, List.take_append_drop]
  refine read_eq (f.ip.take 9) _ (f.ip.drop 10 ++ f.fixed ++ f.options ++ f.trailer) ?_ ?_ rfl
  · rw [whole, encode]
    conv_lhs => rw [parts]
    simp only [List.append_assoc]
  · rw [List.length_take]
    omega

theorem arpoffloadProc_eq (valid : f.Valid vif) (ip : p.isIp = true) (whole : p.bytes = f.encode) :
    p.arpoffloadProc vif = some (some f.reply) := by
  have fields {i n : Nat} := read_fixed (i := i) (n := n) whole
  unfold fixed at fields
  have source : p.read f.ip.length 2 = some (be16 serverPort) :=
    fields [] _ (be16 clientPort ++ (be16 f.udpLength ++ f.body))
      (by simp only [body, tail, List.append_assoc, List.nil_append]) rfl rfl
  have dest : p.read (f.ip.length + 2) 2 = some (be16 clientPort) :=
    fields (be16 serverPort) _ (be16 f.udpLength ++ f.body)
      (by simp only [body, tail, List.append_assoc]) rfl rfl
  have len : p.read (f.ip.length + 4) 2 = some (be16 f.udpLength) :=
    fields (be16 serverPort ++ be16 clientPort) _ f.body
      (by simp only [body, tail, List.append_assoc]) rfl rfl
  have op : p.read (f.ip.length + sizeofUdphdr) 1 = some [2] :=
    fields (be16 serverPort ++ be16 clientPort ++ be16 f.udpLength ++ f.checksum) _
      (f.transaction ++ (f.yiaddr ++ f.tail)) (by simp only [tail, List.append_assoc])
      (by simp only [List.length_append, be16_length, valid.checksum]; rfl) rfl
  have chaddr : p.read (f.ip.length + sizeofUdphdr + 28) 6 = some vif.devAddr := by
    have six := valid.chaddr.1
    rw [← valid.chaddr.2]
    refine fields (be16 serverPort ++ be16 clientPort ++ be16 f.udpLength ++ f.checksum ++ [2] ++
      f.transaction ++ f.yiaddr ++ f.servers) _ (f.chaddr.drop 6 ++ f.names ++ dhcpMagic)
      ?_ ?_ ?_
    · conv_lhs => rw [← List.take_append_drop 6 f.chaddr]
      simp only [List.append_assoc]
    · simp only [List.length_append, be16_length, valid.checksum, valid.transaction, valid.yiaddr,
        valid.servers]
      rfl
    · rw [List.length_take]
      omega
  have cookie : p.read (f.ip.length + sizeofUdphdr + 236) 4 = some dhcpMagic := by
    refine fields (be16 serverPort ++ be16 clientPort ++ be16 f.udpLength ++ f.checksum ++ [2] ++
      f.transaction ++ f.yiaddr ++ f.servers ++ f.chaddr ++ f.names) _ []
      (by rw [List.append_nil]) ?_ rfl
    simp only [List.length_append, be16_length, valid.checksum, valid.transaction, valid.yiaddr,
      valid.servers, valid.chaddr.1, valid.names]
    rfl
  have length : (f.udpLength + 2 ^ 32 - sizeofUdphdr - offsetofOptions) % 2 ^ 32 =
      f.options.length := by
    have short := valid.length
    unfold udpLength sizeofUdphdr offsetofOptions at short ⊢
    omega
  unfold Packet.arpoffloadProc
  rw [if_neg (by rw [ip]; decide), udph_eq valid whole]
  simp only [Option.bind_eq_bind, Option.bind_some, read_protocol valid whole, source, dest, len, op,
    chaddr, cookie, ne_eq, not_true_eq_false, if_false, ntohs_be16 valid.length, length]
  rfl

/-- What is found of it -/
theorem found (valid : f.Valid vif) (whole : p.bytes = f.encode) :
    p.options f.reply = f.options ++ f.trailer ∧ p.yiaddr f.reply = f.yiaddr := by
  have fixed' := fixed_length valid
  constructor
  · unfold Packet.options reply
    rw [whole, encode, List.append_assoc]
    refine List.drop_left' ?_
    rw [List.length_append, fixed', Nat.add_assoc]
  · have fields := read_fixed (i := f.reply.dhcph + 16) (n := 4) whole
    unfold fixed at fields
    have there := fields (be16 serverPort ++ be16 clientPort ++ be16 f.udpLength ++ f.checksum ++
      [2] ++ f.transaction) f.yiaddr f.tail (by simp only [tail, List.append_assoc])
      (by
        simp only [List.length_append, be16_length, valid.checksum, valid.transaction]
        rfl) valid.yiaddr
    unfold Packet.read at there
    split at there
    · exact Option.some.inj there
    · cases there

end Form

theorem bounded_iff : Bounded p vif ↔ InPacket p vif := by
  unfold Bounded InPacket
  constructor
  · rintro ⟨entry, found, bounded⟩
    have inside : HeadersInside p := headersInside_iff.mp (by rw [found]; rfl)
    refine ⟨inside, fun addressed => ?_⟩
    have same := arpoffloadProc_iff.mpr ⟨inside, addressed, rfl⟩
    obtain rfl := Option.some.inj (found.symm.trans same)
    exact pairs_of_safe (Loop.safe_iff.mpr (bounded p.reply rfl)) (by decide)
  · rintro ⟨inside, walks⟩
    obtain ⟨entry, found⟩ := Option.isSome_iff_exists.mp ((@headersInside_iff p vif).mpr inside)
    refine ⟨entry, found, ?_⟩
    rintro r rfl
    obtain ⟨-, addressed, rfl⟩ := arpoffloadProc_iff.mp found
    obtain ⟨list, pairs⟩ := walks addressed
    exact Loop.safe_iff.mp (@Pairs.safe p vif p.reply start list pairs (by decide)).1

/-- A reply that is well formed is answered if a message type with `DHCP_ACK` stands at a place
    exactly if it is an acknowledgement. -/
theorem answered_iff {list : List (UInt8 × UInt8)} (valid : f.Valid vif) (ip : p.isIp = true)
    (whole : p.bytes = f.encode) (pairs : Pairs (p.options p.reply) p.reply.length 0 list) :
    (∃ requests, Issues p vif requests ∧ Answered f requests) ↔
      (Acked (p.options p.reply) 0 list ↔ f.messageType = dhcpAck) := by
  have found := Form.arpoffloadProc_eq valid ip whole
  obtain ⟨-, -, same⟩ := arpoffloadProc_iff.mp found
  have address := (Form.found valid whole).2
  rw [same] at found address
  obtain ⟨-, t, exits, acked, addresses⟩ := @Pairs.safe p vif p.reply start list pairs (by decide)
  have acked : t.requests ≠ [] ↔ Acked (p.options p.reply) 0 list :=
    acked.trans (or_iff_right fun no => no rfl)
  rw [← acked]
  constructor
  · rintro ⟨requests, ⟨other, -⟩ | ⟨r, u, found', exits', rfl⟩, answered, -⟩
    · cases other.symm.trans found
    · obtain rfl := Option.some.inj (Option.some.inj (found.symm.trans found'))
      rwa [exits'.unique exits] at answered
  · intro answered
    refine ⟨t.requests, .inr ⟨p.reply, t, found, exits, rfl⟩, answered, fun q member => ?_⟩
    rcases addresses q member with none | ipaddr
    · cases none
    · rw [ipaddr, address]

/-- The options of a reply with its `PAD`s in pairs are taken as they are meant. -/
theorem pairs_of_paired {items : List Item} {options post : Bytes} {length : Nat} {type : UInt8}
    (paired : Paired items) (pre : Bytes)
    (whole : options = pre ++ (items.flatMap Item.encode ++ dhcpOptionEnd :: post))
    (valid : ∀ i ∈ items, i.Valid)
    (one : ∀ data, .option dhcpOptionMessageType data ∈ items → data = [type])
    (inside : pre.length + (items.flatMap Item.encode).length < length) (short : length < 2 ^ 16) :
    ∃ list, Pairs options length pre.length list ∧ (Acked options pre.length list ↔
      (∃ data, .option dhcpOptionMessageType data ∈ items) ∧ type = dhcpAck) := by
  have small : pre.length < 2 ^ 16 := by omega
  induction paired generalizing pre with
  | nil =>
      refine ⟨[], (pairs_nil small).mpr (.inl ?_), iff_of_false not_acked_nil ?_⟩
      · rw [whole, List.getElem?_append_right (Nat.le_refl _), Nat.sub_self]
        rfl
      · rintro ⟨⟨data, member⟩, -⟩
        cases member
  | @option rest code data paired ih =>
      obtain ⟨lone, other, few⟩ := valid _ List.mem_cons_self
      have behind : options = (pre ++ Item.encode (.option code data)) ++
          (rest.flatMap Item.encode ++ dhcpOptionEnd :: post) := by
        rw [whole, List.flatMap_cons]
        simp only [List.append_assoc]
      have size : (Item.encode (.option code data)).length = 2 + data.length := by
        unfold Item.encode
        rw [List.length_cons, List.length_cons]
        omega
      rw [List.flatMap_cons, List.length_append, size] at inside
      obtain ⟨list, pairs, acked⟩ := ih (pre ++ Item.encode (.option code data)) behind
        (fun i member => valid i (List.mem_cons_of_mem _ member))
        (fun data member => one data (List.mem_cons_of_mem _ member))
        (by rw [List.length_append, size]; omega) (by rw [List.length_append, size]; omega)
      have at' (k : Nat) : options[pre.length + k]? = (code :: .ofNat data.length ::
          (data ++ (rest.flatMap Item.encode ++ dhcpOptionEnd :: post)))[k]? := by
        rw [behind, List.append_assoc, List.getElem?_append_right (Nat.le_add_right _ _),
          Nat.add_sub_cancel_left]
        rfl
      have next : next pre.length (code, .ofNat data.length) =
          (pre ++ Item.encode (.option code data)).length := by
        unfold next
        rw [List.length_append, size, UInt8.toNat_ofNat']
        omega
      have message : code = dhcpOptionMessageType → options[pre.length + 2]? = some type := by
        rintro rfl
        rw [at', one data List.mem_cons_self]
        rfl
      refine ⟨(code, .ofNat data.length) :: list,
        (pairs_cons small).mpr ⟨⟨by omega, at' 0, other, at' 1, fun same => ?_⟩, next ▸ pairs⟩, ?_⟩
      · exact (List.getElem?_eq_some_iff.mp (message same)).1
      · simp only [List.mem_cons, Item.option.injEq]
        rw [acked_cons small, next, acked]
        constructor
        · rintro (⟨same, first⟩ | ⟨⟨data', member⟩, ack⟩)
          · exact ⟨⟨data, .inl ⟨same.symm, rfl⟩⟩,
              Option.some.inj ((message same).symm.trans first)⟩
          · exact ⟨⟨data', .inr member⟩, ack⟩
        · rintro ⟨⟨data', ⟨same, -⟩ | member⟩, ack⟩
          · exact .inl ⟨same.symm, by rw [message same.symm, ack]⟩
          · exact .inr ⟨⟨data', member⟩, ack⟩
  | @pads rest paired ih =>
      have behind : options = (pre ++ [0, 0]) ++
          (rest.flatMap Item.encode ++ dhcpOptionEnd :: post) := by
        rw [whole, List.flatMap_cons, List.flatMap_cons]
        simp only [Item.encode, List.append_assoc, List.cons_append, List.nil_append]
      rw [List.flatMap_cons, List.flatMap_cons, List.length_append, List.length_append] at inside
      have sizes : (Item.encode .pad).length = 1 := rfl
      have two : (pre ++ [0, 0]).length = pre.length + 2 := List.length_append
      rw [sizes] at inside
      obtain ⟨list, pairs, acked⟩ := ih (pre ++ [0, 0]) behind
        (fun i member => valid i (List.mem_cons_of_mem _ (List.mem_cons_of_mem _ member)))
        (fun data member => one data (List.mem_cons_of_mem _ (List.mem_cons_of_mem _ member)))
        (by rw [two]; omega) (by rw [two]; omega)
      have at' (k : Nat) : options[pre.length + k]? =
          (0 :: 0 :: (rest.flatMap Item.encode ++ dhcpOptionEnd :: post))[k]? := by
        rw [behind, List.append_assoc, List.getElem?_append_right (Nat.le_add_right _ _),
          Nat.add_sub_cancel_left]
        rfl
      have next : next pre.length (0, 0) = (pre ++ [0, 0]).length := by
        rw [two]
        exact Nat.mod_eq_of_lt (show pre.length + 2 < 2 ^ 16 by omega)
      have lone : (0 : UInt8) ≠ dhcpOptionMessageType := by decide
      refine ⟨(0, 0) :: list, (pairs_cons small).mpr
        ⟨⟨by omega, at' 0, by decide, at' 1, fun same => absurd same lone⟩, next ▸ pairs⟩, ?_⟩
      simp only [List.mem_cons, reduceCtorEq, false_or]
      rw [acked_cons small, or_iff_right fun both => lone both.1, next, acked]

/-- The bytes of options tell what they are, up to their end. -/
theorem items_eq {items items' : List Item} {post post' : Bytes} (valid : ∀ i ∈ items, i.Valid)
    (valid' : ∀ i ∈ items', i.Valid)
    (same : items.flatMap Item.encode ++ dhcpOptionEnd :: post =
      items'.flatMap Item.encode ++ dhcpOptionEnd :: post') : items = items' := by
  induction items generalizing items' with
  | nil =>
      cases items' with
      | nil => rfl
      | cons other rest =>
          cases other with
          | pad => cases (List.cons.inj same).1
          | option code data =>
              exact absurd (List.cons.inj same).1.symm (valid' _ List.mem_cons_self).2.1
  | cons item rest ih =>
      cases items' with
      | nil =>
          cases item with
          | pad => cases (List.cons.inj same).1
          | option code data =>
              exact absurd (List.cons.inj same).1 (valid _ List.mem_cons_self).2.1
      | cons other rest' =>
          have tails (behind : rest.flatMap Item.encode ++ dhcpOptionEnd :: post =
              rest'.flatMap Item.encode ++ dhcpOptionEnd :: post') : rest = rest' :=
            ih (fun i member => valid i (List.mem_cons_of_mem _ member))
              (fun i member => valid' i (List.mem_cons_of_mem _ member)) behind
          rw [List.flatMap_cons, List.flatMap_cons, List.append_assoc, List.append_assoc] at same
          cases item with
          | pad =>
              cases other with
              | pad => rw [tails (List.cons.inj same).2]
              | option code data =>
                  exact absurd (List.cons.inj same).1.symm (valid' _ List.mem_cons_self).1
          | option code data =>
              obtain ⟨lone, -, few⟩ := valid _ List.mem_cons_self
              cases other with
              | pad => exact absurd (List.cons.inj same).1 lone
              | option code' data' =>
                  obtain ⟨rfl, behind⟩ := List.cons.inj same
                  obtain ⟨size, behind⟩ := List.cons.inj behind
                  have few' := (valid' _ List.mem_cons_self).2.2
                  have sizes : data.length = data'.length := by
                    have size := congrArg UInt8.toNat size
                    rw [UInt8.toNat_ofNat', UInt8.toNat_ofNat'] at size
                    omega
                  obtain ⟨rfl, after⟩ := List.append_inj behind sizes
                  rw [tails after]

section Replies

variable (valid : f.Valid vif) (ip : p.isIp = true) (whole : p.bytes = f.encode)
include valid ip whole

/-- In a reply with its `PAD`s in pairs there are pairs, and an acknowledgement if it is one. -/
theorem paired_pairs (paired : Paired f.items) :
    HeadersInside p ∧ ∃ list, Pairs (p.options p.reply) p.reply.length 0 list ∧
      (Acked (p.options p.reply) 0 list ↔ f.messageType = dhcpAck) := by
  obtain ⟨inside, -, same⟩ := arpoffloadProc_iff.mp (Form.arpoffloadProc_eq valid ip whole)
  refine ⟨inside, ?_⟩
  rw [← same]
  have length : f.reply.length = (f.items.flatMap Item.encode).length + (1 + f.pads) := by
    unfold Form.reply Form.options
    rw [List.length_append, List.length_cons, List.length_replicate, Nat.add_comm 1]
  have short := valid.length
  have options : p.options f.reply = [] ++ (f.items.flatMap Item.encode ++
      dhcpOptionEnd :: (List.replicate f.pads 0 ++ f.trailer)) := by
    rw [(Form.found valid whole).1, Form.options, List.nil_append, List.append_assoc]
    rfl
  have bounded : f.reply.length < 2 ^ 16 := Nat.lt_of_le_of_lt (Nat.le_add_left _ _) short
  obtain ⟨list, pairs, acked⟩ := pairs_of_paired paired [] options valid.items
    (fun data member => (valid.messageType data).mp member)
    (show _ < f.reply.length by rw [List.length_nil, length]; omega) bounded
  refine ⟨list, pairs, acked.trans (and_iff_right ?_)⟩
  exact ⟨[f.messageType], (valid.messageType _).mpr rfl⟩

theorem paired_regular (paired : Paired f.items) : Regular p vif := by
  obtain ⟨inside, list, pairs, -⟩ := paired_pairs valid ip whole paired
  refine ⟨⟨inside, fun _ => ⟨list, pairs⟩⟩, fun g valid' _ whole' => ?_⟩
  have same : g.reply = f.reply := Option.some.inj (Option.some.inj
    ((Form.arpoffloadProc_eq valid' ip whole').symm.trans (Form.arpoffloadProc_eq valid ip whole)))
  have bytes := (Form.found valid' whole').1.symm.trans
    ((congrArg p.options same).trans (Form.found valid whole).1)
  unfold Form.options at bytes
  rw [List.append_assoc, List.append_assoc] at bytes
  rwa [items_eq valid'.items valid.items bytes]

end Replies

theorem dhcp_snooped_when (p : Packet) (vif : Vif) :
    (Regular p vif → Snooped p vif) ∧ (Bounded p vif ↔ InPacket p vif) ∧
      (Snooped p vif ↔ InPacket p vif ∧
        ∀ f : Form, f.Valid vif → p.isIp = true → p.bytes = f.encode →
          ∃ list, Pairs (p.options p.reply) p.reply.length 0 list ∧
            (Acked (p.options p.reply) 0 list ↔ f.messageType = dhcpAck)) := by
  have exact : Snooped p vif ↔ InPacket p vif ∧
      ∀ f : Form, f.Valid vif → p.isIp = true → p.bytes = f.encode →
        ∃ list, Pairs (p.options p.reply) p.reply.length 0 list ∧
          (Acked (p.options p.reply) 0 list ↔ f.messageType = dhcpAck) := by
    unfold Snooped
    rw [bounded_iff]
    refine and_congr_right fun inPacket => forall_congr' fun f => forall_congr' fun valid =>
      forall_congr' fun ip => forall_congr' fun whole => ?_
    obtain ⟨-, addressed, -⟩ := arpoffloadProc_iff.mp (Form.arpoffloadProc_eq valid ip whole)
    constructor
    · intro answers
      obtain ⟨list, pairs⟩ := inPacket.2 addressed
      exact ⟨list, pairs, (answered_iff valid ip whole pairs).mp answers⟩
    · rintro ⟨list, pairs, acked⟩
      exact (answered_iff valid ip whole pairs).mpr acked
  refine ⟨fun regular => exact.mpr ⟨regular.1, fun f valid ip whole => ?_⟩, bounded_iff, exact⟩
  exact (paired_pairs valid ip whole (regular.2 f valid ip whole)).2

end Forms

/-! ## A `PAD` before the message type -/

def station : Vif := ⟨[2, 0, 0, 0, 0, 1], wlanCipherSuiteCcmp, wlanCipherSuiteCcmp⟩

/-- An acknowledgement with a `PAD` before its message type, in a frame that is filled up -/
def paddedAck : Form where
  ip := [0x45, 0, 0, 0, 0, 0, 0, 0, 64, 17, 0, 0, 192, 168, 1, 1, 192, 168, 1, 9]
  checksum := [0, 0]
  transaction := List.replicate 15 0
  yiaddr := [192, 168, 1, 9]
  servers := List.replicate 8 0
  chaddr := station.devAddr ++ List.replicate 10 0
  names := List.replicate 192 0
  items := [.pad, .option dhcpOptionMessageType [dhcpAck]]
  messageType := dhcpAck
  pads := 55
  trailer := [0, 0]

theorem paddedAck_valid : paddedAck.Valid station where
  ihl := by decide
  protocol := rfl
  checksum := rfl
  transaction := List.length_replicate
  yiaddr := rfl
  servers := rfl
  chaddr := ⟨rfl, rfl⟩
  names := List.length_replicate
  items := by
    intro i member
    simp only [paddedAck, List.mem_cons, List.not_mem_nil, or_false] at member
    rcases member with rfl | rfl
    · trivial
    · exact ⟨by decide, by decide, by decide⟩
  length := by decide
  messageType data := by simp [paddedAck]

/-- The same with two of them -/
def pairedAck : Form :=
  { paddedAck with
    items := [.pad, .pad, .option dhcpOptionMessageType [dhcpAck]]
    pads := 54 }

theorem pairedAck_valid : pairedAck.Valid station :=
  { paddedAck_valid with
    items := by
      intro i member
      simp only [pairedAck, List.mem_cons, List.not_mem_nil, or_false] at member
      rcases member with rfl | rfl | rfl
      · trivial
      · trivial
      · exact ⟨by decide, by decide, by decide⟩
    length := by decide
    messageType := fun data => by simp [pairedAck, paddedAck] }

theorem paired_ack_snooped : Snooped ⟨pairedAck.encode, fun _ => 0, true⟩ station :=
  (dhcp_snooped_when _ station).1
    (paired_regular pairedAck_valid rfl rfl (.pads (.option _ _ .nil)))

/-- The `PAD` is taken with the code of the message type as its size, and then there are `PAD`s
    only. -/
theorem paddedAck_pairs :
    Pairs (paddedAck.options ++ paddedAck.trailer) 60 0 [(0, 53), (0, 0), (0, 0), (0, 0)] ∧
      ¬Acked (paddedAck.options ++ paddedAck.trailer) 0 [(0, 53), (0, 0), (0, 0), (0, 0)] := by
  have other : (0 : UInt8) ≠ dhcpOptionMessageType := by decide
  have held (i : Nat) (size : UInt8) (short : i < 60)
      (code : (paddedAck.options ++ paddedAck.trailer)[i]? = some 0)
      (there : (paddedAck.options ++ paddedAck.trailer)[i + 1]? = some size) :
      Held (paddedAck.options ++ paddedAck.trailer) 60 i (0, size) :=
    ⟨short, code, fun same => absurd same (by decide : (0 : UInt8) ≠ dhcpOptionEnd), there,
      fun same => absurd same other⟩
  constructor
  · refine (pairs_cons (by decide)).mpr ⟨held 0 53 (by decide) rfl rfl, ?_⟩
    refine (pairs_cons (by decide)).mpr ⟨held 55 0 (by decide) rfl rfl, ?_⟩
    refine (pairs_cons (by decide)).mpr ⟨held 57 0 (by decide) rfl rfl, ?_⟩
    refine (pairs_cons (by decide)).mpr ⟨held 59 0 (by decide) rfl rfl, ?_⟩
    exact (pairs_nil (by decide)).mpr (.inr ⟨by decide, by decide⟩)
  · rintro ⟨pre, pair, post, split, message, -⟩
    have member : pair ∈ [((0 : UInt8), (53 : UInt8)), (0, 0), (0, 0), (0, 0)] := by
      rw [split]
      exact List.mem_append_right _ List.mem_cons_self
    simp only [List.mem_cons, List.not_mem_nil, or_false] at member
    rcases member with rfl | rfl | rfl | rfl <;> exact other message

/-- It is not noticed. -/
theorem padded_ack_missed : ¬Snooped ⟨paddedAck.encode, fun _ => 0, true⟩ station := by
  intro snooped
  have answered := snooped.2 paddedAck paddedAck_valid rfl rfl
  obtain ⟨pairs, missed⟩ := paddedAck_pairs
  have found := Form.arpoffloadProc_eq (p := ⟨paddedAck.encode, fun _ => 0, true⟩)
    paddedAck_valid rfl rfl
  obtain ⟨-, -, same⟩ := arpoffloadProc_iff.mp found
  rw [← (Form.found (p := ⟨paddedAck.encode, fun _ => 0, true⟩) paddedAck_valid rfl).1, same]
    at pairs missed
  exact missed (((answered_iff paddedAck_valid rfl rfl pairs).mp answered).mpr rfl)

end Aic8800.Rx.DhcpSnoop
