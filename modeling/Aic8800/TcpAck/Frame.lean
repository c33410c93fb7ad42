import Mathlib.Data.List.Basic

/-! # What the filter reads from a frame

`aicwf_tcp_ack.c` looks at the bytes from `skb->data` on. It checks no length, so
a buffer is the memory it can reach, the frame and what follows it, and a read
past the end is a fault.
-/

namespace Aic8800.TcpAck

def byte (buf : List UInt8) (n : Nat) : Option Nat := buf[n]?.map UInt8.toNat

/-- `ntohs` -/
def be16 (buf : List UInt8) (n : Nat) : Option Nat :=
  (byte buf n).bind fun high => (byte buf (n + 1)).map fun low => high * 256 + low

/-- `ntohl` -/
def be32 (buf : List UInt8) (n : Nat) : Option Nat :=
  (be16 buf n).bind fun high => (be16 buf (n + 2)).map fun low => high * 65536 + low

def ethPIp : Nat := 0x0800

def ipprotoTcp : Nat := 6

/-- Where the IP header starts, after the `ethhdr`. -/
def ipOffset : Nat := 14

def tcpoptEol : Nat := 0

def tcpoptNop : Nat := 1

def tcpoptWindow : Nat := 3

def tcpoptTimestamp : Nat := 8

/-- A flow and a number of it. The ports and addresses are only compared. -/
structure TcpAckMsg where
  source : Nat
  dest : Nat
  saddr : Nat
  daddr : Nat
  seq : BitVec 32
  win : Nat
  deriving Repr, DecidableEq

/-- `U32_BEFORE`, which also holds of equal numbers. -/
def u32Before (a b : BitVec 32) : Bool := decide ((a - b).toInt ≤ 0)

/-- The loop over the options. `ptr` moves by `skip` bytes before the next
    opcode. An `EOL` leaves only the `switch`, and an option with a bad length is
    left after its two bytes, both with `len` as it was. -/
def scanOptions : List UInt8 → (skip len drop winScale : Nat) → Option (Nat × Nat)
  | bytes, skip, len, drop, winScale =>
      if len = 0 then some (drop, winScale)
      else
        match bytes, skip with
        | [], _ => none
        | _ :: rest, skip + 1 => scanOptions rest skip len drop winScale
        | opcode :: rest, 0 =>
            if opcode.toNat = tcpoptEol then scanOptions rest 0 len drop winScale
            else if opcode.toNat = tcpoptNop then scanOptions rest 0 (len - 1) drop winScale
            else
              match rest with
              | [] => none
              | opsize :: rest =>
                  if opsize.toNat < 2 ∨ len < opsize.toNat then scanOptions rest 0 len drop winScale
                  else if opcode.toNat = tcpoptTimestamp then
                    scanOptions rest (opsize.toNat - 2) (len - opsize.toNat) drop winScale
                  else if opcode.toNat = tcpoptWindow then
                    match rest with
                    | [] => none
                    | shift :: _ =>
                        scanOptions rest (opsize.toNat - 2) (len - opsize.toNat) drop
                          (if shift.toNat < 15 then 1 <<< shift.toNat else winScale)
                  else scanOptions rest (opsize.toNat - 2) (len - opsize.toNat) 2 winScale

/-- The class of a segment and the window scale it announces. The TCP header is
    at `tcp`. -/
def isDropTcpAck (buf : List UInt8) (tcp : Nat) (tcpTotLen : Int) : Option (Nat × Nat) :=
  (byte buf (tcp + 12)).bind fun doff =>
    let len := doff / 16 * 4
    if (len : Int) < tcpTotLen then some (0, 0)
    else scanOptions (buf.drop (tcp + 20)) 0 (len - 20) 1 0

/-- What `tcp_check_ack` returns and writes. It fills `msg` only for a class that
    is not 0. -/
structure AckCheck where
  drop : Nat
  winScale : Nat
  msg : Option TcpAckMsg
  deriving Repr, DecidableEq

def notAck : AckCheck := ⟨0, 0, none⟩

/-- The fields that both checks copy: the flow, and the number at `seqAt`. -/
def readMsg (buf : List UInt8) (tcp seqAt : Nat) : Option TcpAckMsg :=
  (be32 buf (ipOffset + 12)).bind fun saddr => (be32 buf (ipOffset + 16)).bind fun daddr =>
    (be16 buf tcp).bind fun source => (be16 buf (tcp + 2)).bind fun dest =>
      (be32 buf (tcp + seqAt)).map fun seq =>
        { source, dest, saddr, daddr, seq := BitVec.ofNat 32 seq, win := 0 }

/-- The offset of the TCP header and its flags, if the frame is TCP over IPv4. -/
def tcpHeader (buf : List UInt8) : Option (Option (Nat × Nat)) :=
  (be16 buf 12).bind fun proto =>
    if proto ≠ ethPIp then some none
    else
      (byte buf ipOffset).bind fun first => (byte buf (ipOffset + 9)).bind fun protocol =>
        if first / 16 ≠ 4 ∨ protocol ≠ ipprotoTcp then some none
        else
          let tcp := ipOffset + first % 16 * 4
          (byte buf (tcp + 13)).map fun flags => some (tcp, flags)

def tcpCheckAck (buf : List UInt8) : Option AckCheck :=
  (tcpHeader buf).bind fun
    | none => some notAck
    | some (tcp, flags) =>
        if flags &&& 0x10 = 0 then some notAck
        else
          (be16 buf (ipOffset + 2)).bind fun totLen =>
            (isDropTcpAck buf tcp ((totLen : Int) - (tcp - ipOffset : Nat))).bind fun (drop, winScale) =>
              if 0 < drop then
                (readMsg buf tcp 8).bind fun msg => (be16 buf (tcp + 14)).map fun win =>
                  ⟨drop, winScale, some { msg with win }⟩
              else some ⟨drop, winScale, none⟩

/-- A received segment with `ACK` and `PSH`, as the flow of its answer. -/
def tcpCheckQuickAck (buf : List UInt8) : Option (Option TcpAckMsg) :=
  (tcpHeader buf).bind fun
    | none => some none
    | some (tcp, flags) =>
        if flags &&& 0x10 = 0 ∨ flags &&& 0x8 = 0 then some none
        else
          (readMsg buf tcp 4).map fun msg =>
            some { msg with
              saddr := msg.daddr, daddr := msg.saddr, source := msg.dest, dest := msg.source }

/-- The scan only ever raises the class to 2. -/
theorem scanOptions_drop (bytes : List UInt8) (skip len drop winScale : Nat) {d w : Nat}
    (h : scanOptions bytes skip len drop winScale = some (d, w)) : d = drop ∨ d = 2 := by
  fun_induction scanOptions bytes skip len drop winScale
  all_goals grind

/-- A class other than 0 is that of a segment without payload. -/
theorem isDropTcpAck_spec {buf : List UInt8} {tcp : Nat} {tcpTotLen : Int} {drop winScale : Nat}
    (h : isDropTcpAck buf tcp tcpTotLen = some (drop, winScale)) :
    (drop = 0 → winScale = 0) ∧
      (0 < drop → ∃ doff, byte buf (tcp + 12) = some doff ∧ tcpTotLen ≤ (doff / 16 * 4 : Nat)) := by
  obtain ⟨doff, found, rest⟩ := Option.bind_eq_some_iff.mp h
  simp only at rest
  split at rest
  · obtain ⟨rfl, rfl⟩ := Prod.mk.inj (Option.some.inj rest)
    simp
  · rename_i fits
    have raised := scanOptions_drop _ _ _ _ _ rest
    exact ⟨fun none => by omega, fun _ => ⟨doff, found, by omega⟩⟩

/-- The steps of `tcp_check_ack`, for a frame that is an acknowledgement. -/
theorem tcpCheckAck_cases {buf : List UInt8} {check : AckCheck}
    (h : tcpCheckAck buf = some check) :
    check = notAck ∨ ∃ tcp flags totLen, tcpHeader buf = some (some (tcp, flags)) ∧
      be16 buf (ipOffset + 2) = some totLen ∧
      isDropTcpAck buf tcp ((totLen : Int) - (tcp - ipOffset : Nat)) =
        some (check.drop, check.winScale) ∧ (check.msg.isSome ↔ 0 < check.drop) := by
  obtain ⟨header, read, rest⟩ := Option.bind_eq_some_iff.mp h
  cases header with
  | none => exact .inl (Option.some.inj rest).symm
  | some at_ =>
      obtain ⟨tcp, flags⟩ := at_
      simp only at rest
      split at rest
      · exact .inl (Option.some.inj rest).symm
      · obtain ⟨totLen, total, rest⟩ := Option.bind_eq_some_iff.mp rest
        obtain ⟨⟨drop, winScale⟩, scanned, rest⟩ := Option.bind_eq_some_iff.mp rest
        simp only at rest
        refine .inr ⟨tcp, flags, totLen, read, total, ?_⟩
        split at rest
        · rename_i drops
          obtain ⟨msg, -, rest⟩ := Option.bind_eq_some_iff.mp rest
          obtain ⟨win, -, rfl⟩ := Option.map_eq_some_iff.mp rest
          exact ⟨scanned, by simpa using drops⟩
        · rename_i keeps
          obtain rfl := Option.some.inj rest
          exact ⟨scanned, by simpa using keeps⟩

theorem tcpHeader_spec {buf : List UInt8} {tcp flags : Nat}
    (h : tcpHeader buf = some (some (tcp, flags))) :
    ∃ first, byte buf ipOffset = some first ∧ tcp = ipOffset + first % 16 * 4 ∧
      byte buf (tcp + 13) = some flags := by
  obtain ⟨proto, -, rest⟩ := Option.bind_eq_some_iff.mp h
  split at rest
  · cases rest
  · obtain ⟨first, found, rest⟩ := Option.bind_eq_some_iff.mp rest
    obtain ⟨protocol, -, rest⟩ := Option.bind_eq_some_iff.mp rest
    split at rest
    · cases rest
    · obtain ⟨read, at_, same⟩ := Option.map_eq_some_iff.mp rest
      obtain ⟨rfl, rfl⟩ := Prod.mk.inj (Option.some.inj same)
      exact ⟨first, found, rfl, at_⟩

/-- Only a class that is not 0 comes with a flow, and only it with a window scale. -/
theorem tcpCheckAck_spec {buf : List UInt8} {check : AckCheck} (h : tcpCheckAck buf = some check) :
    (check.msg.isSome ↔ 0 < check.drop) ∧ (check.drop = 0 → check.winScale = 0) := by
  obtain rfl | ⟨tcp, flags, totLen, -, -, scanned, filled⟩ := tcpCheckAck_cases h
  · simp [notAck]
  · exact ⟨filled, (isDropTcpAck_spec scanned).1⟩

end Aic8800.TcpAck
