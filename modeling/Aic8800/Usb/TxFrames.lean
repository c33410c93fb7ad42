import Aic8800.Lib.Cells
import Mathlib

/-! # The frames that are sent

A frame begins with its length, of 12 bits in two bytes, and its type. A command is laid out in
`cmd_buf`, for which both drivers have the same function. Data whose confirmation is awaited is
copied behind its descriptor, and filled up to a multiple of four; other data is sent from its
`sk_buff`, with the descriptor pushed in front of it.
-/

namespace Aic8800.Usb.TxFrames

open Lib

abbrev Bytes := List UInt8

/-- `CMD_BUF_MAX` -/
def cmdBufMax : Nat := 1536

/-- `TX_ALIGNMENT` -/
def txAlignment : Nat := 4

/-- `sizeof(struct txdesc_api)` -/
def txdescSize : Nat := 28

/-- `sizeof(struct lmac_msg)` -/
def lmacMsgSize : Nat := 8

def eio : Int := 5

/-- The first four bytes of a frame -/
def usbHeader (len : Nat) (type : UInt8) : Bytes :=
  [.ofNat (len &&& 0xff), .ofNat ((len >>> 8) &&& 0x0f), type, 0]

/-- The length that is read back -/
def lengthField (frame : Bytes) : Nat :=
  (frame.getD 0 0).toNat + 256 * ((frame.getD 1 0).toNat &&& 15)

def putU16 (data : UInt16) : Bytes :=
  [.ofNat (data.toNat &&& 0xff), .ofNat ((data.toNat >>> 8) &&& 0xff)]

/-- What a transfer of `n` bytes takes from a buffer -/
def transfer (n : Nat) (buf : Bytes) : Option Bytes :=
  if n ≤ buf.length then some (buf.take n) else none

theorem transfer_append {n : Nat} {frame : Bytes} (whole : frame.length = n) (rest : Bytes) :
    transfer n (frame ++ rest) = some frame := by
  unfold transfer
  rw [if_pos (by rw [List.length_append]; omega), ← whole, List.take_left]

theorem usbHeader_length (len : Nat) (type : UInt8) : (usbHeader len type).length = 4 := rfl

theorem putU16_length (data : UInt16) : (putU16 data).length = 2 := rfl

/-- Of the length that is meant, twelve bits are read back. -/
theorem lengthField_usbHeader (len : Nat) (type : UInt8) (rest : Bytes) :
    lengthField (usbHeader len type ++ rest) = len % 2 ^ 12 := by
  have low : len &&& 0xff = len % 2 ^ 8 := Nat.and_two_pow_sub_one_eq_mod len 8
  have high : (len >>> 8) &&& 0x0f = len / 2 ^ 8 % 2 ^ 4 := by
    rw [Nat.shiftRight_eq_div_pow]
    exact Nat.and_two_pow_sub_one_eq_mod _ 4
  have nibble (x : Nat) : x &&& 15 = x % 2 ^ 4 := Nat.and_two_pow_sub_one_eq_mod x 4
  simp only [lengthField, usbHeader, low, high, nibble, List.cons_append, List.getD_cons_zero,
    List.getD_cons_succ, UInt8.toNat_ofNat']
  omega

/-! ## Commands -/

inductive Driver where
  | fdrv
  | loader
  deriving DecidableEq

/-- `struct lmac_msg`, whose `param_len` is a `u16` -/
structure LmacMsg where
  id : UInt16
  destId : UInt16
  srcId : UInt16
  param : Bytes
  paramLen : param.length < 2 ^ 16

namespace LmacMsg

/-- The message as it is sent -/
def bytes (msg : LmacMsg) : Bytes :=
  putU16 msg.id ++ putU16 msg.destId ++ putU16 msg.srcId ++ putU16 (.ofNat msg.param.length) ++
    msg.param

/-- The length that every caller passes -/
def len (msg : LmacMsg) : Nat := lmacMsgSize + msg.param.length

end LmacMsg

/-- `aicwf_set_cmd_tx`: the frames that it hands to `aicwf_bus_txmsg`, which has returned `ret`
    for the first of them. Only `aic8800_fdrv` looks at the state of the device. -/
def aicwfSetCmdTx (v : Driver) (up : Bool) (ret : Int) (msg : LmacMsg) (len : Nat) :
    Option (List Bytes) :=
  if v = .fdrv ∧ up = false then some []
  else do
    let buffer := List.replicate cmdBufMax 0
    let buffer ← Cells.copyAt 0 (usbHeader (len + 4) 0x11) buffer
    let buffer ← Cells.copyAt 8 (putU16 msg.id) buffer
    let buffer ← Cells.copyAt 10 (putU16 msg.destId) buffer
    let buffer ← Cells.copyAt 12 (putU16 msg.srcId) buffer
    let buffer ← Cells.copyAt 14 (putU16 (.ofNat msg.param.length)) buffer
    let buffer ← Cells.copyAt 16 msg.param buffer
    let frame ← transfer (len + 8) buffer
    return if ret = -eio then [frame, frame] else [frame]

section Command

variable {v : Driver} {up : Bool} {ret : Int} {msg : LmacMsg}

/-- Each frame that is handed on has its length, and holds the message behind a dummy word. -/
def CommandFramed (msg : LmacMsg) (out : Option (List Bytes)) : Prop :=
  ∃ frames, out = some frames ∧ ∀ frame ∈ frames,
    frame.length = msg.len + 8 ∧ lengthField frame = msg.len + 4 ∧ frame.drop 8 = msg.bytes

/-- Nothing is sent, or `cmd_buf` holds the message behind its eight bytes. -/
def CommandFits (v : Driver) (up : Bool) (msg : LmacMsg) : Prop :=
  v = .fdrv ∧ up = false ∨ msg.len + 8 ≤ cmdBufMax

/-- The frame of a message -/
def commandFrame (msg : LmacMsg) : Bytes :=
  usbHeader (msg.len + 4) 0x11 ++ List.replicate 4 0 ++ msg.bytes

theorem LmacMsg.bytes_length (msg : LmacMsg) : msg.bytes.length = msg.len := by
  simp only [bytes, len, lmacMsgSize, List.length_append, putU16_length]

theorem commandFrame_length (msg : LmacMsg) : (commandFrame msg).length = msg.len + 8 := by
  simp only [commandFrame, List.length_append, usbHeader_length, List.length_replicate,
    msg.bytes_length]
  omega

theorem aicwfSetCmdTx_down (down : v = .fdrv ∧ up = false) :
    aicwfSetCmdTx v up ret msg msg.len = some [] := by
  unfold aicwfSetCmdTx
  rw [if_pos down]

theorem aicwfSetCmdTx_fits (running : ¬(v = .fdrv ∧ up = false))
    (fits : msg.len + 8 ≤ cmdBufMax) : aicwfSetCmdTx v up ret msg msg.len =
      some (if ret = -eio then [commandFrame msg, commandFrame msg] else [commandFrame msg]) := by
  have room : msg.param.length ≤ 1520 := by
    unfold LmacMsg.len lmacMsgSize cmdBufMax at fits
    omega
  have header : Cells.copyAt 0 (usbHeader (msg.len + 4) 0x11) (List.replicate cmdBufMax 0) =
      some (usbHeader (msg.len + 4) 0x11 ++ List.replicate 4 0 ++ List.replicate 1528 0) := by
    have parts : cmdBufMax - 4 = 4 + 1528 := rfl
    rw [← List.nil_append (List.replicate cmdBufMax 0), Cells.copyAt_replicate, usbHeader_length,
      parts, List.replicate_add, List.nil_append, List.append_assoc]
    · rfl
    · rw [usbHeader_length, cmdBufMax]
      omega
  simp only [aicwfSetCmdTx, if_neg running, header, Option.bind_eq_bind, Option.bind_some]
  rw [Cells.copyAt_replicate, Option.bind_some, Cells.copyAt_replicate, Option.bind_some,
    Cells.copyAt_replicate, Option.bind_some, Cells.copyAt_replicate, Option.bind_some,
    Cells.copyAt_replicate, Option.bind_some]
  · have whole := transfer_append (commandFrame_length msg)
    simp only [commandFrame, LmacMsg.bytes, List.append_assoc] at whole ⊢
    rw [whole, Option.bind_some]
    rfl
  all_goals
    simp only [List.length_append, usbHeader_length, putU16_length, List.length_replicate]
  all_goals omega

/-- The last write is within `cmd_buf`. -/
theorem aicwfSetCmdTx_sends {frames : List Bytes} (running : ¬(v = .fdrv ∧ up = false))
    (sent : aicwfSetCmdTx v up ret msg msg.len = some frames) : msg.len + 8 ≤ cmdBufMax := by
  simp only [aicwfSetCmdTx, if_neg running, Option.bind_eq_bind, Option.bind_eq_some_iff] at sent
  obtain ⟨_, header, _, id, _, dest, _, src, _, length, _, param, -⟩ := sent
  have cleared : (List.replicate cmdBufMax (0 : UInt8)).length = cmdBufMax :=
    List.length_replicate
  have room := (Cells.copyAt_fits param).1
  rw [(Cells.copyAt_fits length).2, (Cells.copyAt_fits src).2, (Cells.copyAt_fits dest).2,
    (Cells.copyAt_fits id).2, (Cells.copyAt_fits header).2, cleared] at room
  have whole : msg.len = 8 + msg.param.length := rfl
  omega

theorem commandFrame_framed (fits : msg.len + 8 ≤ cmdBufMax) :
    (commandFrame msg).length = msg.len + 8 ∧ lengthField (commandFrame msg) = msg.len + 4 ∧
      (commandFrame msg).drop 8 = msg.bytes := by
  refine ⟨commandFrame_length msg, ?_, rfl⟩
  unfold commandFrame
  rw [List.append_assoc, lengthField_usbHeader]
  unfold cmdBufMax at fits
  omega

theorem command_framed_iff :
    CommandFramed msg (aicwfSetCmdTx v up ret msg msg.len) ↔ CommandFits v up msg := by
  constructor
  · rintro ⟨frames, sent, -⟩
    by_cases running : v = .fdrv ∧ up = false
    · exact .inl running
    · exact .inr (aicwfSetCmdTx_sends running sent)
  · rintro (down | fits)
    · exact ⟨[], aicwfSetCmdTx_down down, fun _ none => nomatch none⟩
    · by_cases running : v = .fdrv ∧ up = false
      · exact ⟨[], aicwfSetCmdTx_down running, fun _ none => nomatch none⟩
      · refine ⟨_, aicwfSetCmdTx_fits running fits, fun frame member => ?_⟩
        obtain rfl : frame = commandFrame msg := by
          split at member <;> simpa using member
        exact commandFrame_framed fits

end Command

/-! ## Data -/

/-- A `sk_buff` with the room in front of its data -/
structure Skb where
  head : Bytes
  data : Bytes

namespace Skb

def pull (skb : Skb) (n : Nat) : Skb := ⟨skb.head ++ skb.data.take n, skb.data.drop n⟩

/-- `skb_push`, which panics where there is not so much room -/
def push (skb : Skb) (n : Nat) : Option Skb :=
  if n ≤ skb.head.length then
    let kept := skb.head.length - n
    some ⟨skb.head.take kept, skb.head.drop kept ++ skb.data⟩
  else none

end Skb

theorem Skb.push_some {skb : Skb} {n : Nat} (room : n ≤ skb.head.length) :
    ∃ pushed, skb.push n = some pushed := ⟨_, if_pos room⟩

/-- What is pushed is in front of the data. -/
theorem Skb.push_eq {skb pushed : Skb} {n : Nat} (made : skb.push n = some pushed) :
    pushed.head.length + n = skb.head.length ∧ pushed.data.length = n + skb.data.length ∧
      ∀ xs : Bytes, xs.length = n → Cells.copyAt 0 xs pushed.data = some (xs ++ skb.data) := by
  unfold Skb.push at made
  split at made
  · rename_i room
    obtain rfl := Option.some.inj made
    have kept : (skb.head.drop (skb.head.length - n)).length = n := by
      rw [List.length_drop]
      omega
    refine ⟨?_, ?_, fun xs length => ?_⟩
    · rw [List.length_take]
      omega
    · rw [List.length_append, kept]
    · rw [Cells.copyAt_zero (by rw [List.length_append]; omega), List.drop_left' (by omega)]
  · cases made

/-- What `aicwf_usb_bus_txdata` is called with. The `headroom` has been pushed in front of the
    packet, and ends in a buffer whose size is a `u32`. -/
structure Packet where
  skb : Skb
  headroom : Nat
  needCfm : Bool
  desc : Bytes
  descSize : desc.length = txdescSize
  headroomPushed : headroom ≤ skb.data.length
  headroomU16 : headroom < 2 ^ 16
  skbU32 : skb.head.length + skb.data.length < 2 ^ 32

namespace Packet

/-- The packet itself -/
def payload (p : Packet) : Bytes := p.skb.data.drop p.headroom

/-- What is sent with it, apart from what it is filled up with -/
def body (p : Packet) : Bytes := p.desc ++ p.payload

/-- The length of a frame that holds the packet -/
def total (p : Packet) : Nat := 4 + txdescSize + p.payload.length

end Packet

/-- Memory that was allocated -/
structure Block (n : Nat) where
  address : Nat
  bytes : Bytes
  size : bytes.length = n

/-- What the function meets. `align_param` is a parameter of the module. -/
structure Env where
  up : Bool
  freeBuf : Bool
  alignParam : Int
  /-- Where `skb->data` is when the header has been pushed -/
  dataAddress : Nat
  kmalloc : (n : Nat) → Option (Block n)
  /-- The `kmalloc` of `usb_align_data` -/
  kmallocAligned : (n : Nat) → Option (Block n)

namespace Env

variable (env : Env)

/-- `x & (align_param - 1)` -/
def masked (x : Nat) : Nat := x &&& ((env.alignParam - 1) % 2 ^ 64).toNat

/-- `IS_ALIGNED(x, align_param)` -/
def isAligned (x : Nat) : Prop := env.masked x = 0

instance (x : Nat) : Decidable (env.isAligned x) := inferInstanceAs (Decidable (_ = _))

/-- `align_param - align`, where `align` is an `int` -/
def shift (x : Nat) : Int := env.alignParam - Int.bmod (env.masked x) (2 ^ 32)

/-- `sizeof(u8) * buf_len + align_param` -/
def alignedSize (bufLen : Nat) : Nat := ((bufLen + env.alignParam) % 2 ^ 64).toNat

/-- What is transferred of a buffer that is not aligned -/
def alignedCopy (bytes : Bytes) : Option Bytes := do
  let block ← env.kmallocAligned (env.alignedSize bytes.length)
  if 0 ≤ env.shift block.address then
    let place := (env.shift block.address).toNat
    let data ← Cells.copyAt place bytes block.bytes
    return (data.drop place).take bytes.length
  else none

/-- `roundup(buf_len, TX_ALIGNMENT) - buf_len` -/
def adjustLen (bufLen : Nat) : Nat :=
  if bufLen &&& (txAlignment - 1) ≠ 0 then
    (bufLen + (txAlignment - 1)) / txAlignment * txAlignment - bufLen
  else 0

/-- The buffer with confirmation, where it is, and `buf_len`. The positions are `u16`. -/
def cfmBuffer (p : Packet) : Option (Nat × Bytes × Nat) := do
  let block ← env.kmalloc ((p.skb.data.length + 1) % 2 ^ 32)
  let index := 4
  let buf ← Cells.copyAt index p.desc block.bytes
  let index := index + txdescSize
  let buf ← Cells.copyAt index p.payload buf
  let bufLen := (index + p.payload.length) % 2 ^ 16
  let buf ← Cells.copyAt bufLen (List.replicate (adjustLen bufLen) 0) buf
  let bufLen := (bufLen + adjustLen bufLen) % 2 ^ 16
  let buf ← Cells.copyAt 0 (usbHeader bufLen 1) buf
  return (block.address, buf, bufLen)

/-- The buffer without confirmation -/
def skbBuffer (p : Packet) : Option (Nat × Bytes × Nat) := do
  let skb := p.skb.pull p.headroom
  let skb ← skb.push txdescSize
  let data ← Cells.copyAt 0 p.desc skb.data
  let skb ← Skb.push ⟨skb.head, data⟩ 4
  let data ← Cells.copyAt 0 (usbHeader skb.data.length 1) skb.data
  return (env.dataAddress, data, skb.data.length % 2 ^ 16)

def buffer (p : Packet) : Option (Nat × Bytes × Nat) :=
  if p.needCfm then env.cfmBuffer p else env.skbBuffer p

/-- `aicwf_usb_bus_txdata`: what is queued for transfer, if anything is. A function that leaves
    its buffers, or transfers what it has not set, has no result. -/
def aicwfUsbBusTxdata (p : Packet) : Option (Option Bytes) :=
  if env.up = false ∨ env.freeBuf = false then some none
  else do
    let (address, buf, bufLen) ← env.buffer p
    let bytes ← transfer bufLen buf
    if env.isAligned address then return some bytes
    else return some (← env.alignedCopy bytes)

end Env

section Data

variable {env : Env} {p : Packet}

/-- The packet as it is handed over with the other answer to whether it is to be confirmed -/
def Packet.confirmed (p : Packet) (needCfm : Bool) : Packet := { p with needCfm }

/-- A frame that is queued has its length, and holds the packet behind its descriptor, with at
    most three zeros behind it. -/
def DataFramed (p : Packet) (out : Option (Option Bytes)) : Prop :=
  ∃ queued, out = some queued ∧ ∀ frame, queued = some frame →
    lengthField frame = frame.length ∧
      ∃ n < txAlignment, frame.drop 4 = p.body ++ List.replicate n 0

/-- Both encodings of the packet hold the same bytes. -/
def SameBody (env : Env) (p : Packet) : Prop :=
  ∀ cfm skb, env.aicwfUsbBusTxdata (p.confirmed true) = some (some cfm) →
    env.aicwfUsbBusTxdata (p.confirmed false) = some (some skb) →
    (cfm.drop 4).take p.body.length = (skb.drop 4).take p.body.length

/-- The buffer can be transferred: it is aligned, or there is memory for a copy that is, and the
    copy is within it. -/
def Env.Transferable (env : Env) (address bufLen : Nat) : Prop :=
  env.isAligned address ∨ ∃ block, env.kmallocAligned (env.alignedSize bufLen) = some block ∧
    0 ≤ env.shift block.address ∧
    (env.shift block.address).toNat + bufLen ≤ env.alignedSize bufLen

/-- The length of the frame, filled up -/
def Packet.padded (p : Packet) : Nat := p.total + Env.adjustLen p.total

/-- The frame with confirmation has a length of twelve bits, and `skb->len + 1` bytes are enough
    for it. -/
def CfmFits (env : Env) (p : Packet) : Prop :=
  p.padded < 2 ^ 12 ∧ p.padded ≤ p.skb.data.length + 1 ∧
    ∃ block, env.kmalloc (p.skb.data.length + 1) = some block ∧
      env.Transferable block.address p.padded

/-- The frame without confirmation has a length of twelve bits, and descriptor and header have
    room in front of it. -/
def SkbFits (env : Env) (p : Packet) : Prop :=
  p.total < 2 ^ 12 ∧ 4 + txdescSize ≤ p.skb.head.length + p.headroom ∧
    env.Transferable env.dataAddress p.total

def DataFits (env : Env) (p : Packet) : Prop :=
  env.up = false ∨ env.freeBuf = false ∨ if p.needCfm then CfmFits env p else SkbFits env p

namespace Packet

theorem body_length (p : Packet) : 4 + p.body.length = p.total := by
  unfold body total
  rw [List.length_append, p.descSize, Nat.add_assoc]

theorem total_le (p : Packet) : p.total + p.headroom = p.skb.data.length + 4 + txdescSize := by
  have pushed := p.headroomPushed
  unfold total payload
  rw [List.length_drop]
  omega

end Packet

namespace Env

theorem adjustLen_spec (n : Nat) : adjustLen n < 4 ∧ (n + adjustLen n) % 4 = 0 := by
  have low : n &&& (txAlignment - 1) = n % 4 := Nat.and_two_pow_sub_one_eq_mod n 2
  unfold adjustLen
  rw [low]
  unfold txAlignment
  split <;> omega

/-- What is transferred is what is in the buffer. -/
theorem alignedCopy_eq (bytes : Bytes) {copy : Bytes} (copied : env.alignedCopy bytes = some copy) :
    copy = bytes := by
  unfold alignedCopy at copied
  obtain ⟨block, -, copied⟩ := Option.bind_eq_some_iff.mp copied
  split at copied
  · obtain ⟨data, placed, same⟩ := Option.bind_eq_some_iff.mp copied
    obtain rfl := Option.some.inj same
    exact Cells.copyAt_read placed
  · cases copied

theorem alignedCopy_iff (address : Nat) (bytes : Bytes) :
    (env.isAligned address ∨ env.alignedCopy bytes ≠ none) ↔
      env.Transferable address bytes.length := by
  unfold Transferable
  refine or_congr_right ?_
  unfold alignedCopy
  cases env.kmallocAligned (env.alignedSize bytes.length) with
  | none => simp
  | some block =>
      simp only [Option.bind_eq_bind, Option.bind_some, Option.some.injEq, exists_eq_left']
      split
      · rename_i behind
        unfold Cells.copyAt
        rw [block.size]
        split <;> simp_all
      · simp_all

/-- The frame with confirmation -/
def cfmFrame (p : Packet) : Bytes :=
  usbHeader p.padded 1 ++ (p.body ++ List.replicate (adjustLen p.total) 0)

/-- The frame without confirmation -/
def skbFrame (p : Packet) : Bytes := usbHeader p.total 1 ++ p.body

theorem cfmFrame_length (p : Packet) : (cfmFrame p).length = p.padded := by
  have body := p.body_length
  unfold cfmFrame Packet.padded
  rw [List.length_append, List.length_append, List.length_replicate, usbHeader_length]
  omega

theorem skbFrame_length (p : Packet) : (skbFrame p).length = p.total := by
  unfold skbFrame
  rw [List.length_append, usbHeader_length, p.body_length]

/-- `index` and `buf_len` of a frame that is short enough -/
theorem index_eq (small : p.total < 2 ^ 12) :
    (4 + txdescSize + p.payload.length) % 2 ^ 16 = p.total ∧
      (p.total + adjustLen p.total) % 2 ^ 16 = p.padded ∧
      (p.skb.data.length + 1) % 2 ^ 32 = p.skb.data.length + 1 := by
  have adjust := (adjustLen_spec p.total).1
  have headroom := p.total_le
  have pushed := p.headroomU16
  have same : 4 + txdescSize + p.payload.length = p.total := rfl
  unfold Packet.padded
  refine ⟨?_, ?_, ?_⟩ <;> omega

theorem cfmBuffer_of_block (small : p.total < 2 ^ 12) {block : Block (p.skb.data.length + 1)}
    (allocated : env.kmalloc (p.skb.data.length + 1) = some block)
    (fits : p.padded ≤ p.skb.data.length + 1) :
    ∃ rest, env.cfmBuffer p = some (block.address, cfmFrame p ++ rest, p.padded) := by
  obtain ⟨index, bufLen, size⟩ := index_eq small
  have body := p.body_length
  have desc := p.descSize
  have space := block.size
  have whole : 4 + txdescSize + p.payload.length = p.total := rfl
  unfold Packet.padded at fits
  have front : (block.bytes.take 4).length = 4 := by rw [List.length_take]; omega
  have parts : block.bytes = block.bytes.take 4 ++ block.bytes.drop 4 :=
    (List.take_append_drop 4 _).symm
  unfold cfmBuffer
  rw [size, allocated]
  simp only [Option.bind_eq_bind, Option.bind_some, index, bufLen]
  rw [parts, Cells.copyAt_append front, Option.bind_some, Cells.copyAt_append, Option.bind_some,
    Cells.copyAt_append, Option.bind_some, Cells.copyAt_zero, Option.bind_some]
  · unfold cfmFrame Packet.body
    simp only [usbHeader_length, List.append_assoc, List.drop_left' front]
    exact ⟨_, rfl⟩
  all_goals
    simp only [List.length_append, List.length_drop, List.length_replicate, usbHeader_length,
      front, desc, space]
  all_goals omega

theorem cfmBuffer_fits (small : p.total < 2 ^ 12) {out : Nat × Bytes × Nat}
    (made : env.cfmBuffer p = some out) :
    p.padded ≤ p.skb.data.length + 1 ∧
      ∃ block, env.kmalloc (p.skb.data.length + 1) = some block := by
  obtain ⟨index, bufLen, size⟩ := index_eq small
  unfold cfmBuffer at made
  rw [size] at made
  simp only [Option.bind_eq_bind, Option.bind_eq_some_iff, index] at made
  obtain ⟨block, allocated, _, desc, _, payload, _, zeros, -⟩ := made
  refine ⟨?_, block, allocated⟩
  have room := (Cells.copyAt_fits zeros).1
  rw [(Cells.copyAt_fits payload).2, (Cells.copyAt_fits desc).2, block.size,
    List.length_replicate] at room
  exact room

theorem pulled_head (p : Packet) :
    (p.skb.pull p.headroom).head.length = p.skb.head.length + p.headroom := by
  have pushed := p.headroomPushed
  unfold Skb.pull
  rw [List.length_append, List.length_take]
  omega

theorem skbBuffer_eq (room : 4 + txdescSize ≤ p.skb.head.length + p.headroom) :
    env.skbBuffer p = some (env.dataAddress, skbFrame p, p.total % 2 ^ 16) := by
  have pulled := pulled_head p
  obtain ⟨first, pushed⟩ := Skb.push_some (n := txdescSize)
    (show _ ≤ (p.skb.pull p.headroom).head.length by omega)
  obtain ⟨left, -, copied⟩ := Skb.push_eq pushed
  obtain ⟨second, again⟩ := Skb.push_some (n := 4)
    (show _ ≤ (Skb.mk first.head (p.desc ++ p.payload)).head.length by dsimp only; omega)
  obtain ⟨-, length, header⟩ := Skb.push_eq again
  have whole : second.data.length = p.total := by
    rw [length, List.length_append, p.descSize]
    exact (Nat.add_assoc _ _ _).symm
  have body : Cells.copyAt 0 p.desc first.data = some (p.desc ++ p.payload) :=
    copied p.desc p.descSize
  unfold skbBuffer
  simp only [Option.bind_eq_bind, pushed, Option.bind_some, body, again, whole,
    header (usbHeader p.total 1) rfl]
  rfl

theorem skbBuffer_room {out : Nat × Bytes × Nat} (made : env.skbBuffer p = some out) :
    4 + txdescSize ≤ p.skb.head.length + p.headroom := by
  have pulled := pulled_head p
  unfold skbBuffer at made
  simp only [Option.bind_eq_bind, Option.bind_eq_some_iff] at made
  obtain ⟨first, pushed, _, -, second, again, -⟩ := made
  have left := (Skb.push_eq pushed).1
  have more := (Skb.push_eq again).1
  dsimp only at more
  omega

/-- A frame that is short enough -/
def encoded (p : Packet) : Bytes := if p.needCfm then cfmFrame p else skbFrame p

/-- What there has to be for such a frame, besides its length -/
def Ready (env : Env) (p : Packet) : Prop :=
  if p.needCfm then
    p.padded ≤ p.skb.data.length + 1 ∧
      ∃ block, env.kmalloc (p.skb.data.length + 1) = some block ∧
        env.Transferable block.address p.padded
  else 4 + txdescSize ≤ p.skb.head.length + p.headroom ∧
    env.Transferable env.dataAddress p.total

/-- The buffer that is made, and what its transfer takes from it -/
theorem buffer_eq (small : p.total < 2 ^ 12) {out : Nat × Bytes × Nat}
    (made : env.buffer p = some out) :
    transfer out.2.2 out.2.1 = some (encoded p) := by
  unfold buffer at made
  unfold encoded
  split at made
  · rename_i cfm
    obtain ⟨fits, block, allocated⟩ := cfmBuffer_fits small made
    obtain ⟨rest, same⟩ := cfmBuffer_of_block small allocated fits
    obtain rfl := Option.some.inj (same.symm.trans made)
    rw [if_pos cfm]
    exact transfer_append (cfmFrame_length p) rest
  · rename_i skb
    have same := @skbBuffer_eq env p (skbBuffer_room made)
    obtain rfl := Option.some.inj (same.symm.trans made)
    have exact' : p.total % 2 ^ 16 = p.total := Nat.mod_eq_of_lt (by omega)
    have whole := transfer_append (skbFrame_length p) []
    rw [List.append_nil] at whole
    rw [if_neg skb]
    dsimp only
    rw [exact', whole]

theorem encoded_length (p : Packet) :
    (encoded p).length = if p.needCfm then p.padded else p.total := by
  unfold encoded
  split
  · exact cfmFrame_length p
  · exact skbFrame_length p

/-- A buffer is made, and can be transferred, if everything is there for it. -/
theorem ready_iff (small : p.total < 2 ^ 12) :
    Ready env p ↔ ∃ out, env.buffer p = some out ∧
      env.Transferable out.1 (encoded p).length := by
  rw [encoded_length]
  unfold Ready buffer
  split
  · constructor
    · rintro ⟨fits, block, allocated, transferable⟩
      obtain ⟨rest, same⟩ := cfmBuffer_of_block small allocated fits
      exact ⟨_, same, transferable⟩
    · rintro ⟨out, made, transferable⟩
      obtain ⟨fits, block, allocated⟩ := cfmBuffer_fits small made
      obtain ⟨rest, same⟩ := cfmBuffer_of_block small allocated fits
      obtain rfl := Option.some.inj (same.symm.trans made)
      exact ⟨fits, block, allocated, transferable⟩
  · constructor
    · rintro ⟨room, transferable⟩
      exact ⟨_, skbBuffer_eq room, transferable⟩
    · rintro ⟨out, made, transferable⟩
      have room := skbBuffer_room made
      obtain rfl := Option.some.inj ((skbBuffer_eq room).symm.trans made)
      exact ⟨room, transferable⟩

theorem txdata_queues (up : env.up = true) (free : env.freeBuf = true) :
    env.aicwfUsbBusTxdata p ≠ some none := by
  have idle : ¬(env.up = false ∨ env.freeBuf = false) := by rw [up, free]; decide
  unfold aicwfUsbBusTxdata
  rw [if_neg idle]
  intro queued
  obtain ⟨⟨address, buf, bufLen⟩, -, queued⟩ := Option.bind_eq_some_iff.mp queued
  obtain ⟨bytes, -, queued⟩ := Option.bind_eq_some_iff.mp queued
  split at queued
  · cases queued
  · obtain ⟨copy, -, queued⟩ := Option.bind_eq_some_iff.mp queued
    cases queued

/-- Where nothing is in its way, a short frame is queued as it is encoded, or the function has
    no result. -/
theorem txdata_eq (small : p.total < 2 ^ 12) (up : env.up = true) (free : env.freeBuf = true) :
    (∀ frame, env.aicwfUsbBusTxdata p = some (some frame) → frame = encoded p) ∧
      (env.aicwfUsbBusTxdata p ≠ none ↔ Ready env p) := by
  rw [ready_iff small]
  have idle : ¬(env.up = false ∨ env.freeBuf = false) := by rw [up, free]; decide
  unfold aicwfUsbBusTxdata
  rw [if_neg idle]
  cases made : env.buffer p with
  | none => simp
  | some out =>
      have taken := buffer_eq small made
      have transferable := @alignedCopy_iff env out.1 (encoded p)
      simp only [Option.bind_eq_bind, Option.bind_some, taken, Option.some.injEq, exists_eq_left']
      rw [← transferable]
      split
      · rename_i aligned
        simp [aligned]
      · rename_i apart
        cases copied : env.alignedCopy (encoded p) with
        | none => simp [apart]
        | some copy =>
            obtain rfl := alignedCopy_eq (encoded p) copied
            simp

theorem txdata_refused (idle : env.up = false ∨ env.freeBuf = false) :
    env.aicwfUsbBusTxdata p = some none := if_pos idle

end Env

open Env

theorem lengthField_lt (frame : Bytes) : lengthField frame < 2 ^ 12 := by
  have low : (frame.getD 0 0).toNat < 2 ^ 8 := UInt8.toNat_lt _
  have high : (frame.getD 1 0).toNat &&& 15 ≤ 15 := Nat.and_le_right
  unfold lengthField
  omega

theorem encoded_body (p : Packet) : ∃ n < txAlignment,
    (encoded p).drop 4 = p.body ++ List.replicate n 0 := by
  have pad := adjustLen_spec p.total
  unfold encoded
  split
  · exact ⟨adjustLen p.total, pad.1, rfl⟩
  · exact ⟨0, by decide, (List.append_nil _).symm⟩

/-- A frame is encoded with its own length, if that has twelve bits. -/
theorem lengthField_encoded (p : Packet) :
    lengthField (encoded p) = (encoded p).length % 2 ^ 12 := by
  rw [encoded_length]
  unfold encoded
  split
  · exact lengthField_usbHeader _ _ _
  · exact lengthField_usbHeader _ _ _

theorem total_le_encoded (p : Packet) : p.total ≤ (encoded p).length := by
  rw [encoded_length]
  split
  · exact Nat.le_add_right _ _
  · exact Nat.le_refl _

theorem fits_iff (up : env.up = true) (free : env.freeBuf = true) :
    DataFits env p ↔ (encoded p).length < 2 ^ 12 ∧ Ready env p := by
  unfold DataFits CfmFits SkbFits Ready
  rw [encoded_length, up, free]
  simp only [Bool.true_eq_false, false_or]
  split <;> rfl

/-- A frame that is queued as a packet's is short. -/
theorem total_lt_of_framed {frame : Bytes} (field : lengthField frame = frame.length) {n : Nat}
    (holds : frame.drop 4 = p.body ++ List.replicate n 0) : p.total < 2 ^ 12 := by
  have short := lengthField_lt frame
  have body := p.body_length
  have length := congrArg List.length holds
  have descriptor : txdescSize ≤ p.body.length := by
    unfold Packet.body
    rw [List.length_append, p.descSize]
    exact Nat.le_add_right _ _
  rw [List.length_drop, List.length_append] at length
  unfold txdescSize at descriptor
  omega

theorem data_framed_iff :
    DataFramed p (env.aicwfUsbBusTxdata p) ∧ SameBody env p ↔ DataFits env p := by
  by_cases idle : env.up = false ∨ env.freeBuf = false
  · constructor
    · exact fun _ => or_assoc.mp (.inl idle)
    · refine fun _ => ⟨⟨none, txdata_refused idle, fun _ queued => nomatch queued⟩, ?_⟩
      intro cfm skb queued
      cases (txdata_refused (p := p.confirmed true) idle).symm.trans queued
  · obtain ⟨running, unused⟩ := not_or.mp idle
    have up : env.up = true := Bool.eq_true_of_not_eq_false running
    have free : env.freeBuf = true := Bool.eq_true_of_not_eq_false unused
    rw [fits_iff up free]
    constructor
    · rintro ⟨⟨queued, out, framed⟩, -⟩
      cases queued with
      | none => exact absurd out (txdata_queues up free)
      | some frame =>
          obtain ⟨field, n, -, holds⟩ := framed frame rfl
          have small := total_lt_of_framed field holds
          obtain ⟨encodes, ready⟩ := @txdata_eq env p small up free
          obtain rfl := encodes frame out
          refine ⟨?_, ready.mp (by rw [out]; exact Option.some_ne_none _)⟩
          rw [← field]
          exact lengthField_lt _
    · rintro ⟨short, ready⟩
      have small : p.total < 2 ^ 12 := Nat.lt_of_le_of_lt (total_le_encoded p) short
      obtain ⟨encodes, sent⟩ := @txdata_eq env p small up free
      refine ⟨?_, fun cfm skb queued queued' => ?_⟩
      · obtain ⟨queued, out⟩ := Option.ne_none_iff_exists'.mp (sent.mpr ready)
        refine ⟨queued, out, ?_⟩
        rintro frame rfl
        obtain rfl := encodes frame out
        exact ⟨(lengthField_encoded p).trans (Nat.mod_eq_of_lt short), encoded_body p⟩
      · have same (b : Bool) {frame : Bytes}
            (queued : env.aicwfUsbBusTxdata (p.confirmed b) = some (some frame)) :
            (frame.drop 4).take p.body.length = p.body := by
          obtain rfl := (txdata_eq (p := p.confirmed b) small up free).1 frame queued
          obtain ⟨n, -, holds⟩ := encoded_body (p.confirmed b)
          rw [holds]
          exact List.take_left
        rw [same true queued, same false queued']

/-- The copy that is aligned is within its memory, for any alignment that makes sense. -/
theorem aligned_within {n : Nat} (short : n < 2 ^ 16) (positive : 0 < env.alignParam)
    (int : env.alignParam < 2 ^ 31) (x : Nat) :
    0 ≤ env.shift x ∧ (env.shift x).toNat + n ≤ env.alignedSize n := by
  have small : env.masked x ≤ ((env.alignParam - 1) % 2 ^ 64).toNat := Nat.and_le_right
  have same : (env.alignParam - 1) % 2 ^ 64 = env.alignParam - 1 := by omega
  rw [same] at small
  have kept : Int.bmod (env.masked x) (2 ^ 32) = env.masked x := by
    apply Int.bmod_eq_of_le <;> omega
  unfold Env.shift Env.alignedSize
  rw [kept]
  omega

/-- With the headroom that the driver pushes, and memory, the frame is faithful if and only if its
    length has twelve bits. -/
theorem dataFits_iff_short (positive : 0 < env.alignParam) (int : env.alignParam < 2 ^ 31)
    (headroom : 34 ≤ p.headroom) (up : env.up = true) (free : env.freeBuf = true)
    (memory : ∀ n, (env.kmalloc n).isSome ∧ (env.kmallocAligned n).isSome) :
    DataFits env p ↔ (if p.needCfm then p.padded else p.total) < 2 ^ 12 := by
  rw [fits_iff up free, encoded_length]
  refine and_iff_left_of_imp fun short => ?_
  have transferable {n : Nat} (short : n < 2 ^ 12) (address : Nat) :
      env.Transferable address n := by
    obtain ⟨block, allocated⟩ := Option.isSome_iff_exists.mp (memory (env.alignedSize n)).2
    exact .inr ⟨block, allocated, aligned_within (by omega) positive int block.address⟩
  have length := p.total_le
  have pad := (adjustLen_spec p.total).1
  unfold Ready
  split at short
  · rename_i cfm
    obtain ⟨block, allocated⟩ := Option.isSome_iff_exists.mp (memory (p.skb.data.length + 1)).1
    rw [if_pos cfm]
    refine ⟨?_, block, allocated, transferable short block.address⟩
    unfold Packet.padded
    unfold txdescSize at length
    omega
  · rename_i skb
    rw [if_neg skb]
    refine ⟨?_, transferable short env.dataAddress⟩
    unfold txdescSize
    omega

end Data

/-! ## Both -/

/-- What is handed to one of the functions -/
inductive Handed where
  | command (v : Driver) (up : Bool) (ret : Int) (msg : LmacMsg)
  | data (env : Env) (p : Packet)

namespace Handed

/-- It is sent in a frame with its length, that holds what it is to hold, or not at all. -/
def Framed : Handed → Prop
  | command v up ret msg => CommandFramed msg (aicwfSetCmdTx v up ret msg msg.len)
  | data env p => DataFramed p (env.aicwfUsbBusTxdata p) ∧ SameBody env p

/-- There is nowhere to send it, or room for it. -/
def Fits : Handed → Prop
  | command v up _ msg => CommandFits v up msg
  | data env p => DataFits env p

theorem frame_faithful_iff (h : Handed) : h.Framed ↔ h.Fits := by
  cases h with
  | command => exact command_framed_iff
  | data => exact data_framed_iff

end Handed

/-- An action frame of 30 bytes, behind the headroom -/
def actionFrame : Packet where
  skb := ⟨[], List.replicate 96 0 ++ 0xd0 :: List.replicate 29 0⟩
  headroom := 96
  needCfm := true
  desc := List.replicate txdescSize 0
  descSize := List.length_replicate
  headroomPushed := by rw [List.length_append, List.length_replicate]; exact Nat.le_add_right _ _
  headroomU16 := by decide
  skbU32 := by
    simp only [List.length_append, List.length_replicate, List.length_cons, List.length_nil]
    omega

/-- A device that is up, with no memory left -/
def scarceEnv : Env where
  up := true
  freeBuf := true
  alignParam := 8
  dataAddress := 4096
  kmalloc _ := none
  kmallocAligned _ := none

/-- The frame is to be confirmed, and what `kmalloc` returns for the copy is written to unseen. -/
theorem no_memory_unframed : ¬(Handed.data scarceEnv actionFrame).Framed := by
  intro framed
  obtain ⟨queued, out, -⟩ := framed.1
  have stops : scarceEnv.aicwfUsbBusTxdata actionFrame = none := rfl
  cases stops.symm.trans out

end Aic8800.Usb.TxFrames
