import Aic8800.Lib.Traced
import Aic8800.Priv.Line
import Mathlib

/-! # The handlers of the private commands

A handler reads its arguments, fills an array of its own with them, sends it to the firmware, and
copies the answer to the buffer that the command line came in. What it reads and writes on the
way is its trace.
-/

namespace Aic8800.Priv

open Lib Traced

/-- `enum AICWF_IC` -/
inductive Chip where
  | aic8801
  | aic8800dc
  | aic8800dw
  | aic8800d81
  | aic8800d81x2
  | aic8800d89x2
  deriving DecidableEq

/-- The commands of `rwnx_send_rftest_req`. `RDWR_PWRLVL` is `RDWR_PWRIDX` on newer chips. -/
inductive Rftest where
  | setTx | setTxstop | setTxtone | setRx | getRxResult | setRxstop | setRxMeter | setPower
  | setXtalCap | setXtalCapFine | getEfuseBlock | setFreqCal | setFreqCalFine | getFreqCal
  | setMacAddr | getMacAddr | setBtMacAddr | getBtMacAddr | setVendorInfo | getVendorInfo
  | rdwrPwrmm | rdwrPwridx | rdwrPwrlvl | rdwrPwrofst | rdwrDrvibit | rdwrEfusePwrofst
  | rdwrEfuseDrvibit | setPapr | setCalXtal | getCalXtalRes | setCobCal | getCobCalRes
  | rdwrEfuseUsrdata | setNotch | rdwrPwrofstfine | rdwrEfusePwrofstfine | rdwrEfuseSdiocfg
  | rdwrEfuseUsbvidpid | setSrrc | setFss | rdwrEfuseHeOff | setUsbOff | setPllTest | setAntMode
  | getNoise | rdwrBtEfusePwrofst | execFlashOper | rdwrPwradd2x | rdwrEfusePwradd2x | checkFlash
  deriving DecidableEq

structure Request where
  cmd : Rftest
  argv : List UInt8

/-- The number of bytes of `dbg_rftest_cmd_req.argv` -/
def rftestArgv : Nat := 30

/-- The number of bytes of `dbg_rftest_cmd_cfm.rftest_result` -/
def sizeofRftestResult : Nat := 32 * 4

inductive Event where
  /-- `argv[i]` is read. -/
  | arg (i : Nat)
  /-- An array of the handler's own, of `size` entries, is written at `i`. -/
  | store (size i : Nat)
  | send (r : Request)
  /-- So many bytes of the answer are read. -/
  | cfm (n : Nat)
  /-- Bytes are written to the beginning of the buffer. -/
  | reply (bytes : List UInt8)

/-- What a handler finds outside its arguments. -/
structure Platform where
  chipid : Chip
  /-- `cfm.rftest_result` when the request has been made -/
  firmware : Request → Nat → UInt32
  /-- What is in a local variable that has not been set. -/
  stack : Nat → UInt32
  /-- What the entries of `argv` from `argc` on point to. -/
  beyond : Nat → CString
  regulatorySetWiphyRegd : CString → Int
  getFlashBinSize : UInt32
  getFlashBinCrc : UInt32

structure Call extends Platform where
  args : List CString

namespace Call

variable (c : Call)

def argc : Nat := c.args.length

def argv (i : Nat) : CString := (c.args[i]?).getD (c.beyond i)

/-- The argument as a number. -/
def number (i : Nat) (base : UInt32) : UInt32 := commandStrtoul (c.argv i) base

def uninit (n : Nat) : Vector UInt8 n := .ofFn fun i => (c.stack i).toUInt8

end Call

/-- An access stays inside: the arguments that there are, the array, the request, the answer, the
    buffer of `size` bytes. -/
def Event.Inside (argc size : Nat) : Event → Prop
  | .arg i => i < argc
  | .store length i => i < length
  | .send r => r.argv.length ≤ rftestArgv
  | .cfm n => n ≤ sizeofRftestResult
  | .reply bytes => bytes.length ≤ size

instance (argc size : Nat) : DecidablePred (Event.Inside argc size)
  | .arg i => inferInstanceAs (Decidable (i < argc))
  | .store length i => inferInstanceAs (Decidable (i < length))
  | .send r => inferInstanceAs (Decidable (r.argv.length ≤ rftestArgv))
  | .cfm n => inferInstanceAs (Decidable (n ≤ sizeofRftestResult))
  | .reply bytes => inferInstanceAs (Decidable (bytes.length ≤ size))

/-- A handler that is under way. It is broken off where it returns early. -/
abbrev Run := Traced Int Event

def einval : Int := 22

def store {n : Nat} (buf : Vector UInt8 n) (i : Nat) (v : UInt8) : Run (Vector UInt8 n) := do
  emit (.store n i)
  return buf.setIfInBounds i v

def le16 (v : UInt16) : List UInt8 := [v.toUInt8, (v >>> 8).toUInt8]

def le32 (v : UInt32) : List UInt8 :=
  [v.toUInt8, (v >>> 8).toUInt8, (v >>> 16).toUInt8, (v >>> 24).toUInt8]

/-- Byte `i` of the answer -/
def answerByte (cfm : Nat → UInt32) (i : Nat) : UInt8 := (le32 (cfm (i / 4))).getD (i % 4) 0

/-- `memcpy(command, &cfm.rftest_result[0], n); return n` -/
def answer (cfm : Nat → UInt32) (n : Nat) : Run Int := do
  emit (.cfm n)
  emit (.reply ((List.range n).map (answerByte cfm)))
  return n

namespace Call

variable (c : Call)

/-- `command_strtoul(argv[i], NULL, base)` -/
def strtoul (i : Nat) (base : UInt32) : Run UInt32 := do
  emit (.arg i)
  return c.number i base

/-- A number that is kept in a `u8` -/
def strtou8 (i : Nat) (base : UInt32) : Run UInt8 := do
  return (← c.strtoul i base).toUInt8

/-- `rwnx_send_rftest_req` -/
def send (cmd : Rftest) (argv : List UInt8) : Run (Nat → UInt32) := do
  emit (.send ⟨cmd, argv⟩)
  return c.firmware ⟨cmd, argv⟩

end Call

section Inside

variable {argc size : Nat}

@[simp] theorem inside_arg {i : Nat} : (Event.arg i).Inside argc size ↔ i < argc := Iff.rfl

@[simp] theorem inside_store {n i : Nat} : (Event.store n i).Inside argc size ↔ i < n := Iff.rfl

@[simp] theorem inside_send {r : Request} :
    (Event.send r).Inside argc size ↔ r.argv.length ≤ 30 := Iff.rfl

@[simp] theorem inside_cfm {n : Nat} : (Event.cfm n).Inside argc size ↔ n ≤ 128 := Iff.rfl

@[simp] theorem inside_reply {bytes : List UInt8} :
    (Event.reply bytes).Inside argc size ↔ bytes.length ≤ size := Iff.rfl

@[simp] theorem value_store {n : Nat} (buf : Vector UInt8 n) (i : Nat) (v : UInt8) :
    (store buf i v).value = .ok (buf.setIfInBounds i v) := rfl

@[simp] theorem all_store {n : Nat} (buf : Vector UInt8 n) (i : Nat) (v : UInt8) :
    (store buf i v).All (Event.Inside argc size) ↔ i < n := by
  simp [store]

@[simp] theorem value_strtoul (c : Call) (i : Nat) (base : UInt32) :
    (c.strtoul i base).value = .ok (c.number i base) := rfl

@[simp] theorem all_strtoul (c : Call) (i : Nat) (base : UInt32) :
    (c.strtoul i base).All (Event.Inside argc size) ↔ i < argc := by
  simp [Call.strtoul]

@[simp] theorem value_strtou8 (c : Call) (i : Nat) (base : UInt32) :
    (c.strtou8 i base).value = .ok (c.number i base).toUInt8 := rfl

@[simp] theorem all_strtou8 (c : Call) (i : Nat) (base : UInt32) :
    (c.strtou8 i base).All (Event.Inside argc size) ↔ i < argc := by
  simp [Call.strtou8]

@[simp] theorem value_send (c : Call) (cmd : Rftest) (argv : List UInt8) :
    (c.send cmd argv).value = .ok (c.firmware ⟨cmd, argv⟩) := rfl

@[simp] theorem all_send (c : Call) (cmd : Rftest) (argv : List UInt8) :
    (c.send cmd argv).All (Event.Inside argc size) ↔ argv.length ≤ 30 := by
  simp [Call.send]

@[simp] theorem all_answer (cfm : Nat → UInt32) (n : Nat) :
    (answer cfm n).All (Event.Inside argc size) ↔ n ≤ 128 ∧ n ≤ size := by
  simp [answer]

@[simp] theorem le16_length (v : UInt16) : (le16 v).length = 2 := rfl

@[simp] theorem le32_length (v : UInt32) : (le32 v).length = 4 := rfl

end Inside

namespace AicPrivCmd

variable (c : Call)

def setTx : Run Int := do
  failIf (c.argc < 6) (-einval)
  let chan ← c.strtou8 1 10
  let bw ← c.strtou8 2 10
  let mode ← c.strtou8 3 10
  let rate ← c.strtou8 4 10
  let length ← c.strtoul 5 10
  let txIntvUs ← if 6 < c.argc then c.strtoul 6 10 else pure 10000
  let level ←
    if 7 < c.argc then do
      failIf (c.chipid = .aic8801) (-einval)
      let lvlPwr ← c.strtou8 7 10
      -- the module of some modes is never set
      let lvlMod :=
        if mode = 0 then 0
        else if mode = 2 ∨ mode = 4 then 1
        else if mode = 5 then 2
        else (c.stack 0).toUInt8
      let lvlIdx := if 4 ≤ mode then rate &&& 0xf else if 2 ≤ mode then rate &&& 7 else rate
      let buf ← store (c.uninit 10) 0 (if 36 ≤ chan then 2 else 1)
      let buf ← store buf 1 lvlMod
      let buf ← store buf 2 lvlIdx
      let buf ← store buf 3 lvlPwr
      pure (some (lvlPwr, buf.toList.take 4))
    else pure none
  match level with
  | some (lvlPwr, buf) =>
      if lvlPwr ≠ 255 then do
        let _ ← c.send .rdwrPwrlvl buf
      else pure ()
  | none => pure ()
  -- the power limit is not configured: `POWER_LEVEL_INVALID_VAL`, and a byte of padding
  let _ ← c.send .setTx
    ([chan, bw, mode, rate] ++ le16 length.toUInt16 ++ le16 txIntvUs.toUInt16 ++ [127, (c.stack 1).toUInt8])
  return 0

/-- The handlers that tell the firmware to do something, and no more. -/
def order (cmd : Rftest) : Run Int := do
  let _ ← c.send cmd []
  return 0

def setTxstop : Run Int := order c .setTxstop

def setRxstop : Run Int := order c .setRxstop

def setCalXtal : Run Int := order c .setCalXtal

def setUsbOff : Run Int := order c .setUsbOff

/-- The handlers that ask the firmware for so many bytes. -/
def query (cmd : Rftest) (n : Nat) : Run Int := do
  answer (← c.send cmd []) n

def getRxResult : Run Int := query c .getRxResult 8

def getFreqCal : Run Int := query c .getFreqCal 4

def getMacAddr : Run Int := query c .getMacAddr 8

def getBtMacAddr : Run Int := query c .getBtMacAddr 8

def getCalXtalRes : Run Int := query c .getCalXtalRes 4

/-- The number of bytes that the vendor info has. -/
def vendorInfoLen : Nat := if c.chipid = .aic8800dc ∨ c.chipid = .aic8800dw then 2 else 1

def getVendorInfo : Run Int := query c .getVendorInfo (vendorInfoLen c)

def setRx : Run Int := do
  failIf (c.argc < 3) (-einval)
  let chan ← c.strtou8 1 10
  let bw ← c.strtou8 2 10
  let _ ← c.send .setRx [chan, bw]
  return 0

def setTxTone : Run Int := do
  emit (.arg 0)
  failIf (¬(c.argc = 2 ∨ c.argc = 3)) (-einval)
  let func ← c.strtou8 1 16
  let freq ← if c.argc = 3 then c.strtou8 2 10 else pure 0
  let buf ← store (c.uninit 2) 0 func
  let buf ← store buf 1 freq
  let _ ← c.send .setTxtone (buf.toList.take (c.argc - 1))
  return 0

def setRxMeter : Run Int := do
  let freq ← c.strtou8 1 10
  let _ ← c.send .setRxMeter [freq]
  return 0

def setSetPower : Run Int := do
  let pwr ←
    if c.chipid = .aic8801 then do
      let anaPwr ← c.strtou8 1 16
      let digPwr ← c.strtou8 2 16
      failIf (0xf < anaPwr ∨ 0xf < digPwr) (-einval)
      pure (anaPwr <<< 4 ||| digPwr)
    else do
      let anaPwr ← c.strtou8 1 10
      failIf (0x1e < anaPwr) (-einval)
      pure anaPwr
  let _ ← c.send .setPower [pwr]
  return 0

/-- The handlers that set a byte and answer with a word. -/
def setByte (cmd : Rftest) (base : UInt32) : Run Int := do
  failIf (c.argc < 2) (-einval)
  let v ← c.strtou8 1 base
  answer (← c.send cmd [v]) 4

def setXtalCap : Run Int := setByte c .setXtalCap 10

def setXtalCapFine : Run Int := setByte c .setXtalCapFine 10

def getEfuseBlock : Run Int := setByte c .getEfuseBlock 10

def setFreqCal : Run Int := setByte c .setFreqCal 16

def setFreqCalFine : Run Int := setByte c .setFreqCalFine 16

/-- The handlers that set an address, whose last byte is the first argument. -/
def setAddr (cmd : Rftest) : Run Int := do
  failIf (c.argc < 7) (-einval)
  let addr ← store (c.uninit 6) 5 (← c.strtou8 1 16)
  let addr ← store addr 4 (← c.strtou8 2 16)
  let addr ← store addr 3 (← c.strtou8 3 16)
  let addr ← store addr 2 (← c.strtou8 4 16)
  let addr ← store addr 1 (← c.strtou8 5 16)
  let addr ← store addr 0 (← c.strtou8 6 16)
  let _ ← c.send cmd addr.toList
  return 0

def setMacAddr : Run Int := setAddr c .setMacAddr

def setBtMacAddr : Run Int := setAddr c .setBtMacAddr

def setVendorInfo : Run Int := do
  let vendorInfo ← c.strtou8 1 16
  answer (← c.send .setVendorInfo [vendorInfo]) (vendorInfoLen c)

def rdwrPwrmm : Run Int := do
  let cfm ←
    if c.argc ≤ 1 then c.send .rdwrPwrmm []
    else do
      let pwrmm ← c.strtou8 1 16
      c.send .rdwrPwrmm [if pwrmm = 0 then 0 else 1]
  answer cfm 4

/-- What a command is to do: the first argument, or 0 to read. -/
def func (base : UInt32) : Run UInt8 := if 1 < c.argc then c.strtou8 1 base else pure 0

def rdwrPwridx : Run Int := do
  failIf (c.chipid ≠ .aic8801) (-einval)
  let func ← func c 16
  let cfm ←
    if func = 0 then c.send .rdwrPwridx []
    else if func ≤ 2 then do
      failIf (¬3 < c.argc) (-einval)
      let type ← c.strtou8 2 16
      let pwridx ← c.strtou8 3 10
      c.send .rdwrPwridx [func, type, pwridx]
    else fail (-einval)
  answer cfm 9

/-- The number of levels of a group -/
def pwrlvlSize (grp : UInt8) : Nat := if grp = 1 then 10 else 12

/-- The loop that takes all the levels of a group. -/
def levels (size : Nat) (buf : Vector UInt8 14) : Run (Vector UInt8 14) :=
  (List.range size).foldlM (fun buf idx => do store buf (2 + idx) (← c.strtou8 (3 + idx) 10)) buf

/-- `rdwr_pwrlvl`, where it writes. -/
def writePwrlvl (func : UInt8) : Run (Nat → UInt32) := do
  failIf (¬4 < c.argc) (-einval)
  let grp ← c.strtou8 2 16
  let buf : Vector UInt8 14 := #v[func, grp, 0, 0, 0, 0, 0, 0, 0, 0, 0, 0, 0, 0]
  if 12 < c.argc then do
    let buf ← levels c (pwrlvlSize grp) buf
    c.send .rdwrPwrlvl (buf.toList.take (pwrlvlSize grp + 2))
  else do
    let idx ← c.strtou8 3 10
    let pwrlvl ← c.strtou8 4 10
    let buf ← store buf 2 idx
    let buf ← store buf 3 pwrlvl
    c.send .rdwrPwrlvl (buf.toList.take 4)

def rdwrPwrlvl : Run Int := do
  failIf (c.chipid = .aic8801) (-einval)
  let func ← func c 16
  let cfm ←
    if func = 0 then c.send .rdwrPwrlvl []
    else if func ≤ 2 then writePwrlvl c func
    else fail (-einval)
  answer cfm
    (if c.chipid = .aic8800d81 ∨ c.chipid = .aic8800d81x2 ∨ c.chipid = .aic8800d89x2 then 6 * 12
    else 3 * 12)

/-- `rdwr_pwrofst` and `rdwr_efuse_pwrofst` -/
def pwrofst (cmd : Rftest) (resLen : Chip → Nat) : Run Int := do
  let func ← func c 16
  let cfm ←
    if func = 0 then c.send cmd []
    else if func ≤ 4 then
      if 4 < c.argc ∧
          (c.chipid = .aic8800d81 ∨ c.chipid = .aic8800d81x2 ∨ c.chipid = .aic8800d89x2) then do
        let type ← c.strtou8 2 16
        let chgrp ← c.strtou8 3 16
        let pwrofst ← c.strtou8 4 10
        c.send cmd [func, type, chgrp, pwrofst]
      else if 3 < c.argc ∧
          (c.chipid = .aic8801 ∨ c.chipid = .aic8800dw ∨ c.chipid = .aic8800dc) then do
        let chgrp ← c.strtou8 2 16
        let pwrofst ← c.strtou8 3 10
        c.send cmd [func, chgrp, pwrofst]
      else fail (-einval)
    else fail (-einval)
  answer cfm (resLen c.chipid)

def rdwrPwrofst : Run Int :=
  pwrofst c .rdwrPwrofst fun
    | .aic8800dc | .aic8800dw => 3
    | .aic8800d81 => 3 * 3 + 3 * 6
    | .aic8800d81x2 | .aic8800d89x2 => (3 * 3 + 3 * 6) * 2
    | .aic8801 => 3 + 4

def rdwrEfusePwrofst : Run Int :=
  pwrofst c .rdwrEfusePwrofst fun
    | .aic8800dc | .aic8800dw => 3 * 2
    | .aic8800d81 => (3 * 3 + 3 * 6) * 2
    | .aic8800d81x2 | .aic8800d89x2 => (3 * 3 + 3 * 6) * 2 * 2
    | .aic8801 => 3 + 4

/-- `rdwr_pwrofstfine` and `rdwr_efuse_pwrofstfine` -/
def pwrofstfine (cmd : Rftest) : Run Int := do
  let func ← func c 16
  let cfm ←
    if func = 0 then c.send cmd []
    else if func ≤ 2 then do
      failIf (¬3 < c.argc) (-einval)
      let chgrp ← c.strtou8 2 16
      let pwrofst ← c.strtou8 3 10
      c.send cmd [func, chgrp, pwrofst]
    else fail (-einval)
  answer cfm 7

def rdwrPwrofstfine : Run Int := pwrofstfine c .rdwrPwrofstfine

def rdwrEfusePwrofstfine : Run Int := pwrofstfine c .rdwrEfusePwrofstfine

/-- The handlers that read a setting, or write it from the second argument. -/
def setting (cmd : Rftest) (bytes : UInt32 → List UInt8) (n : Nat) : Run Int := do
  let func ← func c 16
  let cfm ←
    if func = 0 then c.send cmd []
    else if func = 1 then do
      failIf (¬2 < c.argc) (-einval)
      let v ← c.strtoul 2 16
      c.send cmd (func :: bytes v)
    else fail (-einval)
  answer cfm n

def rdwrDrvibit : Run Int := setting c .rdwrDrvibit (fun ibit => [ibit.toUInt8]) 16

def rdwrEfuseDrvibit : Run Int := setting c .rdwrEfuseDrvibit (fun ibit => [ibit.toUInt8]) 4

def rdwrEfuseSdiocfg : Run Int := setting c .rdwrEfuseSdiocfg (fun ibit => [ibit.toUInt8]) 4

def rdwrEfuseUsbvidpid : Run Int := setting c .rdwrEfuseUsbvidpid le32 4

/-- The loop that takes as many words as the count says. -/
def words (cnt : Nat) (usrdata : Vector UInt32 3) : Run (Vector UInt32 3) :=
  (List.range cnt).foldlM (fun usrdata idx => do
    let word ← c.strtoul (3 + idx) 16
    emit (.store 3 idx)
    return usrdata.setIfInBounds idx word) usrdata

def rdwrEfuseUsrdata : Run Int := do
  -- `cmd_ef_usrdata_t` is 2 bytes, 2 reserved ones and 3 words
  let reserved := [(c.stack 2).toUInt8, (c.stack 3).toUInt8]
  let usrdata : Vector UInt32 3 := .ofFn fun i => c.stack (4 + i)
  let (func, cnt, usrdata) ←
    if c.argc ≤ 1 then pure (0, 3, usrdata)
    else do
      let func ← c.strtou8 1 10
      let cnt ← c.strtou8 2 10
      let usrdata ← if func = 1 then words c cnt.toNat usrdata else pure usrdata
      pure (func, cnt, usrdata)
  let cfm ← c.send .rdwrEfuseUsrdata ([func, cnt] ++ reserved ++ usrdata.toList.flatMap le32)
  answer cfm 12

def rdwrEfuseHeOff : Run Int := do
  let func ← c.strtou8 1 10
  if func = 1 ∨ func = 0 then answer (← c.send .rdwrEfuseHeOff [func]) 4
  else return 0

def setCobCal : Run Int := do
  failIf (c.argc < 3) (-einval)
  let dutid ← c.strtou8 1 10
  let chipNum ← c.strtou8 2 10
  let disXtal ← c.strtou8 3 10
  let _ ← c.send .setCobCal [dutid, chipNum, disXtal]
  return 0

/-- The result of a test, when the firmware is not at it any more. -/
def cobResult (cfm : Nat → UInt32) : Run Int := do
  emit (.cfm 4)
  failIf (((cfm 0) >>> 16) &&& 0xff ≠ 0) (-einval)
  answer cfm 16

def getCobCalRes : Run Int := do
  cobResult (← c.send .getCobCalRes [])

def doCobTest : Run Int := do
  let disXtal ← func c 10
  let _ ← c.send .setCobCal [1, 1, disXtal]
  cobResult (← c.send .getCobCalRes [])

/-- The handlers that pass one number on. -/
def pass (cmd : Rftest) : Run Int := do
  failIf (¬1 < c.argc) (-einval)
  let func ← c.strtou8 1 10
  let _ ← c.send cmd [func]
  return 0

def setPapr : Run Int := pass c .setPapr

def setNotch : Run Int := pass c .setNotch

def setSrrc : Run Int := pass c .setSrrc

def setFss : Run Int := pass c .setFss

def setAntMode : Run Int := pass c .setAntMode

def execFlashOper : Run Int := pass c .execFlashOper

def setPllTest : Run Int := do
  let func ← func c 16
  let (freq, txPwr) ←
    if 3 < c.argc then do pure (← c.strtou8 2 10, ← c.strtou8 3 16)
    else pure (0, 0xc)
  failIf (¬func ≤ 1) (-einval)
  let _ ← c.send .setPllTest [func, freq, txPwr]
  return 0

/-- Whether a byte, as an `int8_t`, is at most this far from 0. -/
def near (v : UInt8) (limit : Int) : Prop := -limit ≤ v.toInt8.toInt ∧ v.toInt8.toInt ≤ limit

instance (v : UInt8) (limit : Int) : Decidable (near v limit) :=
  inferInstanceAs (Decidable (_ ∧ _))

def rdwrBtEfusePwrofst : Run Int := do
  let cfm ←
    if c.argc = 2 then do
      let btTxpwrofst ← c.strtou8 1 10
      failIf (¬near btTxpwrofst 7) (-einval)
      c.send .rdwrBtEfusePwrofst [btTxpwrofst]
    else c.send .rdwrBtEfusePwrofst []
  answer cfm 2

def countrySet : Run Int := do
  failIf (c.argc < 2) (-1)
  emit (.arg 1)
  return c.regulatorySetWiphyRegd (c.argv 1)

def getNoise : Run Int := do
  let cfm ← c.send .getNoise []
  emit (.cfm 8)
  emit (.reply [(cfm 0).toUInt8, (cfm 1).toUInt8])
  return 2

/-- `rdwr_pwradd2x` and `rdwr_efuse_pwradd2x` -/
def pwradd2x (cmd : Rftest) (n : Nat) : Run Int := do
  failIf (c.chipid ≠ .aic8800d81) (-einval)
  let func ← func c 10
  let pwradd2xIn ← if 0 < func ∧ 2 < c.argc then c.strtou8 2 10 else pure 0
  let cfm ←
    if func = 0 then c.send cmd []
    else if func = 1 ∨ func = 2 then do
      failIf (¬near pwradd2xIn 15) (-einval)
      c.send cmd [func, pwradd2xIn]
    else fail (-einval)
  answer cfm n

def rdwrPwradd2x : Run Int := pwradd2x c .rdwrPwradd2x 2

def rdwrEfusePwradd2x : Run Int := pwradd2x c .rdwrEfusePwradd2x 3

/-- `FLASH_BIN_ADDR_8800M80` -/
def flashBinAddr : UInt32 := 0x8000000

def checkFlash : Run Int := do
  let cfm ← c.send .checkFlash (le32 flashBinAddr ++ le32 c.getFlashBinSize)
  answer (fun i => if i = 1 then c.getFlashBinCrc else cfm i) 8

def help : Run Int := do
  if 0 < c.argc then emit (.arg 0) else pure ()
  return 0

end AicPrivCmd

end Aic8800.Priv
