import Aic8800.Loader.Commands

/-! # The firmware download

`aicfw_download_fw_8800d80` uploads the firmware image in blocks, patches its
configuration and starts it. It runs in one thread, which does nothing while a
request is under way, so it is written as a program: the requests it makes, and
what it does next with each reply. The program is run on the command manager, whose
other steps come in between.
-/

namespace Aic8800.Loader

open Lib Cmd

/-- The requests of the download; the message tells which confirmation it has. -/
inductive Request where
  | memBlockWrite (addr : UInt32) (data : List UInt8)
  | memRead (addr : UInt32)
  | memWrite (addr data : UInt32)
  | startApp (addr : UInt32) (bootType : Nat)
  deriving DecidableEq

/-- The call of `rwnx_send_msg` for a request. The buffer of all reads is
    `rd_patch_addr_cfm`. -/
def Request.send : Request → Send
  | .memBlockWrite _ _ => ⟨1035, true, 1036, none⟩
  | .memRead _ => ⟨1024, true, 1025, some 0⟩
  | .memWrite _ _ => ⟨1026, true, 1027, none⟩
  | .startApp _ _ => ⟨1037, false, 0, none⟩

/-- The return value of a request, and what is in `rd_patch_addr_cfm` by then. -/
structure Reply where
  ret : Int
  cfm : List UInt8
  deriving DecidableEq

inductive Prog where
  | done (ret : Int)
  | send (r : Request) (next : Reply → Prog)

namespace Prog

def bind : Prog → (Int → Prog) → Prog
  | .done ret, f => f ret
  | .send r next, f => .send r fun a => (next a).bind f

/-- Requests in order, up to the first that fails. -/
def sendAll : List Request → Prog
  | [] => .done 0
  | r :: rs => .send r fun a => if a.ret ≠ 0 then .done a.ret else sendAll rs

/-- `if (p) return -1;`, and then `q`. -/
def orFail (p q : Prog) : Prog := p.bind fun err => if err ≠ 0 then .done (-1) else q

end Prog

/-! ## The download -/

/-- How often the loop over whole blocks runs. -/
def trips (size : Nat) : Nat := if 1024 < size then (size - 1024 + 1023) / 1024 else 0

/-- The blocks of 1 KiB before the last one. -/
def wholeBlocks (fwAddr : UInt32) (dst : List UInt8) : List Request :=
  (List.range (trips dst.length)).map fun k =>
    .memBlockWrite (fwAddr + .ofNat (1024 * k)) ((dst.drop (1024 * k)).take 1024)

/-- The image is what `aic_load_firmware` has read; its size is an `int`. -/
def rwnxPlatBinFwUploadAndroid (fwAddr : UInt32) (dst : List UInt8) : Prog :=
  if dst.length = 0 ∨ 2147483648 ≤ dst.length then .done (-1)
  else
    (Prog.sendAll (wholeBlocks fwAddr dst)).bind fun err =>
      let i := 1024 * trips dst.length
      if err = 0 ∧ i < dst.length then
        .send (.memBlockWrite (fwAddr + .ofNat i) (dst.drop i)) fun a => .done a.ret
      else .done err

/-- The options of the build that `patch_tbl_d80` depends on. -/
structure BuildConfig where
  use5g : Bool
  platformHi : Bool
  powerLimit : Bool
  bandSteering : Bool
  radarOrIrDetect : Bool

def patchTblD80 (b : BuildConfig) : List (UInt32 × UInt32) :=
  [(0x00b4, if b.use5g then 0xf3010001 else 0xf3010000),
    (0x0170, if b.platformHi then 0x00010001 else 0x0001000A),
    (0x0188, 1 ||| (if b.powerLimit then 2 else 0) ||| (if b.bandSteering then 8 else 0))] ++
    if b.radarOrIrDetect then [(0x0019c, 0x00000B00)] else []

def adaptivityPatchTblD80 : List (UInt32 × UInt32) :=
  [(0x000C, 0x0000320A), (0x009C, 0x00000000), (0x0168, 0x00010000)]

inductive TestMode where
  | normal
  | test
  deriving DecidableEq

structure Config where
  build : BuildConfig
  adapTest : Bool
  /-- `chip_id` is `CHIP_REV_U01`. -/
  u01 : Bool
  testmode : TestMode

/-- `memdata` of a `dbg_mem_read_cfm`. -/
def memdata (cfm : List UInt8) : UInt32 :=
  ((cfm.drop 4).take 4).foldr (fun b w => w * 256 + b.toUInt32) 0

def ramFmacFwAddr (u01 : Bool) : UInt32 := if u01 then 0x100000 else 0x120000

def ramFmacRfFwAddr (u01 : Bool) : UInt32 := if u01 then 0x110000 else 0x120000

/-- The pairs of a table, written from `addr` on. -/
def pairWrites (configBase : UInt32) (addr : UInt32) : List (UInt32 × UInt32) → List Request
  | [] => []
  | (offset, value) :: rest =>
      .memWrite addr (offset + configBase) :: .memWrite (addr + 4) value ::
        pairWrites configBase (addr + 8) rest

/-- The writes of `aicwf_patch_config_8800d80`, with the two bases and the address
    it has read. -/
def patchWrites (cfg : Config) (configBase strBase startAddr : UInt32) : List Request :=
  let tbl := patchTblD80 cfg.build ++ if cfg.adapTest then adaptivityPatchTblD80 else []
  [.memWrite strBase 0x48435450, .memWrite (strBase + 8) 0x50544348,
    .memWrite (strBase + 4) startAddr, .memWrite (strBase + 12) (.ofNat tbl.length)] ++
    pairWrites configBase startAddr tbl ++
    [.memWrite (strBase + 48) 0, .memWrite (strBase + 52) 0, .memWrite (strBase + 56) 0,
      .memWrite (strBase + 60) 0]

/-- A read whose failure is returned. -/
def readOr (addr : UInt32) (next : UInt32 → Prog) : Prog :=
  .send (.memRead addr) fun a => if a.ret ≠ 0 then .done a.ret else next (memdata a.cfm)

def aicwfPatchConfig8800d80 (cfg : Config) : Prog :=
  let rdPatchAddr := ramFmacFwAddr cfg.u01 + 0x0198
  readOr rdPatchAddr fun configBase =>
    readOr (rdPatchAddr + 8) fun strBase =>
      readOr (ramFmacFwAddr cfg.u01 + 0x01C) fun version =>
        if 0x06090100 < version then
          readOr (rdPatchAddr + 12) fun buffBase =>
            .sendAll (patchWrites cfg configBase strBase buffBase)
        else .sendAll (patchWrites cfg configBase strBase 0x001D7000)

/-- `rwnx_send_dbg_start_app_req` with `HOST_START_APP_AUTO`. -/
def startApp (addr : UInt32) : Prog := (Prog.sendAll [.startApp addr 1]).orFail (.done 0)

/-- Where the image goes. -/
def Config.fwAddr (cfg : Config) : UInt32 :=
  match cfg.testmode with
  | .normal => ramFmacFwAddr cfg.u01
  | .test => ramFmacRfFwAddr cfg.u01

/-- The modes that load this firmware and can succeed. -/
def aicfwDownloadFw8800d80 (cfg : Config) (image : List UInt8) : Prog :=
  match cfg.testmode with
  | .normal =>
      if cfg.u01 then
        (rwnxPlatBinFwUploadAndroid (ramFmacFwAddr true) image).orFail (startApp (ramFmacFwAddr true))
      else
        (rwnxPlatBinFwUploadAndroid (ramFmacFwAddr false) image).orFail
          ((aicwfPatchConfig8800d80 cfg).orFail (startApp (ramFmacFwAddr false)))
  | .test =>
      (rwnxPlatBinFwUploadAndroid (ramFmacRfFwAddr cfg.u01) image).orFail
        (startApp (ramFmacRfFwAddr cfg.u01))

/-! ## Running it -/

/-- The loader: the manager, what is left of the program, the call under way, and
    the requests made with the replies to them. -/
structure Load where
  mgr : CmdMgr
  prog : Prog
  busy : Option Nat
  requests : List Request
  replies : List Reply

/-- The buffer of the reads is on the stack, so it holds anything at first. -/
def Load.init (cfg : Config) (image : List UInt8) (stack : Vector UInt8 8) : Load :=
  { mgr := rwnxCmdMgrInit fun _ => stack.toList
    prog := aicfwDownloadFw8800d80 cfg image, busy := none, requests := [], replies := [] }

/-- A step of the manager, a request of the program with whether there is memory for
    its message, or the return from a request. -/
inductive LoadLabel where
  | mgr (l : Label)
  | request (alloc : Bool)
  | resume

namespace Load

def step (s : Load) : LoadLabel → Option Load
  | .mgr (.call _) => none
  | .mgr l => (s.mgr.step l).map fun mgr => { s with mgr }
  | .request alloc =>
      match s.busy, s.prog with
      | none, .send r next =>
          if alloc then
            some
              { s with
                mgr := s.mgr.startCall r.send, busy := some s.mgr.calls
                requests := s.requests ++ [r] }
          else some { s with prog := next ⟨-enomem, s.mgr.bufs 0⟩ }
      | _, _ => none
  | .resume =>
      match s.busy, s.prog with
      | some n, .send _ next =>
          match s.mgr.point n with
          | some (.returned ret) =>
              let reply := ⟨ret, s.mgr.bufs 0⟩
              some { s with prog := next reply, busy := none, replies := s.replies ++ [reply] }
          | _ => none
      | _, _ => none

end Load

end Aic8800.Loader
