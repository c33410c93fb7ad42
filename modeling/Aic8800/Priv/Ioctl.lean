import Aic8800.Lib.Loop
import Aic8800.Priv.Commands
import Mathlib

/-! # The private ioctl

`android_priv_cmd` copies a request in, runs the command, and copies the answer out. All ways lead
to one label, from which there is a jump back to it when the answer is longer than the buffer of
the caller.
-/

namespace Aic8800.Priv

open Lib Loop

inductive Iftype where
  | station | p2pClient | ap | p2pGo | apVlan | meshPoint | monitor
  deriving DecidableEq

/-- What `get_cs_info` asks an interface for. -/
structure Vif where
  iftype : Iftype
  /-- The interface is connected: `vif->sta.ap` -/
  hasAp : Bool
  /-- The stations of `vif->ap.sta_list`, with their `valid` flags. -/
  staList : List (Bool × List UInt8)
  /-- The bytes of an `aicwf_cs_info` -/
  csInfo : Nat → UInt8

/-- A request, and what the kernel answers to the calls that it leads to. -/
structure Ioctl where
  /-- `ifr->ifr_data` is not null. -/
  hasData : Bool
  /-- The `total_len` of the caller, when the struct can be copied. -/
  header : Option Int
  /-- What is in `total_len` when the struct has not been copied. -/
  garbage : Int
  kmalloc : Bool
  /-- What is in memory where the buffer is allocated. -/
  heap : Nat → UInt8
  /-- The buffer of the caller, as far as it can be read. -/
  user : Nat → Option UInt8
  /-- So many bytes can be written to the buffer of the caller. -/
  writable : Nat → Bool
  vif : Vif

def efault : Int := 14

def enomem : Int := 12

def privateCommandMaxLen : Int := 8192

def privateCommandDefLen : Int := 4096

/-- The size of a `struct aicwf_cs_info` -/
def sizeofCsInfo : Nat := 40

def getCsInfo (vif : Vif) (macAddr : List UInt8) : Int :=
  if vif.iftype = .monitor then -einval
  else
    let sta :=
      if vif.iftype = .station ∨ vif.iftype = .p2pClient then vif.hasAp
      else vif.staList.any fun sta => sta.1 && sta.2 == macAddr
    if sta ∨ vif.iftype = .ap then sizeofCsInfo else 0

/-- What is in the variables at the label `exit`. -/
structure AtExit where
  totalLen : Int
  command : Option (List UInt8)
  bytesWritten : Int
  ret : Int

inductive Point where
  | exit (s : AtExit)
  /-- `android_priv_cmd` has returned, has given these bytes to the caller, and has freed this. -/
  | returned (ret : Int) (copied : List UInt8) (freed : Option (List UInt8))
  /-- Memory has been accessed that there is not. -/
  | oops

namespace Ioctl

variable (io : Ioctl)

/-- The length that the function goes by. -/
def totalLen : Int := if io.hasData then io.header.getD io.garbage else io.garbage

/-- `copy_from_user` -/
def copyFromUser (n : Nat) : Option (List UInt8) :=
  if (List.range n).all fun i => (io.user i).isSome then
    some ((List.range n).map fun i => (io.user i).getD 0)
  else none

/-- `strncasecmp(command, cmd, strlen(cmd)) == 0` -/
def startsWith (command : List UInt8) (cmd : String) : Prop :=
  strncasecmp (cString command) (ascii cmd) (ascii cmd).length = 0

instance (command : List UInt8) (cmd : String) : Decidable (startsWith command cmd) :=
  inferInstanceAs (Decidable (_ = _))

/-- The address that a `GET_CS_INFO` names. -/
def csInfoAddr (command : List UInt8) : List UInt8 :=
  (List.range 6).map fun i =>
    (commandStrtoul (cString (command.drop ((ascii "GET_CS_INFO").length + 1 + 3 * i))) 16).toUInt8

/-- The commands that are not left to `handle_private_cmd` and have no answer. -/
def isSetting (command : List UInt8) : Prop :=
  (startsWith command "COUNTRY" ∧ ¬startsWith command "country_set") ∨
    startsWith command "SET_AP_WPS_P2P_IE" ∨ startsWith command "SET_TESTMODE" ∨
      startsWith command "SET_BLE_WAKE"

instance (command : List UInt8) : Decidable (isSetting command) :=
  inferInstanceAs (Decidable (_ ∨ _))

/-- From the command to the label. -/
def runCommand (handlePrivateCmd : List UInt8 → Int × List UInt8) (totalLen : Int)
    (command : List UInt8) : Point :=
  if startsWith command "COUNTRY" ∧ ¬startsWith command "country_set" then
    let country := cString (command.drop ((ascii "COUNTRY").length + 1))
    .exit ⟨totalLen, some command, 0, if country.length < 2 then -einval else 0⟩
  else if startsWith command "SET_AP_WPS_P2P_IE" then .exit ⟨totalLen, some command, 0, 0⟩
  else if startsWith command "SET_TESTMODE" then .exit ⟨totalLen, some command, 0, 0⟩
  else if startsWith command "SET_BLE_WAKE" then .exit ⟨totalLen, some command, 0, 0⟩
  else if startsWith command "GET_CS_INFO" then
    let bytesWritten := getCsInfo io.vif (csInfoAddr command)
    -- `memcpy` takes a negative number for more bytes than there are
    if bytesWritten < 0 then .oops
    else
      let val := (List.range bytesWritten.toNat).map io.vif.csInfo
      .exit ⟨totalLen, some (val ++ command.drop val.length), bytesWritten, 0⟩
  else
    let (bytesWritten, command) := handlePrivateCmd command
    .exit ⟨totalLen, some command, bytesWritten, 0⟩

/-- What the buffer holds when the command has been copied: it and a zero byte, and behind that what
    was in memory. -/
def filled (totalLen : Int) (text : List UInt8) : List UInt8 :=
  text ++ 0 :: ((List.range (max totalLen privateCommandDefLen + 1).toNat).map io.heap).drop
    (text.length + 1)

/-- From the request to the label. -/
def request (handlePrivateCmd : List UInt8 → Int × List UInt8) : Point :=
  if io.hasData = false then .exit ⟨io.garbage, none, 0, -einval⟩
  else
    match io.header with
    | none => .exit ⟨io.garbage, none, 0, -efault⟩
    | some totalLen =>
        if privateCommandMaxLen < totalLen ∨ totalLen < 0 then .exit ⟨totalLen, none, 0, -einval⟩
        else if io.kmalloc = false then .exit ⟨totalLen, none, 0, -enomem⟩
        else
          match io.copyFromUser totalLen.toNat with
          | none =>
              let bufSize := max totalLen privateCommandDefLen
              .exit ⟨totalLen, some ((List.range (bufSize + 1).toNat).map io.heap), 0, -efault⟩
          | some text => io.runCommand handlePrivateCmd totalLen (io.filled totalLen text)

end Ioctl

namespace AtExit

variable (s : AtExit)

/-- An empty answer is an empty string. There is nothing to write it to when there is no buffer. -/
def clear : Option AtExit :=
  if s.bytesWritten = 0 ∧ 0 < s.totalLen then
    s.command.map fun command => { s with command := some (command.set 0 0) }
  else some s

/-- The answer, and one byte more, is given to the caller. -/
def copyOut (io : Ioctl) : Point :=
  match s.command with
  | none => .oops
  | some command =>
      let n := (s.bytesWritten + 1).toNat
      .returned (if io.writable n then s.ret else -efault) (command.take n) (some command)

end AtExit

/-- From the label to where the function returns, or back to the label. -/
def Ioctl.exitTurn (io : Ioctl) : Point → Option Point
  | .exit s =>
      if s.bytesWritten < 0 then some (.returned s.bytesWritten [] s.command)
      else
        match s.clear with
        | none => some .oops
        | some s => if s.totalLen ≤ s.bytesWritten then some (.exit s) else some (s.copyOut io)
  | _ => none

/-- The request is read, its length is accepted, and there is memory for it. -/
def Ioctl.Buffered (io : Ioctl) (totalLen : Int) : Prop :=
  io.hasData ∧ io.header = some totalLen ∧
    0 ≤ totalLen ∧ totalLen ≤ privateCommandMaxLen ∧ io.kmalloc

/-- The property: the function returns, what it gives to the caller fits, and it frees no buffer but
    the one that it has allocated. -/
def Ioctl.Sound (io : Ioctl) (handlePrivateCmd : List UInt8 → Int × List UInt8) : Prop :=
  ∃ ret copied freed,
    Exits io.exitTurn (io.request handlePrivateCmd) (.returned ret copied freed) ∧
      copied.length ≤ io.totalLen.toNat ∧
        (freed.isSome → ∃ totalLen, io.Buffered totalLen)

/-- The condition on a command that has been copied -/
def Ioctl.CommandFits (io : Ioctl) (handlePrivateCmd : List UInt8 → Int × List UInt8)
    (totalLen : Int) (command : List UInt8) : Prop :=
  ¬isSetting command →
    if startsWith command "GET_CS_INFO" then
      io.vif.iftype ≠ .monitor ∧ getCsInfo io.vif (csInfoAddr command) < totalLen
    else (handlePrivateCmd command).1 < totalLen

/-- The condition: the request gets its buffer, and the answer is shorter than the buffer of the
    caller or is an error of `handle_private_cmd`. -/
def Ioctl.Fits (io : Ioctl) (handlePrivateCmd : List UInt8 → Int × List UInt8) : Prop :=
  ∃ totalLen, io.Buffered totalLen ∧
    ∀ text ∈ io.copyFromUser totalLen.toNat,
      io.CommandFits handlePrivateCmd totalLen (io.filled totalLen text)

namespace AtExit

variable {io : Ioctl} {s : AtExit} {ret : Int} {copied : List UInt8} {freed : Option (List UInt8)}

/-- The label is left for good when there is an error to pass on, or a buffer with an answer that is
    shorter than the one of the caller. -/
def Leaves (s : AtExit) : Prop :=
  s.bytesWritten < 0 ∨ s.command.isSome ∧ s.bytesWritten < s.totalLen

theorem clear_some {command : List UInt8} (buffered : s.command = some command) :
    ∃ command', s.clear = some { s with command := some command' } := by
  unfold clear
  split
  · exact ⟨command.set 0 0, by rw [buffered]; rfl⟩
  · exact ⟨command, by rw [← buffered]⟩

theorem exitTurn_error (error : s.bytesWritten < 0) :
    io.exitTurn (.exit s) = some (.returned s.bytesWritten [] s.command) :=
  if_pos error

theorem exitTurn_answer (io : Ioctl) {command : List UInt8} (buffered : s.command = some command)
    (answered : 0 ≤ s.bytesWritten) (fits : s.bytesWritten < s.totalLen) :
    ∃ ret command', io.exitTurn (.exit s) =
      some (.returned ret (command'.take (s.bytesWritten + 1).toNat) (some command')) := by
  obtain ⟨command', cleared⟩ := clear_some buffered
  refine ⟨if io.writable (s.bytesWritten + 1).toNat then s.ret else -efault, command', ?_⟩
  simp [Ioctl.exitTurn, cleared, copyOut, Int.not_lt.mpr answered, Int.not_le.mpr fits]

theorem Leaves.exits (io : Ioctl) (leaves : s.Leaves) :
    ∃ ret copied freed, Exits io.exitTurn (.exit s) (.returned ret copied freed) ∧
      copied.length ≤ s.totalLen.toNat ∧ (freed.isSome → s.command.isSome) := by
  rcases Int.lt_or_le s.bytesWritten 0 with error | answered
  · exact ⟨_, _, _, .next (exitTurn_error error) (.leave rfl), Nat.zero_le _, id⟩
  rcases leaves with error | ⟨buffered, fits⟩
  · omega
  · obtain ⟨command, buffered⟩ := Option.isSome_iff_exists.mp buffered
    obtain ⟨ret, command', taken⟩ := exitTurn_answer io buffered answered fits
    refine ⟨ret, _, some command', .next taken (.leave rfl), ?_, fun _ => by rw [buffered]; rfl⟩
    rw [List.length_take]
    omega

end AtExit

namespace Ioctl

variable {io : Ioctl} {handlePrivateCmd : List UInt8 → Int × List UInt8} {s : AtExit}

end Ioctl

end Aic8800.Priv
