import Aic8800.Lib.Texts
import Mathlib

/-! # The parser of the power limits

`rwnx_plat_powerlimit_parsing` with what it calls, and the two functions that look a limit up. A
pointer is told by the memory from where it points to on, and has no result where it leaves the
buffer or an array, or where a name is freed that was never set. The build is one with
`CONFIG_POWER_LIMIT`.
-/

namespace Aic8800.PowerLimit

open Lib

abbrev Bytes := List UInt8

/-- What the parser finds around it: what is printed, and which calls of `kmalloc` succeed -/
structure Env where
  logError : Bool
  logInfo : Bool
  kmalloc : Nat → Bool

/-- What a message is printed with: strings in arrays, that have to end there -/
def printed (on : Bool) (strings : List Bytes) : Option Unit :=
  if on ∧ ∃ s ∈ strings, 0 ∉ s then none else some ()

/-! ## Characters -/

def newline : UInt8 := 10

def hash : UInt8 := 35

def comma : UInt8 := 44

def space : UInt8 := 32

def isBlank (c : UInt8) : Bool := c == space || c == 9

def isDigit (c : UInt8) : Bool := 48 ≤ c && c ≤ 57

/-- A digit or a sign -/
def isNumeral (c : UInt8) : Bool := isDigit c || c == 43 || c == 45

def isWord (c : UInt8) : Bool := c != space && c != 9 && c != 0

/-- `data[cnt] == ' ' || data[cnt] == '\t' || data[cnt] == '\0'`, for the first `size` -/
def isAllSpaceOrTab : Bytes → Nat → Option Bool
  | _, 0 => some true
  | [], _ + 1 => none
  | c :: data, size + 1 =>
      match isAllSpaceOrTab data size with
      | none => none
      | some all => some ((isBlank c || c == 0) && all)

/-- `*szStr == '#' && *(szStr + 1) == ' '` -/
def isCommentString (szStr : Bytes) : Option Bool := Texts.startsWith [hash, space] szStr

/-- The field between the qualifiers, in `out`, and what is behind it, if there is one -/
def parseQualifiedString (s out : Bytes) (left right : UInt8) : Option (Option (Bytes × Bytes)) := do
  if (← s[0]?) ≠ left then return none
  else
    let (field, s) ← Texts.span (fun c => c != right && c != 0) (s.drop 1)
    if (← s[0]?) = 0 then return none
    else return some (← Cells.copy field out, s.drop 1)

/-- The number is accumulated in a byte. -/
def getU1ByteIntegerFromStringInDecimal : Bytes → UInt8 → Option (Option UInt8)
  | [], _ => none
  | c :: str, val =>
      if c = 0 then some (some val)
      else if isDigit c then getU1ByteIntegerFromStringInDecimal str (val * 10 + (c - 48))
      else some none

/-- The turns of the next function behind the sign -/
def getS1Digits : Bytes → Int8 → Option (Option Int8)
  | [], _ => none
  | c :: str, val =>
      if c = 0 then some (some val)
      else if isDigit c then getS1Digits str (val * 10 + (c - 48).toInt8)
      else some none

def getS1ByteIntegerFromStringInDecimal (str : Bytes) : Option (Option Int8) := do
  let c ← str[0]?
  if c = 43 then getS1Digits (str.drop 1) 0
  else if c = 45 then return (← getS1Digits (str.drop 1) 0).map (- ·)
  else getS1Digits str 0

/-! ## The table -/

inductive Band where
  | phyBand2g4
  | phyBand5g
  deriving DecidableEq

/-- `MAX_2_4G_BW_NUM`, `MAX_5G_BW_NUM` -/
def Band.bwNum : Band → Nat
  | phyBand2g4 => 2
  | phyBand5g => 3

/-- `MAC_DOMAINCHANNEL_24G_MAX`, `MAC_DOMAINCHANNEL_5G_MAX` -/
def Band.channelMax : Band → Nat
  | phyBand2g4 => 14
  | phyBand5g => 28

/-- `PHY_CHNL_BW_20`, `PHY_CHNL_BW_40`, `PHY_CHNL_BW_80` -/
inductive Bandwidth where
  | bw20
  | bw40
  | bw80
  deriving DecidableEq

def Bandwidth.idx : Bandwidth → Nat
  | bw20 => 0
  | bw40 => 1
  | bw80 => 2

/-- `MAX_REGION_NUM` -/
def maxRegionNum : Nat := 5

/-- `POWER_LIMIT_INVALID_VAL` -/
def invalidVal : Int8 := 127

/-- The first `ch_cnt` entries of `ch_num` and of `max_pwr` -/
structure Limits (channelMax : Nat) where
  entries : List (UInt8 × Int8)
  fits : entries.length ≤ channelMax

/-- An entry that there is no room for is left out. -/
def Limits.push {n : Nat} (l : Limits n) (channelNum : UInt8) (powerLimit : Int8) : Limits n :=
  if room : l.entries.length < n then
    ⟨l.entries ++ [(channelNum, powerLimit)], by simpa using room⟩
  else l

/-- `txpwr_lmt_info_t`, by the bandwidth -/
structure TxpwrLmtInfo where
  lmt2g4 : Nat → Limits Band.phyBand2g4.channelMax
  lmt5g : Nat → Limits Band.phyBand5g.channelMax

/-- `flags & POWER_LIMIT_CC_MATCHED_BIT`, and `txpwr_lmt` by the region -/
structure PowerlimitInfo where
  ccMatched : Bool
  txpwrLmt : Nat → TxpwrLmtInfo

namespace PowerlimitInfo

/-- `memset(&powerlimit_info, 0, sizeof(powerlimit_info_t))` -/
def cleared : PowerlimitInfo where
  ccMatched := false
  txpwrLmt := fun _ => ⟨fun _ => ⟨[], Nat.zero_le _⟩, fun _ => ⟨[], Nat.zero_le _⟩⟩

def push (info : PowerlimitInfo) (regIdx : Nat) (band : Band) (bw : Nat) (channelNum : UInt8)
    (powerLimit : Int8) : PowerlimitInfo :=
  { info with
    txpwrLmt := fun r =>
      if r = regIdx then
        match band with
        | .phyBand2g4 => { info.txpwrLmt r with
            lmt2g4 := fun w =>
              if w = bw then ((info.txpwrLmt r).lmt2g4 w).push channelNum powerLimit
              else (info.txpwrLmt r).lmt2g4 w }
        | .phyBand5g => { info.txpwrLmt r with
            lmt5g := fun w =>
              if w = bw then ((info.txpwrLmt r).lmt5g w).push channelNum powerLimit
              else (info.txpwrLmt r).lmt5g w }
      else info.txpwrLmt r }

/-- The entries of a region, a band and a bandwidth, where the arrays have them -/
def entries (info : PowerlimitInfo) (rIdx : Nat) (band : Band) (bw : Nat) :
    Option (List (UInt8 × Int8)) :=
  if rIdx < maxRegionNum ∧ bw < band.bwNum then
    match band with
    | .phyBand2g4 => some ((info.txpwrLmt rIdx).lmt2g4 bw).entries
    | .phyBand5g => some ((info.txpwrLmt rIdx).lmt5g bw).entries
  else none

end PowerlimitInfo

/-- `"SRRC"`, `"FCC"`, `"ETSI"`, `"JP"`, `"UNSET"` -/
def srrc : Bytes := [83, 82, 82, 67]

def fcc : Bytes := [70, 67, 67]

def etsi : Bytes := [69, 84, 83, 73]

def jp : Bytes := [74, 80]

def unset : Bytes := [85, 78, 83, 69, 84]

def getRegionIndex (name : Bytes) : Option Nat := do
  if ← Texts.startsWith srrc name then return 0
  else if ← Texts.startsWith fcc name then return 1
  else if ← Texts.startsWith etsi name then return 2
  else if ← Texts.startsWith jp name then return 3
  else if ← Texts.startsWith unset name then return 4
  else return 4

/-- `rwnx_plat_powerlimit_save`, with no table where it returns -1 -/
def powerlimitSave (env : Env) (info : PowerlimitInfo) (band : Band) (channel : Bytes)
    (bw : Nat) (limit name : Bytes) : Option (Option PowerlimitInfo) := do
  match ← getU1ByteIntegerFromStringInDecimal channel 0 with
  | none =>
      printed env.logError [channel, limit]
      return none
  | some channelNum =>
      match ← getS1ByteIntegerFromStringInDecimal limit with
      | none =>
          printed env.logError [channel, limit]
          return none
      | some powerLimit =>
          let regIdx ← getRegionIndex name
          -- `ch_cnt_2g4[bw]` or `ch_cnt_5g[bw]`
          let found ← info.entries regIdx band bw
          printed env.logInfo [channel, limit]
          printed (env.logError && band.channelMax ≤ found.length) [channel, limit]
          return some (info.push regIdx band bw channelNum powerLimit)

/-! ## The names of the regions -/

/-- The calls of `kmalloc` so far, and those whose memory is not freed yet -/
structure Heap where
  calls : Nat
  live : List Nat

namespace Heap

def kmalloc (h : Heap) (env : Env) : Option Nat × Heap :=
  if env.kmalloc h.calls then (some h.calls, ⟨h.calls + 1, h.calls :: h.live⟩)
  else (none, ⟨h.calls + 1, h.live⟩)

def kfree (h : Heap) (id : Nat) : Option Heap :=
  if id ∈ h.live then some { h with live := h.live.erase id } else none

end Heap

/-- An entry of `reg_name` -/
inductive Slot where
  /-- What `kmalloc` left there -/
  | unset
  | null
  | string (id : Nat) (text : Bytes)

/-- Frees the first `n` names. -/
def freeSlots : Nat → List Slot → Heap → Option Heap
  | 0, _, heap => some heap
  | _ + 1, [], _ | _ + 1, .unset :: _, _ => none
  | n + 1, .null :: slots, heap => freeSlots n slots heap
  | n + 1, .string id _ :: slots, heap =>
      match heap.kfree id with
      | none => none
      | some heap => freeSlots n slots heap

/-- Loads `n` names, and says whether that went well. -/
def loadNames (env : Env) : Nat → Bytes → Heap → Option (List Slot × Heap × Bool)
  | 0, _, heap => some ([], heap, true)
  | n + 1, s, heap =>
      match Texts.skip isBlank s with
      | none => none
      | some s =>
          match Texts.span isWord s with
          | none => none
          | some (word, s) =>
              match heap.kmalloc env with
              | (none, heap) => some (.null :: List.replicate n .unset, heap, false)
              | (some id, heap) =>
                  match loadNames env n s heap with
                  | none => none
                  | some (slots, heap, well) =>
                      some (.string id (word ++ [0]) :: slots, heap, well)

/-! ## The lines -/

inductive Stage where
  | excMapping
  | tabDefine
  | tabStart
  | columnDefine
  | chRow
  deriving DecidableEq

structure LoadState where
  loadingStage : Stage
  bandCc : Band
  bwCc : Bandwidth
  colNum : UInt8
  /-- `reg_name`, with its own memory -/
  regName : Option (Nat × List Slot)
  info : PowerlimitInfo
  heap : Heap

namespace LoadState

def init : LoadState where
  loadingStage := .excMapping
  bandCc := .phyBand2g4
  bwCc := .bw20
  colNum := 0
  regName := none
  info := .cleared
  heap := ⟨0, []⟩

/-- What is done at the end of a table, and behind `exit` -/
def freeNames (s : LoadState) : Option Heap :=
  match s.regName with
  | none => some s.heap
  | some (id, slots) => do
      let heap ← freeSlots s.colNum.toNat slots s.heap
      heap.kfree id

/-- What a line leads to -/
inductive Outcome where
  | next (s : LoadState)
  | exit (s : LoadState)

open Outcome

/-- `"2.4G"`, `"5G"` -/
def label2g4 : Bytes := [50, 46, 52, 71]

def label5g : Bytes := [53, 71]

/-- `"20M"`, `"40M"`, `"80M"` -/
def label20m : Bytes := [50, 48, 77]

def label40m : Bytes := [52, 48, 77]

def label80m : Bytes := [56, 48, 77]

/-- `"START"`, `"END"`, `"127"` -/
def startLabel : Bytes := [83, 84, 65, 82, 84]

def endLabel : Bytes := [69, 78, 68]

def invalidText : Bytes := [49, 50, 55]

/-- `band`, `bandwidth`, `colNumBuf`, `channel` and `powerLimit` -/
def zeroed : Bytes := List.replicate 10 0

/-- The band of a label. One that is not known leaves it as it was. -/
def bandOf (label : Bytes) (before : Band) : Option Band := do
  if ← Texts.startsWith label2g4 label then return .phyBand2g4
  else if ← Texts.startsWith label5g label then return .phyBand5g
  else return before

def bandwidthOf (label : Bytes) (before : Bandwidth) : Option Bandwidth := do
  if ← Texts.startsWith label20m label then return .bw20
  else if ← Texts.startsWith label40m label then return .bw40
  else if ← Texts.startsWith label80m label then return .bw80
  else return before

variable (env : Env) (s : LoadState)

/-- `szLine[0] == '#' && szLine[1] == '#'` -/
def isTagged (szLine : Bytes) : Option Bool := Texts.startsWith [hash, hash] szLine

/-- `szLine[0] == '#' || szLine[1] == '#'` -/
def hasHash (szLine : Bytes) : Option Bool := do
  if (← szLine[0]?) = hash then return true
  else return (← szLine[1]?) == hash

/-- The label of a table. There are no names yet, so `exit` looks at nothing that is set here. -/
def tabDefine (szLine : Bytes) : Option Outcome := do
  if !(← isTagged szLine) then return next s
  else
    let behind ← Texts.skip isBlank (szLine.drop 2)
    -- `szLine[--i] = ' '`, the character in front
    match ← parseQualifiedString (space :: behind) zeroed space comma with
    | none => return exit s
    | some (band, behind) =>
        let bandCc ← bandOf band s.bandCc
        match ← parseQualifiedString behind zeroed space comma with
        | none => return exit s
        | some (bandwidth, behind) =>
            let bwCc ← bandwidthOf bandwidth s.bwCc
            match ← parseQualifiedString behind zeroed hash hash with
            | none => return exit s
            | some (colNumBuf, _) =>
                match ← getU1ByteIntegerFromStringInDecimal colNumBuf 0 with
                | none =>
                    printed env.logError [colNumBuf]
                    return exit s
                | some colNum =>
                    if colNum = 0 then return exit s
                    else
                      printed env.logInfo [band, bandwidth]
                      return next { s with
                        loadingStage := .tabStart
                        bandCc := bandCc
                        bwCc := bwCc
                        colNum := colNum }

def tabStart (szLine : Bytes) : Option Outcome := do
  if !(← isTagged szLine) then return next s
  else
    let behind ← Texts.skip isBlank (szLine.drop 2)
    if ← Texts.startsWith startLabel behind then
      return next { s with loadingStage := .columnDefine }
    else return exit s

def columnDefine (szLine : Bytes) : Option Outcome := do
  if !(← isTagged szLine) then return next s
  else
    let behind ← Texts.skip isBlank (szLine.drop 2)
    match s.heap.kmalloc env with
    | (none, heap) => return exit { s with heap := heap }
    | (some id, heap) =>
        let (slots, heap, well) ← loadNames env s.colNum.toNat behind heap
        let loaded := { s with regName := some (id, slots), heap := heap }
        if well then return next { loaded with loadingStage := .chRow }
        else return exit loaded

/-- A limit, in `powerLimit`, and what is behind it, if there is one -/
def loadLimit (behind : Bytes) : Option (Option (Bytes × Bytes)) := do
  let behind ← Texts.skip isBlank behind
  -- `szLine[i] == 'N' && szLine[i + 1] == 'A'`
  if ← Texts.startsWith [78, 65] behind then
    return some (← Cells.copy invalidText zeroed, behind.drop 2)
  else if isNumeral (← behind[0]?) then return some (← Texts.load isNumeral zeroed 0 behind)
  else
    -- the message is printed with two characters
    if env.logError then
      let _ ← behind[1]?
      return none
    else return none

/-- The turns of the loop over the columns that are left -/
def loadLimits (channel : Bytes) : Nat → List Slot → Bytes → LoadState → Option Outcome
  | 0, _, _, s => some (next s)
  | n + 1, slots, behind, s => do
      match ← loadLimit env behind with
      | none => return exit s
      | some (powerLimit, behind) =>
          match slots with
          | .string _ name :: slots =>
              match ← powerlimitSave env s.info s.bandCc channel s.bwCc.idx powerLimit name with
              | none => return exit s
              | some info => loadLimits channel n slots behind { s with info := info }
          | _ => none

/-- `(szLine[0] != 'c' && szLine[0] != 'C') || (szLine[1] != 'h' && szLine[1] != 'H')`, negated -/
def isChannel (szLine : Bytes) : Option Bool := do
  let c ← szLine[0]?
  if c = 99 ∨ c = 67 then
    let h ← szLine[1]?
    return h == 104 || h == 72
  else return false

def chRow (szLine : Bytes) : Option Outcome := do
  if ← isTagged szLine then
    let behind ← Texts.skip isBlank (szLine.drop 2)
    if ← Texts.startsWith endLabel behind then
      return next { s with
        loadingStage := .tabDefine
        heap := ← s.freeNames
        regName := none
        colNum := 0 }
    else return exit s
  else if !(← isChannel szLine) then
    if env.logError then
      let _ ← szLine[1]?
      return next s
    else return next s
  else
    let (channel, behind) ← Texts.load isDigit zeroed 0 (szLine.drop 2)
    match s.regName with
    | none => none
    | some (_, slots) => loadLimits env channel s.colNum.toNat slots behind s

/-- The body of the loop -/
def step (szLine : Bytes) : Option Outcome := do
  if ← isAllSpaceOrTab szLine 1 then return next s
  else if ← isCommentString szLine then return next s
  else
    match s.loadingStage with
    | .excMapping =>
        if ← hasHash szLine then
          tabDefine env { s with loadingStage := .tabDefine } szLine
        else return next s
    | .tabDefine => tabDefine env s szLine
    | .tabStart => tabStart s szLine
    | .columnDefine => columnDefine env s szLine
    | .chRow => chRow env s szLine

end LoadState

open LoadState

/-- The loop over the lines, up to `exit` -/
def parseLines (env : Env) (s : LoadState) (ptmp : Bytes) : Option LoadState :=
  match found : Texts.strsep newline 0 ptmp with
  | none => none
  | some (szLine, ptmp') =>
      match s.step env szLine with
      | none => none
      | some (.exit s) => some s
      | some (.next s) =>
          match ptmp', found with
          | none, _ => some { s with info := { s.info with ccMatched := true } }
          | some ptmp', _ => parseLines env s ptmp'
termination_by ptmp.length
decreasing_by exact Texts.strsep_shorter ‹_›

/-- `rwnx_plat_powerlimit_parsing`, with the table and the memory that it leaves -/
def rwnxPlatPowerlimitParsing (env : Env) (buffer : Bytes) : Option (PowerlimitInfo × Heap) := do
  let s ← parseLines env .init buffer
  return (s.info, ← s.freeNames)

/-! ## Looking a limit up -/

def phyChannelToFreq (band : Band) (channel : UInt8) : UInt16 :=
  if band = .phyBand2g4 ∧ 1 ≤ channel ∧ channel ≤ 14 then
    if channel = 14 then 2484 else 2407 + channel.toUInt16 * 5
  else if band = .phyBand5g ∧ 1 ≤ channel ∧ channel ≤ 165 then 5000 + channel.toUInt16 * 5
  else 0

namespace PowerlimitInfo

variable (info : PowerlimitInfo)

def getPowerlimitByFreq (band : Band) (freq : UInt16) (rIdx : Nat) : Option Int8 :=
  if ¬info.ccMatched then some invalidVal
  else
    match info.entries rIdx band 0 with
    | none => none
    | some found =>
        match found.find? fun entry => freq == phyChannelToFreq band entry.1 with
        | none => some invalidVal
        | some entry => some entry.2

def getPowerlimitByChnum (chnum : UInt8) (rIdx bw : Nat) : Option Int8 :=
  if ¬info.ccMatched then some invalidVal
  else if chnum ≤ 14 then search chnum (info.entries rIdx .phyBand2g4 bw)
  else if chnum ≤ 165 then search chnum (info.entries rIdx .phyBand5g bw)
  else some invalidVal
where
  search (chnum : UInt8) : Option (List (UInt8 × Int8)) → Option Int8
    | none => none
    | some found =>
        match found.find? fun entry => chnum == entry.1 with
        | none => some invalidVal
        | some entry => some entry.2

end PowerlimitInfo

end Aic8800.PowerLimit
