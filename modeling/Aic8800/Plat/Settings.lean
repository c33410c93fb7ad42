import Mathlib
import Aic8800.Plat.UserConfig
import Aic8800.Priv.Line

/-! # The settings of the user configuration

Each call that the parser makes stores one number in the tables of `userconfig_info`, and some
names have two or three places there. Every place is one byte.
-/

namespace Aic8800.Plat.Settings

open Lib UserConfig Priv

/-! ## The tables -/

/-- The members of `userconfig_info`, and the three tables of the loader -/
inductive Table where
  | txpwrLvl
  | txpwrLvlV2
  | txpwrLvlV3
  | txpwrLvlV4
  | txpwrLvlAdj
  | txpwrLoss
  | txpwrOfst
  | txpwrOfst2x
  | txpwrOfst2xV2
  | xtalCap
  | userconfigTxpwrIdx
  | userconfigTxpwrOfst
  | userconfigXtalCap
  deriving DecidableEq

inductive Member where
  | enable
  | dsss
  | ofdmlowrate2g4
  | ofdm64qam2g4
  | ofdm256qam2g4
  | ofdm1024qam2g4
  | ofdmlowrate5g
  | ofdm64qam5g
  | ofdm256qam5g
  | ofdm1024qam5g
  | pwrlvl11b11ag2g4
  | pwrlvl11n11ac2g4
  | pwrlvl11ax2g4
  | pwrlvl11a5g
  | pwrlvl11n11ac5g
  | pwrlvl11ax5g
  | pwrlvlAdjTbl2g4
  | pwrlvlAdjTbl5g
  | lossEnable2g4
  | lossValue2g4
  | lossEnable5g
  | lossValue5g
  | chan1To4
  | chan5To9
  | chan10To13
  | chan36To64
  | chan100To120
  | chan122To140
  | chan142To165
  | pwrofst2xTbl2g4
  | pwrofst2xTbl5g
  | pwrofst2xTbl2g4Ant0
  | pwrofst2xTbl2g4Ant1
  | pwrofst2xTbl5gAnt0
  | pwrofst2xTbl5gAnt1
  | xtalCap
  | xtalCapFine
  deriving DecidableEq

/-- A byte of a table, with the places in a member that is an array -/
structure Cell where
  table : Table
  member : Member
  row : Nat
  column : Nat
  deriving DecidableEq

/-- The rows and columns of a member -/
def Member.size (table : Table) : Member → Nat × Nat
  | .pwrlvl11b11ag2g4 | .pwrlvl11ax2g4 | .pwrlvl11ax5g => (12, 1)
  | .pwrlvl11n11ac2g4 | .pwrlvl11n11ac5g => (10, 1)
  | .pwrlvl11a5g => if table = .txpwrLvlV4 then (8, 1) else (12, 1)
  | .pwrlvlAdjTbl2g4 => (3, 1)
  | .pwrlvlAdjTbl5g => (6, 1)
  | .pwrofst2xTbl2g4 | .pwrofst2xTbl2g4Ant0 | .pwrofst2xTbl2g4Ant1 => (3, 3)
  | .pwrofst2xTbl5g => (3, 6)
  | .pwrofst2xTbl5gAnt0 | .pwrofst2xTbl5gAnt1 => (6, 3)
  | _ => (1, 1)

/-- The byte is inside its array. -/
def Cell.Inside (c : Cell) : Prop :=
  c.row < (c.member.size c.table).1 ∧ c.column < (c.member.size c.table).2

instance (c : Cell) : Decidable c.Inside := inferInstanceAs (Decidable (_ ∧ _))

/-- What the tables hold -/
abbrev Info := Cell → UInt8

/-! ## The names -/

/-- A name that the function compares with, and what it sets -/
abbrev Setting := Bytes × List Cell

/-- The places of `names` in an array, each with its number -/
def numbered (before : String) (names : List String) (after : String) (cells : Nat → List Cell) :
    List Setting :=
  names.mapIdx fun i name => (ascii before ++ (ascii name ++ ascii after), cells i)

/-- The rates of 11b and 11g -/
def rates : List String :=
  ["1m", "2m", "5m5", "11m", "6m", "9m", "12m", "18m", "24m", "36m", "48m", "54m"]

def mcs : List String :=
  ["mcs0", "mcs1", "mcs2", "mcs3", "mcs4", "mcs5", "mcs6", "mcs7", "mcs8", "mcs9", "mcs10", "mcs11"]

def chan2g4 : List String := ["1_4", "5_9", "10_13"]

def chan5g : List String := ["42", "58", "106", "122", "138", "155"]

/-- The first ten settings of the older chips, and of the loader -/
def txpwrLvl (table : Table) : List Setting :=
  [(ascii "dsss", [⟨table, .dsss, 0, 0⟩]),
    (ascii "ofdmlowrate_2g4", [⟨table, .ofdmlowrate2g4, 0, 0⟩]),
    (ascii "ofdm64qam_2g4", [⟨table, .ofdm64qam2g4, 0, 0⟩]),
    (ascii "ofdm256qam_2g4", [⟨table, .ofdm256qam2g4, 0, 0⟩]),
    (ascii "ofdm1024qam_2g4", [⟨table, .ofdm1024qam2g4, 0, 0⟩]),
    (ascii "ofdmlowrate_5g", [⟨table, .ofdmlowrate5g, 0, 0⟩]),
    (ascii "ofdm64qam_5g", [⟨table, .ofdm64qam5g, 0, 0⟩]),
    (ascii "ofdm256qam_5g", [⟨table, .ofdm256qam5g, 0, 0⟩]),
    (ascii "ofdm1024qam_5g", [⟨table, .ofdm1024qam5g, 0, 0⟩])]

/-- The levels at 2.4 GHz, in each of these tables -/
def lvl2g4 (tables : List Table) : List Setting :=
  numbered "lvl_11b_11ag_" rates "_2g4" (fun i => tables.map (⟨·, .pwrlvl11b11ag2g4, i, 0⟩)) ++
    numbered "lvl_11n_11ac_" (mcs.take 10) "_2g4"
      (fun i => tables.map (⟨·, .pwrlvl11n11ac2g4, i, 0⟩)) ++
    numbered "lvl_11ax_" mcs "_2g4" (fun i => tables.map (⟨·, .pwrlvl11ax2g4, i, 0⟩))

/-- The levels at 5 GHz. The newest chip has no places for the rates of 11b. -/
def lvl5g (table : Table) : List Setting :=
  numbered "lvl_11a_" (if table = .txpwrLvlV4 then rates.drop 4 else rates) "_5g"
      (fun i => [⟨table, .pwrlvl11a5g, i, 0⟩]) ++
    numbered "lvl_11n_11ac_" (mcs.take 10) "_5g" (fun i => [⟨table, .pwrlvl11n11ac5g, i, 0⟩]) ++
    numbered "lvl_11ax_" mcs "_5g" (fun i => [⟨table, .pwrlvl11ax5g, i, 0⟩])

def lvlAdj : List Setting :=
  (ascii "lvl_adj_enable", [⟨.txpwrLvlAdj, .enable, 0, 0⟩]) ::
    (numbered "lvl_adj_2g4_chan_" chan2g4 "" (fun i => [⟨.txpwrLvlAdj, .pwrlvlAdjTbl2g4, i, 0⟩]) ++
      numbered "lvl_adj_5g_chan_" chan5g "" (fun i => [⟨.txpwrLvlAdj, .pwrlvlAdjTbl5g, i, 0⟩]))

def loss : List Setting :=
  [(ascii "loss_enable_2g4", [⟨.txpwrLoss, .lossEnable2g4, 0, 0⟩]),
    (ascii "loss_value_2g4", [⟨.txpwrLoss, .lossValue2g4, 0, 0⟩]),
    (ascii "loss_enable_5g", [⟨.txpwrLoss, .lossEnable5g, 0, 0⟩]),
    (ascii "loss_value_5g", [⟨.txpwrLoss, .lossValue5g, 0, 0⟩])]

def ofst (table : Table) : List Setting :=
  [(ascii "ofst_chan_1_4", [⟨table, .chan1To4, 0, 0⟩]),
    (ascii "ofst_chan_5_9", [⟨table, .chan5To9, 0, 0⟩]),
    (ascii "ofst_chan_10_13", [⟨table, .chan10To13, 0, 0⟩]),
    (ascii "ofst_chan_36_64", [⟨table, .chan36To64, 0, 0⟩]),
    (ascii "ofst_chan_100_120", [⟨table, .chan100To120, 0, 0⟩]),
    (ascii "ofst_chan_122_140", [⟨table, .chan122To140, 0, 0⟩]),
    (ascii "ofst_chan_142_165", [⟨table, .chan142To165, 0, 0⟩])]

/-- A row for each kind of rate -/
def ofst2x : List Setting :=
  numbered "ofst_2g4_11b_chan_" chan2g4 "" (fun i => [⟨.txpwrOfst2x, .pwrofst2xTbl2g4, 0, i⟩]) ++
    numbered "ofst_2g4_ofdm_highrate_chan_" chan2g4 ""
      (fun i => [⟨.txpwrOfst2x, .pwrofst2xTbl2g4, 1, i⟩]) ++
    numbered "ofst_2g4_ofdm_lowrate_chan_" chan2g4 ""
      (fun i => [⟨.txpwrOfst2x, .pwrofst2xTbl2g4, 2, i⟩]) ++
    numbered "ofst_5g_ofdm_lowrate_chan_" chan5g ""
      (fun i => [⟨.txpwrOfst2x, .pwrofst2xTbl5g, 0, i⟩]) ++
    numbered "ofst_5g_ofdm_highrate_chan_" chan5g ""
      (fun i => [⟨.txpwrOfst2x, .pwrofst2xTbl5g, 1, i⟩]) ++
    numbered "ofst_5g_ofdm_midrate_chan_" chan5g ""
      (fun i => [⟨.txpwrOfst2x, .pwrofst2xTbl5g, 2, i⟩])

/-- A row for each group of channels, for each antenna -/
def ofst2xV2 : List Setting :=
  numbered "ofst_2g4_ant0_11b_chan_" chan2g4 ""
      (fun i => [⟨.txpwrOfst2xV2, .pwrofst2xTbl2g4Ant0, i, 0⟩]) ++
    numbered "ofst_2g4_ant0_ofdm_highrate_chan_" chan2g4 ""
      (fun i => [⟨.txpwrOfst2xV2, .pwrofst2xTbl2g4Ant0, i, 1⟩]) ++
    numbered "ofst_2g4_ant1_11b_chan_" chan2g4 ""
      (fun i => [⟨.txpwrOfst2xV2, .pwrofst2xTbl2g4Ant1, i, 0⟩]) ++
    numbered "ofst_2g4_ant1_ofdm_highrate_chan_" chan2g4 ""
      (fun i => [⟨.txpwrOfst2xV2, .pwrofst2xTbl2g4Ant1, i, 1⟩]) ++
    numbered "ofst_5g_ant0_ofdm_highrate_chan_" chan5g ""
      (fun i => [⟨.txpwrOfst2xV2, .pwrofst2xTbl5gAnt0, i, 0⟩]) ++
    numbered "ofst_5g_ant1_ofdm_highrate_chan_" chan5g ""
      (fun i => [⟨.txpwrOfst2xV2, .pwrofst2xTbl5gAnt1, i, 0⟩])

def xtal (table : Table) : List Setting :=
  [(ascii "xtal_enable", [⟨table, .enable, 0, 0⟩]),
    (ascii "xtal_cap", [⟨table, .xtalCap, 0, 0⟩]),
    (ascii "xtal_cap_fine", [⟨table, .xtalCapFine, 0, 0⟩])]

/-- The names in the order in which the set-value function of each copy compares with them -/
def settings : Copy → List Setting
  | .fdrv =>
      (ascii "enable", [⟨.txpwrLvl, .enable, 0, 0⟩, ⟨.txpwrLvlV2, .enable, 0, 0⟩,
        ⟨.txpwrLvlV3, .enable, 0, 0⟩]) ::
      (txpwrLvl .txpwrLvl ++ lvl2g4 [.txpwrLvlV2, .txpwrLvlV3] ++ lvl5g .txpwrLvlV3 ++ lvlAdj ++
        loss ++
        (ascii "ofst_enable", [⟨.txpwrOfst, .enable, 0, 0⟩, ⟨.txpwrOfst2x, .enable, 0, 0⟩]) ::
        (ofst .txpwrOfst ++ ofst2x ++ xtal .xtalCap))
  | .fdrv8800d80x2 =>
      (ascii "enable", [⟨.txpwrLvlV4, .enable, 0, 0⟩]) ::
      (lvl2g4 [.txpwrLvlV4] ++ lvl5g .txpwrLvlV4 ++ lvlAdj ++ loss ++
        (ascii "ofst_enable", [⟨.txpwrOfst2xV2, .enable, 0, 0⟩]) :: (ofst2xV2 ++ xtal .xtalCap))
  | .loader =>
      (ascii "enable", [⟨.userconfigTxpwrIdx, .enable, 0, 0⟩]) ::
      (txpwrLvl .userconfigTxpwrIdx ++
        (ascii "ofst_enable", [⟨.userconfigTxpwrOfst, .enable, 0, 0⟩]) ::
        (ofst .userconfigTxpwrOfst ++ xtal .userconfigXtalCap))

/-! ## The functions -/

/-- The loop of `rwnx_atoi` over the rest of the value -/
def atoiLoop (result : Int) : Bytes → Int
  | [] => result
  | c :: rest => if 48 ≤ c ∧ c ≤ 57 then atoiLoop (result * 10 + (c.toNat - 48)) rest else 0

/-- `rwnx_atoi`. The byte that is stored of it is the same if an `int` wraps. -/
def rwnxAtoi (value : Bytes) : Int :=
  if value.headD 0 = 45 then -atoiLoop 0 value.tail else atoiLoop 0 value

/-- The same of the loader, which reckons in `int8_t` -/
def atoi8Loop (result : Int8) : Bytes → Int8
  | [] => result
  | c :: rest =>
      if 48 ≤ c ∧ c ≤ 57 then atoi8Loop (result * 10 + Int8.ofInt (c.toNat - 48)) rest else 0

/-- `rwnx_atoi` of the loader -/
def rwnxAtoi8 (value : Bytes) : Int8 :=
  if value.headD 0 = 45 then atoi8Loop 0 value.tail * -1 else atoi8Loop 0 value

/-- The byte that is stored -/
def stored (v : Copy) (value : Bytes) : UInt8 :=
  match v with
  | .fdrv | .fdrv8800d80x2 => UInt8.ofInt (rwnxAtoi value)
  | .loader => (rwnxAtoi8 value).toUInt8

/-- What a command sets -/
def cellsOf (v : Copy) (command : Bytes) : List Cell :=
  (((settings v).find? fun setting => setting.1 = command).map Prod.snd).getD []

/-- `rwnx_plat_nvram_set_value`, `rwnx_plat_nvram_set_value_8800d80x2` and
    `rwnx_plat_userconfig_set_value` -/
def setValue (v : Copy) (command value : Bytes) (info : Info) : Info :=
  (cellsOf v command).foldl (fun info cell => Function.update info cell (stored v value)) info

/-- A call of it, which reads both texts to their ends -/
def Call.run (v : Copy) (info : Info) (call : Call) : Option Info := do
  let command ← call.command
  let value ← call.value
  return setValue v command value info

/-- The parser, with what its calls do -/
def load (v : Copy) (stack : Stack v) (buffer : Bytes) (size : Nat) (info : Info) :
    Option Info := do
  let s ← rwnxPlatUserconfigParsing v stack buffer size
  s.calls.foldlM (Call.run v) info

/-! ## The names are told apart -/

/-- The bytes of a name as one number, which is compared sooner than they are -/
def numeral (text : Bytes) : Nat := text.foldl (fun n c => n * 256 + c.toNat) 0

theorem names_distinct (v : Copy) : ((settings v).map Prod.fst).Nodup := by
  have numerals : (((settings v).map Prod.fst).map numeral).Nodup := by
    cases v <;> decide +kernel
  exact numerals.of_map numeral

/-- A place as one number -/
def Cell.numeral (c : Cell) : Nat :=
  ((c.table.ctorIdx * 64 + c.member.ctorIdx) * 16 + c.row) * 16 + c.column

theorem cells_distinct (v : Copy) : ((settings v).flatMap Prod.snd).Nodup := by
  have numerals : (((settings v).flatMap Prod.snd).map Cell.numeral).Nodup := by
    cases v <;> decide +kernel
  exact numerals.of_map Cell.numeral

theorem cells_inside (v : Copy) : ∀ s ∈ settings v, ∀ c ∈ s.2, c.Inside := by
  cases v <;> decide +kernel

/-- A letter, a digit or `_` -/
def isWord (c : UInt8) : Bool := Nat.blt 61 c.toNat || (Nat.ble 48 c.toNat && Nat.ble c.toNat 57)

/-- The name has a letter or digit, no other bytes, and leaves room for its end in what is cleared
    of `command`. -/
def isName (v : Copy) (name : Bytes) : Bool :=
  !name.isEmpty && Nat.blt name.length v.cleared && name.all isWord

theorem settings_names (v : Copy) : (settings v).all (fun s => isName v s.1) = true := by
  cases v <;> decide +kernel

theorem isWord_range {c : UInt8} (word : isWord c = true) : 48 ≤ c.toNat ∧ c.toNat ≠ 61 := by
  simp only [isWord, Bool.or_eq_true, Nat.blt_eq, Bool.and_eq_true, Nat.ble_eq] at word
  omega

section Names

variable {v : Copy} {s t : Setting} {c : Cell}

theorem cellsOf_name (known : s ∈ settings v) : cellsOf v (s.1) = s.2 := by
  obtain ⟨t, found⟩ : ∃ t, (settings v).find? (fun t => t.1 = s.1) = some t :=
    Option.isSome_iff_exists.mp (List.find?_isSome.mpr ⟨s, known, decide_eq_true rfl⟩)
  have same : t.1 = s.1 := by simpa using List.find?_some found
  obtain rfl := List.inj_on_of_nodup_map (names_distinct v) (List.mem_of_find?_eq_some found) known
    same
  rw [cellsOf, found]
  rfl

theorem mem_cellsOf {command : Bytes} (member : c ∈ cellsOf v command) :
    ∃ s ∈ settings v, s.1 = command ∧ c ∈ s.2 := by
  rw [cellsOf] at member
  cases found : (settings v).find? (fun s => s.1 = command) with
  | none =>
      rw [found] at member
      cases member
  | some s =>
      rw [found] at member
      exact ⟨s, List.mem_of_find?_eq_some found, by simpa using List.find?_some found, member⟩

theorem name_word (known : s ∈ settings v) :
    s.1 ≠ [] ∧ s.1.length < v.cleared ∧ ∀ c ∈ s.1, isWord c = true := by
  have name := List.all_eq_true.mp (settings_names v) s known
  simp only [isName, Bool.and_eq_true, Bool.not_eq_true', List.isEmpty_eq_false_iff, Nat.blt_eq,
    List.all_eq_true] at name
  exact ⟨name.1.1, name.1.2, name.2⟩

theorem setting_unique (known : s ∈ settings v) (known' : t ∈ settings v) (here : c ∈ s.2)
    (there : c ∈ t.2) : s = t := by
  by_contra other
  have swap : Std.Symm fun s t : Setting => List.Disjoint s.2 t.2 := ⟨fun _ _ h => h.symm⟩
  have disjoint : (settings v).Pairwise fun s t => List.Disjoint s.2 t.2 :=
    (List.nodup_flatMap.mp (cells_distinct v)).2
  exact disjoint.forall known known' other here there

end Names

/-! ## What a number says -/

section Numbers

theorem atoiLoop_append (result : Int) (xs ys : Bytes) (digits : ∀ c ∈ xs, 48 ≤ c ∧ c ≤ 57) :
    atoiLoop result (xs ++ ys) = atoiLoop (atoiLoop result xs) ys := by
  induction xs generalizing result with
  | nil => rfl
  | cons c xs ih =>
      rw [List.forall_mem_cons] at digits
      rw [List.cons_append, atoiLoop, atoiLoop, if_pos digits.1, if_pos digits.1, ih _ digits.2]

theorem atoi8Loop_ofInt (result : Int) (xs : Bytes) :
    atoi8Loop (Int8.ofInt result) xs = Int8.ofInt (atoiLoop result xs) := by
  induction xs generalizing result with
  | nil => rfl
  | cons c xs ih =>
      rw [atoi8Loop, atoiLoop]
      split
      · have next : Int8.ofInt result * 10 + Int8.ofInt (c.toNat - 48) =
            Int8.ofInt (result * 10 + (c.toNat - 48)) := by
          rw [Int8.ofInt_add, Int8.ofInt_mul]
          rfl
        rw [next, ih]
      · rfl

theorem toUInt8_ofInt (n : Int) : (Int8.ofInt n).toUInt8 = UInt8.ofInt n := by
  have small : (n % 256).toNat = (n % 256).toNat % 256 := by omega
  exact UInt8.toBitVec_inj.mp (BitVec.eq_of_toNat_eq (by simpa [UInt8.ofInt] using small))

/-- The loader stores the same byte, although it reckons with fewer bits. -/
theorem stored_eq (v : Copy) (value : Bytes) : stored v value = UInt8.ofInt (rwnxAtoi value) := by
  cases v with
  | fdrv | fdrv8800d80x2 => rfl
  | loader =>
      have loop (xs : Bytes) : atoi8Loop 0 xs = Int8.ofInt (atoiLoop 0 xs) := atoi8Loop_ofInt 0 xs
      rw [stored, rwnxAtoi8, rwnxAtoi, loop, loop]
      split
      · rw [← toUInt8_ofInt, Int8.ofInt_neg, Int8.mul_neg, Int8.mul_one]
      · exact toUInt8_ofInt _

/-- The digit as it is written -/
def digit (d : Nat) : UInt8 := UInt8.ofNat (48 + d)

theorem toNat_digit {d : Nat} (small : d < 10) : (digit d).toNat = 48 + d := by
  rw [digit, UInt8.toNat_ofNat', Nat.mod_eq_of_lt (by omega)]

theorem digit_range {d : Nat} (small : d < 10) : 48 ≤ digit d ∧ digit d ≤ 57 := by
  rw [UInt8.le_iff_toNat_le, UInt8.le_iff_toNat_le, toNat_digit small]
  exact ⟨Nat.le_add_right 48 d, by change 48 + d ≤ 57; omega⟩

theorem isNumeral_digit {d : Nat} (small : d < 10) : isNumeral (digit d) = true := by
  obtain ⟨low, high⟩ := digit_range small
  simp [isNumeral, low, high]

/-- The digits of a number, the lowest last -/
def decimalNat (n : Nat) : Bytes :=
  if n = 0 then [digit 0] else (Nat.digits 10 n).reverse.map digit

def decimal : Int → Bytes
  | .ofNat n => decimalNat n
  | .negSucc n => 45 :: decimalNat (n + 1)

theorem decimalNat_digits (n : Nat) : ∃ ds : List Nat, decimalNat n = ds.map digit ∧ ds ≠ [] ∧
    (∀ d ∈ ds, d < 10) ∧ Nat.ofDigits 10 ds.reverse = n := by
  by_cases zero : n = 0
  · exact ⟨[0], if_pos zero, List.cons_ne_nil 0 [], by decide, by simp [zero]⟩
  · refine ⟨(Nat.digits 10 n).reverse, if_neg zero, ?_, fun d member => ?_, ?_⟩
    · exact fun empty => Nat.digits_ne_nil_iff_ne_zero.mpr zero (List.reverse_eq_nil_iff.mp empty)
    · exact Nat.digits_lt_base (by decide) (List.mem_reverse.mp member)
    · rw [List.reverse_reverse, Nat.ofDigits_digits]

/-- The loop adds digit by digit. -/
theorem atoiLoop_digits {ds : List Nat} (small : ∀ d ∈ ds, d < 10) :
    atoiLoop 0 (ds.map digit) = (Nat.ofDigits 10 ds.reverse : Nat) := by
  induction ds using List.reverseRecOn with
  | nil => rfl
  | append_singleton ds d ih =>
      have last : d < 10 := small d (List.mem_append_right _ List.mem_cons_self)
      have front : ∀ d ∈ ds, d < 10 := fun d member => small d (List.mem_append_left _ member)
      have range : ∀ c ∈ ds.map digit, 48 ≤ c ∧ c ≤ 57 := by
        intro c member
        obtain ⟨d, there, rfl⟩ := List.mem_map.mp member
        exact digit_range (front d there)
      have step : ∀ r, atoiLoop r [digit d] = r * 10 + d := by
        intro r
        rw [atoiLoop, if_pos (digit_range last), atoiLoop, toNat_digit last]
        omega
      rw [List.map_append, atoiLoop_append _ _ _ range, List.map_singleton, step, ih front,
        List.reverse_append, List.reverse_singleton, List.singleton_append, Nat.ofDigits_cons]
      push_cast
      ring

theorem rwnxAtoi_decimal (n : Int) : rwnxAtoi (decimal n) = n := by
  cases n with
  | ofNat n =>
      obtain ⟨ds, written, some, small, value⟩ := decimalNat_digits n
      obtain ⟨d, rest, rfl⟩ := List.exists_cons_of_ne_nil some
      have first : digit d ≠ 45 := by
        intro same
        have range := (digit_range (small d List.mem_cons_self)).1
        rw [same] at range
        exact absurd range (by decide)
      rw [decimal, written, rwnxAtoi, List.map_cons, List.headD_cons, if_neg first, ← List.map_cons,
        atoiLoop_digits small, value]
      rfl
  | negSucc n =>
      obtain ⟨ds, written, -, small, value⟩ := decimalNat_digits (n + 1)
      rw [decimal, rwnxAtoi, List.headD_cons, if_pos rfl, List.tail_cons, written,
        atoiLoop_digits small, value]
      rfl

theorem decimal_ne_nil (n : Int) : decimal n ≠ [] := by
  cases n with
  | ofNat n =>
      obtain ⟨ds, written, some, -, -⟩ := decimalNat_digits n
      rw [decimal, written]
      exact fun empty => some (List.map_eq_nil_iff.mp empty)
  | negSucc n => exact List.cons_ne_nil 45 _

theorem isNumeral_decimal (n : Int) : ∀ c ∈ decimal n, isNumeral c = true := by
  have digits : ∀ n, ∀ c ∈ decimalNat n, isNumeral c = true := by
    intro n c member
    obtain ⟨ds, written, -, small, -⟩ := decimalNat_digits n
    rw [written] at member
    obtain ⟨d, there, rfl⟩ := List.mem_map.mp member
    exact isNumeral_digit (small d there)
  cases n with
  | ofNat n => exact digits n
  | negSucc n => exact List.forall_mem_cons.mpr ⟨rfl, digits (n + 1)⟩

end Numbers

/-! ## The last setting of a place counts -/

/-- The digits that the line sets the place to -/
def Line.sets (v : Copy) (c : Cell) : Line → Option Bytes
  | .setting key value => if c ∈ cellsOf v key then some (value.filter isNumeral) else none
  | .comment _ | .empty => none

/-- The digits of the last line that sets the place -/
def lastOf (v : Copy) (cfg : Config) (c : Cell) : Option Bytes :=
  (cfg.lines.filterMap fun l => Line.sets v c l.1).getLast?

section Loading

variable {v : Copy} {info : Info} {c : Cell}

theorem foldl_update (cells : List Cell) (byte : UInt8) :
    cells.foldl (fun info cell => Function.update info cell byte) info c =
      if c ∈ cells then byte else info c := by
  induction cells generalizing info with
  | nil => rfl
  | cons d cells ih =>
      rw [List.foldl_cons, ih, Function.update_apply]
      by_cases here : c ∈ cells
      · rw [if_pos here, if_pos (List.mem_cons_of_mem d here)]
      · rw [if_neg here]
        simp only [List.mem_cons, here, or_false]

theorem setValue_apply (command value : Bytes) :
    setValue v command value info c =
      if c ∈ cellsOf v command then stored v value else info c := foldl_update _ _

/-- What a line does to the tables -/
def Line.effect (v : Copy) (info : Info) : Line → Info
  | .setting key value => setValue v key (value.filter isNumeral) info
  | .comment _ | .empty => info

theorem effect_apply (line : Line) :
    Line.effect v info line c = ((Line.sets v c line).map (stored v)).getD (info c) := by
  cases line with
  | setting key value =>
      rw [Line.effect, setValue_apply, Line.sets]
      split
      · rfl
      · rfl
  | comment text | empty => rfl

theorem run_expected (line : Line) (info : Info) :
    line.expected.foldlM (Call.run v) info = some (Line.effect v info line) := by
  cases line with
  | setting key value | comment text | empty => rfl

theorem run_lines (lines : List (Line × UInt8)) (info : Info) :
    (expectedOf lines).foldlM (Call.run v) info =
      some (lines.foldl (fun info l => Line.effect v info l.1) info) := by
  induction lines generalizing info with
  | nil => rfl
  | cons l lines ih =>
      have first : (l.1.expected ++ expectedOf lines).foldlM (Call.run v) info =
          (expectedOf lines).foldlM (Call.run v) (Line.effect v info l.1) := by
        rw [List.foldlM_append, run_expected]
        rfl
      exact first.trans (ih _)

theorem effects_apply (lines : List (Line × UInt8)) :
    lines.foldl (fun info l => Line.effect v info l.1) info c =
      (((lines.filterMap fun l => Line.sets v c l.1).getLast?).map (stored v)).getD (info c) := by
  induction lines generalizing info with
  | nil => rfl
  | cons l lines ih =>
      rw [List.foldl_cons, ih, effect_apply]
      cases sets : Line.sets v c l.1 with
      | none => rw [List.filterMap_cons, sets, Option.map_none, Option.getD_none]
      | some value =>
          rw [List.filterMap_cons, sets, List.getLast?_cons]
          cases (lines.filterMap fun l => Line.sets v c l.1).getLast? with
          | none => rfl
          | some later => rfl

theorem Line.sets_inside {line : Line} {value : Bytes} (sets : Line.sets v c line = some value) :
    c.Inside := by
  cases line with
  | setting key value' =>
      rw [Line.sets] at sets
      split at sets
      · rename_i member
        obtain ⟨s, known, -, here⟩ := mem_cellsOf member
        exact cells_inside v s known c here
      · cases sets
  | comment text | empty => cases sets

theorem lastOf_mem {cfg : Config} {value : Bytes} (last : lastOf v cfg c = some value) :
    ∃ l ∈ cfg.lines, Line.sets v c l.1 = some value :=
  List.mem_filterMap.mp (List.mem_of_getLast? last)

/-- The calls of a configuration that is kept, and what they do -/
theorem load_kept {cfg : Config} (kept : cfg.Kept v)
    (fits : ∀ line ∈ cfg.render.splitOnP isEol, Fits v line) (stack : Stack v) (info : Info) :
    ∃ info', load v stack cfg.render cfg.render.length info = some info' ∧
      ∀ c, info' c = ((lastOf v cfg c).map (stored v)).getD (info c) := by
  obtain ⟨⟨t, run, calls⟩, fitLines⟩ := cfg.run stack.ready fits
  have legal : ∀ l ∈ cfg.lines, l.1.Legal := fun l member => (cfg.legal l member).1
  rw [callsIn_of_kept legal fitLines kept.1] at calls
  refine ⟨cfg.lines.foldl (fun info l => Line.effect v info l.1) info, ?_,
    fun c => effects_apply cfg.lines⟩
  have made : t.calls = expectedOf cfg.lines := calls
  rw [load, rwnxPlatUserconfigParsing, List.take_length, run]
  simp only [Option.bind_eq_bind, Option.bind_some, made, run_lines]

end Loading

/-- Whatever the tables held, each place holds the number of the last line of the configuration
    that has a name of it, and what it held if there is none. No other bytes are written. -/
theorem userconfig_last_setting {v : Copy} {cfg : Config} (kept : cfg.Kept v)
    (fits : ∀ line ∈ cfg.render.splitOnP isEol, Fits v line) (stack : Stack v) (info : Info) :
    ∃ info', load v stack cfg.render cfg.render.length info = some info' ∧
      (∀ c, info' c = ((lastOf v cfg c).map (stored v)).getD (info c)) ∧
      ∀ c, info' c ≠ info c → c.Inside := by
  obtain ⟨info', loaded, places⟩ := load_kept kept fits stack info
  refine ⟨info', loaded, places, fun c changed => ?_⟩
  cases last : lastOf v cfg c with
  | none =>
      rw [places, last] at changed
      exact absurd rfl changed
  | some value =>
      obtain ⟨l, -, sets⟩ := lastOf_mem last
      exact Line.sets_inside sets

/-- A name that is set twice, with a comment between -/
def twice : Config where
  lines := [(.setting (ascii "dsss") [49], lf), (.comment [97], cr),
    (.setting (ascii "dsss") [45, 55], lf)]
  last := .empty
  legal := by
    have setting : ∀ value, (∀ c ∈ value, isEol c = false) → (∃ c ∈ value, isNumeral c = true) →
        (Line.setting (ascii "dsss") value).Legal := fun value clean some =>
      ⟨by decide +kernel, by decide +kernel, by decide +kernel, clean, some⟩
    intro l member
    rcases (by simpa using member : l = _ ∨ l = _ ∨ l = _) with rfl | rfl | rfl
    · exact ⟨setting _ (by decide +kernel) ⟨49, .head _, rfl⟩, rfl⟩
    · exact ⟨fun c member => by rw [List.mem_singleton.mp member]; rfl, rfl⟩
    · exact ⟨setting _ (by decide +kernel) ⟨45, .head _, rfl⟩, rfl⟩
  lastLegal := trivial

theorem userconfig_last_setting_twice : ∃ info',
    load .loader (Stack.ones .loader) twice.render twice.render.length (fun _ => 9) = some info' ∧
      info' ⟨.userconfigTxpwrIdx, .dsss, 0, 0⟩ = 249 ∧
      info' ⟨.userconfigTxpwrIdx, .enable, 0, 0⟩ = 9 := by
  have kept : twice.Kept .loader := by
    refine ⟨fun l member => ?_, id⟩
    rcases (by simpa [twice] using member : l = _ ∨ l = _ ∨ l = _) with rfl | rfl | rfl
    · exact ⟨by decide +kernel, by decide +kernel, by decide +kernel, .inr (.inl rfl)⟩
    · trivial
    · exact ⟨by decide +kernel, by decide +kernel, by decide +kernel, .inr (.inl rfl)⟩
  have fits : ∀ line ∈ twice.render.splitOnP isEol, Fits .loader line := by
    unfold Fits
    decide +kernel
  obtain ⟨info', loaded, places, -⟩ :=
    userconfig_last_setting kept fits (Stack.ones .loader) (fun _ => 9)
  exact ⟨info', loaded, (places _).trans (by decide +kernel), (places _).trans (by decide +kernel)⟩

/-! ## A configuration that is written out is read as it was -/

section Written

variable {v : Copy} {wanted : Bytes → Int}

theorem Line.legal_name {s : Setting} (known : s ∈ settings v) (n : Int) :
    (Line.setting s.1 (decimal n)).Legal := by
  obtain ⟨some, -, word⟩ := name_word known
  have plain : ∀ c ∈ s.1, c ≠ lf ∧ c ≠ cr ∧ c ≠ hash ∧ c ≠ equals := by
    intro c member
    obtain ⟨low, other⟩ := isWord_range (word c member)
    refine ⟨?_, ?_, ?_, ?_⟩ <;> rintro rfl <;> revert low other <;> decide
  have numeral : ∀ c ∈ decimal n, isEol c = false := by
    intro c member
    have digit := isNumeral_decimal n c member
    cases eol : isEol c with
    | false => rfl
    | true =>
        rcases (by simpa [isEol] using eol : c = lf ∨ c = cr) with rfl | rfl
        · exact absurd digit (by decide)
        · exact absurd digit (by decide)
  refine ⟨some, fun first => ?_, fun c member => ⟨?_, (plain c member).2.2.2⟩, numeral, ?_⟩
  · exact (plain hash (List.mem_of_mem_head? first)).2.2.1 rfl
  · obtain ⟨notLf, notCr, -, -⟩ := plain c member
    simp [isEol, notLf, notCr]
  · obtain ⟨c, member⟩ := List.exists_mem_of_ne_nil (decimal n) (decimal_ne_nil n)
    exact ⟨c, member, isNumeral_decimal n c member⟩

/-- A line for each name that the copy knows -/
def written (v : Copy) (wanted : Bytes → Int) : Config where
  lines := (settings v).map fun s => (.setting s.1 (decimal (wanted s.1)), lf)
  last := .empty
  legal := by
    intro l member
    obtain ⟨s, known, rfl⟩ := List.mem_map.mp member
    exact ⟨Line.legal_name known (wanted s.1), rfl⟩
  lastLegal := trivial

theorem filter_decimal (n : Int) : (decimal n).filter isNumeral = decimal n :=
  List.filter_eq_self.mpr (isNumeral_decimal n)

theorem sets_name {s : Setting} (known : s ∈ settings v) (n : Int) (c : Cell) :
    Line.sets v c (.setting s.1 (decimal n)) = if c ∈ s.2 then some (decimal n) else none := by
  rw [Line.sets, cellsOf_name known, filter_decimal]

theorem lastOf_written {s : Setting} {c : Cell} (known : s ∈ settings v) (here : c ∈ s.2) :
    lastOf v (written v wanted) c = some (decimal (wanted s.1)) := by
  have sets := sets_name known (wanted s.1) c
  rw [if_pos here] at sets
  cases last : lastOf v (written v wanted) c with
  | none =>
      have empty := List.getLast?_eq_none_iff.mp last
      have member : decimal (wanted s.1) ∈
          (written v wanted).lines.filterMap fun l => Line.sets v c l.1 :=
        List.mem_filterMap.mpr ⟨_, List.mem_map_of_mem known, sets⟩
      rw [empty] at member
      cases member
  | some value =>
      obtain ⟨l, member, sets'⟩ := lastOf_mem last
      obtain ⟨t, known', rfl⟩ := List.mem_map.mp member
      rw [sets_name known'] at sets'
      split at sets'
      · rename_i there
        obtain rfl := setting_unique known known' here there
        exact sets'.symm
      · cases sets'

theorem lastOf_unknown {c : Cell} (unknown : ∀ s ∈ settings v, c ∉ s.2) :
    lastOf v (written v wanted) c = none := by
  cases last : lastOf v (written v wanted) c with
  | none => rfl
  | some value =>
      obtain ⟨l, member, sets⟩ := lastOf_mem last
      obtain ⟨s, known, rfl⟩ := List.mem_map.mp member
      rw [sets_name known, if_neg (unknown s known)] at sets
      cases sets

/-- The bytes that a place can hold, with a sign or without -/
def InByte (n : Int) : Prop := -128 ≤ n ∧ n < 256

theorem length_decimal {n : Int} (small : InByte n) : (decimal n).length ≤ 4 := by
  have digits : ∀ n < 256, (decimalNat n).length ≤ 3 := by
    intro n small
    rw [decimalNat]
    split
    · exact Nat.le_of_ble_eq_true rfl
    · rw [List.length_map, List.length_reverse]
      exact (Nat.digits_length_le_iff (by decide) n).mpr (by omega)
  obtain ⟨low, high⟩ := small
  cases n with
  | ofNat n => exact Nat.le_succ_of_le (digits n (Int.ofNat_lt.mp high))
  | negSucc n => exact Nat.succ_le_succ (digits (n + 1) (by omega))

theorem written_kept (small : ∀ s ∈ settings v, InByte (wanted s.1)) :
    (written v wanted).Kept v := by
  refine ⟨fun l member => ?_, id⟩
  obtain ⟨s, known, rfl⟩ := List.mem_map.mp member
  obtain ⟨-, room, word⟩ := name_word known
  have short := length_decimal (small s known)
  refine ⟨fun zero => ?_, room, ?_, .inr (.inl (filter_decimal _).symm)⟩
  · exact absurd (isWord_range (word 0 zero)).1 (by decide)
  · rw [filter_decimal]
    exact Nat.lt_of_le_of_lt short (by decide)

theorem written_fits (small : ∀ s ∈ settings v, InByte (wanted s.1)) :
    ∀ line ∈ (written v wanted).render.splitOnP isEol, Fits v line := by
  rw [Config.render_eq, splitOnP_flatten (Config.split_lines _), Config.map_split]
  intro line member
  rcases List.mem_append.mp member with there | last
  · obtain ⟨l, listed, rfl⟩ := List.mem_map.mp there
    obtain ⟨s, known, rfl⟩ := List.mem_map.mp listed
    have legal := Line.legal_name known (wanted s.1)
    obtain ⟨some, room, word⟩ := name_word known
    have first : s.1.head? ≠ Option.some 0 := fun zero =>
      absurd (isWord_range (word 0 (List.mem_of_mem_head? zero))).1 (by decide)
    have notHash : (Line.setting s.1 (decimal (wanted s.1))).render.head? ≠ Option.some hash :=
      render_head legal
    have short := length_decimal (small s known)
    have keptShort : (kept v (decimal (wanted s.1))).length ≤ valueSize := by
      rw [kept, filter_decimal, ite_self]
      exact Nat.le_trans short (by decide)
    rw [Fits, if_neg notHash, keyOf_render legal first, behindKey_render legal first]
    exact ⟨Nat.le_trans (Nat.le_of_lt room) v.cleared_le, keptShort⟩
  · obtain rfl := List.mem_singleton.mp last
    cases v with
    | fdrv | fdrv8800d80x2 | loader => exact ⟨Nat.zero_le _, Nat.zero_le _⟩

end Written

/-- A file with a line for each name gives each place of a name the number that is written for the
    name, whatever was there, and leaves the other places as they were. -/
theorem userconfig_round_trip {v : Copy} {wanted : Bytes → Int}
    (small : ∀ s ∈ settings v, InByte (wanted s.1)) (stack : Stack v) (info : Info) :
    ∃ info', load v stack (written v wanted).render (written v wanted).render.length info =
        some info' ∧
      (∀ s ∈ settings v, ∀ c ∈ s.2, info' c = UInt8.ofInt (wanted s.1)) ∧
      ∀ c, (∀ s ∈ settings v, c ∉ s.2) → info' c = info c := by
  obtain ⟨info', loaded, places⟩ := load_kept (written_kept small) (written_fits small) stack info
  refine ⟨info', loaded, fun s known c here => ?_, fun c unknown => ?_⟩
  · rw [places, lastOf_written known here, Option.map_some, Option.getD_some, stored_eq,
      rwnxAtoi_decimal]
  · rw [places, lastOf_unknown unknown]
    rfl

theorem userconfig_round_trip_negative : ∃ info',
    load .fdrv (Stack.ones .fdrv) (written .fdrv fun _ => -5).render
        (written .fdrv fun _ => -5).render.length (fun _ => 9) = some info' ∧
      (∀ s ∈ settings .fdrv, ∀ c ∈ s.2, info' c = UInt8.ofInt (-5)) ∧
      ∀ c, (∀ s ∈ settings .fdrv, c ∉ s.2) → info' c = 9 :=
  userconfig_round_trip (fun _ _ => ⟨by decide, by decide⟩) (Stack.ones .fdrv) fun _ => 9

end Aic8800.Plat.Settings
