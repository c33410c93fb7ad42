import Aic8800.Priv.Handlers
import Mathlib

/-! # What a private command reads and writes

The command is looked up by its first argument. Some handlers do not ask whether the argument that
they read is there, or ask for one too few, and one of them takes an argument for the number of
words that it copies.
-/

namespace Aic8800.Priv

open Lib Traced

namespace AicPrivCmd

section Inside

variable (c : Call) {size : Nat}

@[simp] theorem value_func (base : UInt32) :
    (func c base).value = .ok (if 1 < c.argc then (c.number 1 base).toUInt8 else 0) := by
  unfold func
  split <;> rfl

@[simp] theorem all_func (base : UInt32) : (func c base).All (Event.Inside c.argc size) := by
  simp [func]

theorem setTx_inside : (setTx c).All (Event.Inside c.argc size) := by
  simp [setTx]
  grind

theorem order_inside (cmd : Rftest) : (order c cmd).All (Event.Inside c.argc size) := by
  simp [order]

theorem query_inside (room : 128 ≤ size) (cmd : Rftest) {n : Nat} (few : n ≤ 128) :
    (query c cmd n).All (Event.Inside c.argc size) := by
  simp [query]
  omega

theorem setRx_inside : (setRx c).All (Event.Inside c.argc size) := by
  simp [setRx]
  omega

theorem setTxTone_inside (called : 0 < c.argc) : (setTxTone c).All (Event.Inside c.argc size) := by
  simp [setTxTone]
  omega

theorem setRxMeter_inside : (setRxMeter c).All (Event.Inside c.argc size) ↔ 1 < c.argc := by
  simp [setRxMeter]

theorem setSetPower_inside : (setSetPower c).All (Event.Inside c.argc size) ↔
    1 < c.argc ∧ (c.chipid = .aic8801 → 2 < c.argc) := by
  simp [setSetPower]
  grind

theorem setByte_inside (room : 128 ≤ size) (cmd : Rftest) (base : UInt32) :
    (setByte c cmd base).All (Event.Inside c.argc size) := by
  simp [setByte]
  omega

theorem setAddr_inside (cmd : Rftest) : (setAddr c cmd).All (Event.Inside c.argc size) := by
  simp [setAddr]
  omega

theorem vendorInfoLen_le : vendorInfoLen c ≤ 2 := by
  unfold vendorInfoLen
  split <;> decide

theorem setVendorInfo_inside (room : 128 ≤ size) :
    (setVendorInfo c).All (Event.Inside c.argc size) ↔ 1 < c.argc := by
  have few := vendorInfoLen_le c
  simp [setVendorInfo]
  omega

theorem rdwrPwrmm_inside (room : 128 ≤ size) : (rdwrPwrmm c).All (Event.Inside c.argc size) := by
  simp [rdwrPwrmm]
  grind

theorem rdwrPwridx_inside (room : 128 ≤ size) : (rdwrPwridx c).All (Event.Inside c.argc size) := by
  simp [rdwrPwridx]
  grind

/-- The last of the places that a loop comes to decides. -/
theorem range_below {k n m : Nat} : (∀ i ∈ List.range n, k + i < m) ↔ n = 0 ∨ k + n ≤ m := by
  simp only [List.mem_range]
  cases n with
  | zero => simp
  | succ n =>
      constructor
      · intro each
        exact .inr (each n (Nat.lt_succ_self n))
      · intro enough i below
        omega

/-- All the levels of a group are read, to the last. -/
theorem levels_inside {n : Nat} (few : n ≤ 12) (buf : Vector UInt8 14) :
    (levels c n buf).All (Event.Inside c.argc size) ↔ n = 0 ∨ 3 + n ≤ c.argc := by
  rw [← range_below]
  apply all_foldlM
  · intro buf idx
    simp
  · intro buf idx member
    rw [List.mem_range] at member
    simp
    omega

theorem pwrlvlSize_le (grp : UInt8) : pwrlvlSize grp ≤ 12 := by
  unfold pwrlvlSize
  split <;> decide

theorem pwrlvlSize_pos (grp : UInt8) : 0 < pwrlvlSize grp := by
  unfold pwrlvlSize
  split <;> decide

theorem writePwrlvl_inside (func : UInt8) :
    (writePwrlvl c func).All (Event.Inside c.argc size) ↔
      (12 < c.argc → pwrlvlSize (c.number 2 16).toUInt8 + 3 ≤ c.argc) := by
  have few := pwrlvlSize_le (c.number 2 16).toUInt8
  have some := pwrlvlSize_pos (c.number 2 16).toUInt8
  simp [writePwrlvl, levels_inside c few]
  grind

theorem rdwrPwrlvl_inside (room : 128 ≤ size) :
    (rdwrPwrlvl c).All (Event.Inside c.argc size) ↔
      (c.chipid ≠ .aic8801 → (c.number 1 16).toUInt8 ≠ 0 → (c.number 1 16).toUInt8 ≤ 2 →
        12 < c.argc → pwrlvlSize (c.number 2 16).toUInt8 + 3 ≤ c.argc) := by
  simp [rdwrPwrlvl, writePwrlvl_inside]
  grind

/-- As many words are read, and written, as the count says. -/
theorem words_inside (n : Nat) (usrdata : Vector UInt32 3) :
    (words c n usrdata).All (Event.Inside c.argc size) ↔
      (n = 0 ∨ 3 + n ≤ c.argc) ∧ n ≤ 3 := by
  have fits : (∀ i ∈ List.range n, i < 3) ↔ n ≤ 3 := by
    have last := range_below (k := 0) (n := n) (m := 3)
    simp only [Nat.zero_add] at last
    rw [last]
    omega
  rw [← range_below, ← fits, ← forall₂_and]
  apply all_foldlM
  · intro usrdata idx
    simp
  · intro usrdata idx member
    simp

theorem rdwrEfuseUsrdata_inside (room : 128 ≤ size) :
    (rdwrEfuseUsrdata c).All (Event.Inside c.argc size) ↔
      (1 < c.argc → 2 < c.argc ∧ ((c.number 1 10).toUInt8 = 1 →
        (c.number 2 10).toUInt8.toNat ≤ 3 ∧ (c.number 2 10).toUInt8.toNat + 3 ≤ c.argc)) := by
  simp [rdwrEfuseUsrdata, words_inside]
  grind

theorem pwrofst_inside (room : 128 ≤ size) (cmd : Rftest) {resLen : Chip → Nat}
    (few : ∀ chip, resLen chip ≤ 128) :
    (pwrofst c cmd resLen).All (Event.Inside c.argc size) := by
  have few := few c.chipid
  simp [pwrofst]
  grind

theorem pwrofstfine_inside (room : 128 ≤ size) (cmd : Rftest) :
    (pwrofstfine c cmd).All (Event.Inside c.argc size) := by
  simp [pwrofstfine]
  grind

theorem setting_inside (room : 128 ≤ size) (cmd : Rftest) {bytes : UInt32 → List UInt8} {n : Nat}
    (short : ∀ v, (bytes v).length ≤ 4) (few : n ≤ 128) :
    (setting c cmd bytes n).All (Event.Inside c.argc size) := by
  have short := short (c.number 2 16)
  simp [setting]
  grind

theorem rdwrEfuseHeOff_inside (room : 128 ≤ size) :
    (rdwrEfuseHeOff c).All (Event.Inside c.argc size) ↔ 1 < c.argc := by
  simp [rdwrEfuseHeOff]
  grind

theorem setCobCal_inside : (setCobCal c).All (Event.Inside c.argc size) ↔ c.argc ≠ 3 := by
  simp [setCobCal]
  omega

theorem cobResult_inside (room : 128 ≤ size) (cfm : Nat → UInt32) :
    (cobResult cfm).All (Event.Inside c.argc size) := by
  simp [cobResult]
  omega

theorem getCobCalRes_inside (room : 128 ≤ size) :
    (getCobCalRes c).All (Event.Inside c.argc size) := by
  simp [getCobCalRes, cobResult_inside c room]

theorem doCobTest_inside (room : 128 ≤ size) :
    (doCobTest c).All (Event.Inside c.argc size) := by
  simp [doCobTest, cobResult_inside c room]

theorem pass_inside (cmd : Rftest) : (pass c cmd).All (Event.Inside c.argc size) := by
  simp [pass]

theorem setPllTest_inside : (setPllTest c).All (Event.Inside c.argc size) := by
  simp [setPllTest]
  grind

theorem rdwrBtEfusePwrofst_inside (room : 128 ≤ size) :
    (rdwrBtEfusePwrofst c).All (Event.Inside c.argc size) := by
  simp [rdwrBtEfusePwrofst]
  grind

theorem countrySet_inside : (countrySet c).All (Event.Inside c.argc size) := by
  simp [countrySet]

theorem getNoise_inside (room : 128 ≤ size) : (getNoise c).All (Event.Inside c.argc size) := by
  simp [getNoise]
  omega

theorem pwradd2x_inside (room : 128 ≤ size) (cmd : Rftest) {n : Nat} (few : n ≤ 128) :
    (pwradd2x c cmd n).All (Event.Inside c.argc size) := by
  simp [pwradd2x]
  grind

theorem checkFlash_inside (room : 128 ≤ size) : (checkFlash c).All (Event.Inside c.argc size) := by
  simp [checkFlash]
  omega

theorem help_inside : (help c).All (Event.Inside c.argc size) := by
  simp [help]

end Inside

end AicPrivCmd

open AicPrivCmd

/-- `struct aic_priv_cmd` -/
structure AicPrivCmd where
  cmd : String
  handler : Call → Run Int

/-- `aic_priv_commands`, without the texts that are shown to the user -/
def aicPrivCommands : List AicPrivCmd := [
  ⟨"set_tx", setTx⟩,
  ⟨"set_txstop", setTxstop⟩,
  ⟨"set_rx", setRx⟩,
  ⟨"get_rx_result", getRxResult⟩,
  ⟨"set_rxstop", setRxstop⟩,
  ⟨"set_txtone", setTxTone⟩,
  ⟨"set_rx_meter", setRxMeter⟩,
  ⟨"set_power", setSetPower⟩,
  ⟨"set_xtal_cap", setXtalCap⟩,
  ⟨"set_xtal_cap_fine", setXtalCapFine⟩,
  ⟨"get_efuse_block", getEfuseBlock⟩,
  ⟨"set_freq_cal", setFreqCal⟩,
  ⟨"set_freq_cal_fine", setFreqCalFine⟩,
  ⟨"get_freq_cal", getFreqCal⟩,
  ⟨"set_mac_addr", setMacAddr⟩,
  ⟨"get_mac_addr", getMacAddr⟩,
  ⟨"set_bt_mac_addr", setBtMacAddr⟩,
  ⟨"get_bt_mac_addr", getBtMacAddr⟩,
  ⟨"set_vendor_info", setVendorInfo⟩,
  ⟨"get_vendor_info", getVendorInfo⟩,
  ⟨"rdwr_pwrmm", rdwrPwrmm⟩,
  ⟨"rdwr_pwridx", rdwrPwridx⟩,
  ⟨"rdwr_pwrlvl", rdwrPwrlvl⟩,
  ⟨"rdwr_pwrofst", rdwrPwrofst⟩,
  ⟨"rdwr_pwrofstfine", rdwrPwrofstfine⟩,
  ⟨"rdwr_drvibit", rdwrDrvibit⟩,
  ⟨"set_cal_xtal", setCalXtal⟩,
  ⟨"get_cal_xtal_res", getCalXtalRes⟩,
  ⟨"set_cob_cal", setCobCal⟩,
  ⟨"get_cob_cal_res", getCobCalRes⟩,
  ⟨"do_cob_test", doCobTest⟩,
  ⟨"rdwr_efuse_pwrofst", rdwrEfusePwrofst⟩,
  ⟨"rdwr_efuse_pwrofstfine", rdwrEfusePwrofstfine⟩,
  ⟨"rdwr_efuse_drvibit", rdwrEfuseDrvibit⟩,
  ⟨"rdwr_efuse_usrdata", rdwrEfuseUsrdata⟩,
  ⟨"rdwr_efuse_sdiocfg", rdwrEfuseSdiocfg⟩,
  ⟨"rdwr_efuse_usbvidpid", rdwrEfuseUsbvidpid⟩,
  ⟨"rdwr_efuse_he_off", rdwrEfuseHeOff⟩,
  ⟨"set_papr", setPapr⟩,
  ⟨"set_notch", setNotch⟩,
  ⟨"set_srrc", setSrrc⟩,
  ⟨"set_fss", setFss⟩,
  ⟨"set_usb_off", setUsbOff⟩,
  ⟨"set_pll_test", setPllTest⟩,
  ⟨"set_ant", setAntMode⟩,
  ⟨"rdwr_bt_efuse_pwrofst", rdwrBtEfusePwrofst⟩,
  ⟨"exec_flash_oper", execFlashOper⟩,
  ⟨"country_set", countrySet⟩,
  ⟨"get_noise", getNoise⟩,
  ⟨"rdwr_pwradd2x", rdwrPwradd2x⟩,
  ⟨"rdwr_efuse_pwradd2x", rdwrEfusePwradd2x⟩,
  ⟨"check_flash", checkFlash⟩,
  ⟨"help", help⟩]

/-- The loop that looks a command up, and the entries that it has counted. -/
def countMatches (argv0 : CString) : List AicPrivCmd → Nat → Option AicPrivCmd →
    Nat × Option AicPrivCmd
  | [], count, found => (count, found)
  | entry :: rest, count, found =>
      if strncasecmp (ascii entry.cmd) argv0 argv0.length = 0 ∧
          strncasecmp (ascii entry.cmd) argv0 (ascii entry.cmd).length = 0 then
        if strcasecmp (ascii entry.cmd) argv0 = 0 then (1, some entry)
        else countMatches argv0 rest (count + 1) (some entry)
      else countMatches argv0 rest count found

/-- The entry whose handler is called. -/
def selected (argv0 : CString) : Option AicPrivCmd :=
  match countMatches argv0 aicPrivCommands 0 none with
  | (1, found) => found
  | _ => none

/-- `handle_private_cmd`, which does not look at the length of the buffer. -/
def handlePrivateCmd (p : Platform) (line : CString) : Run Int :=
  match parseLine cmdMaxargs line with
  | [] => return -1
  | argv0 :: args =>
      match selected argv0 with
      | none => return 0
      | some entry => entry.handler { p with args := argv0 :: args }

/-- The condition on a call: the arguments that the handler reads without asking are there, and a
    count is not more than what follows it or than the array holds. -/
def Call.Enough (c : Call) : String → Prop
  | "set_rx_meter" | "set_vendor_info" | "rdwr_efuse_he_off" => 1 < c.argc
  | "set_power" => 1 < c.argc ∧ (c.chipid = .aic8801 → 2 < c.argc)
  | "set_cob_cal" => c.argc ≠ 3
  | "rdwr_pwrlvl" =>
      c.chipid ≠ .aic8801 → (c.number 1 16).toUInt8 ≠ 0 → (c.number 1 16).toUInt8 ≤ 2 →
        12 < c.argc → pwrlvlSize (c.number 2 16).toUInt8 + 3 ≤ c.argc
  | "rdwr_efuse_usrdata" =>
      1 < c.argc → 2 < c.argc ∧ ((c.number 1 10).toUInt8 = 1 →
        (c.number 2 10).toUInt8.toNat ≤ 3 ∧ (c.number 2 10).toUInt8.toNat + 3 ≤ c.argc)
  | _ => True

/-- Each handler of the table stays inside as far as its condition holds. -/
theorem handler_inside {c : Call} {size : Nat} (room : 128 ≤ size) (called : 0 < c.argc) :
    ∀ entry ∈ aicPrivCommands,
      (entry.handler c).All (Event.Inside c.argc size) ↔ c.Enough entry.cmd := by
  have always {m : Run Int} (inside : m.All (Event.Inside c.argc size)) :
      m.All (Event.Inside c.argc size) ↔ True := iff_true_intro inside
  simp only [aicPrivCommands, List.forall_mem_cons]
  refine ⟨always (setTx_inside c), always (order_inside c _), always (setRx_inside c),
    always (query_inside c room _ (by decide)), always (order_inside c _),
    always (setTxTone_inside c called), setRxMeter_inside c, setSetPower_inside c,
    always (setByte_inside c room _ _), always (setByte_inside c room _ _),
    always (setByte_inside c room _ _), always (setByte_inside c room _ _),
    always (setByte_inside c room _ _), always (query_inside c room _ (by decide)),
    always (setAddr_inside c _), always (query_inside c room _ (by decide)),
    always (setAddr_inside c _), always (query_inside c room _ (by decide)),
    setVendorInfo_inside c room,
    always (query_inside c room _ ((vendorInfoLen_le c).trans (by decide))),
    always (rdwrPwrmm_inside c room), always (rdwrPwridx_inside c room), rdwrPwrlvl_inside c room,
    always (pwrofst_inside c room _ (by rintro (_ | _) <;> decide)),
    always (pwrofstfine_inside c room _),
    always (setting_inside c room _ (fun _ => by simp) (by decide)), always (order_inside c _),
    always (query_inside c room _ (by decide)), setCobCal_inside c,
    always (getCobCalRes_inside c room), always (doCobTest_inside c room),
    always (pwrofst_inside c room _ (by rintro (_ | _) <;> decide)),
    always (pwrofstfine_inside c room _),
    always (setting_inside c room _ (fun _ => by simp) (by decide)),
    rdwrEfuseUsrdata_inside c room,
    always (setting_inside c room _ (fun _ => by simp) (by decide)),
    always (setting_inside c room _ (fun _ => by simp) (by decide)), rdwrEfuseHeOff_inside c room,
    always (pass_inside c _), always (pass_inside c _), always (pass_inside c _),
    always (pass_inside c _), always (order_inside c _), always (setPllTest_inside c),
    always (pass_inside c _), always (rdwrBtEfusePwrofst_inside c room), always (pass_inside c _),
    always (countrySet_inside c), always (getNoise_inside c room),
    always (pwradd2x_inside c room _ (by decide)), always (pwradd2x_inside c room _ (by decide)),
    always (checkFlash_inside c room), always (help_inside c), nofun⟩

/-- An entry that is found is in the table. -/
theorem countMatches_mem {argv0 : CString} {table : List AicPrivCmd} {count n : Nat}
    {found : Option AicPrivCmd} {entry : AicPrivCmd}
    (counted : countMatches argv0 table count found = (n, some entry)) :
    entry ∈ table ∨ found = some entry := by
  induction table generalizing count found with
  | nil => exact .inr (Prod.mk.inj counted).2
  | cons first rest ih =>
      unfold countMatches at counted
      split at counted
      · split at counted
        · obtain rfl := Option.some.inj (Prod.mk.inj counted).2
          exact .inl List.mem_cons_self
        · rcases ih counted with there | here
          · exact .inl (List.mem_cons_of_mem first there)
          · obtain rfl := Option.some.inj here
            exact .inl List.mem_cons_self
      · exact (ih counted).imp_left (List.mem_cons_of_mem first)

theorem selected_mem {argv0 : CString} {entry : AicPrivCmd} (found : selected argv0 = some entry) :
    entry ∈ aicPrivCommands := by
  unfold selected at found
  split at found
  · rename_i counted
    subst found
    exact (countMatches_mem counted).resolve_right nofun
  · cases found

/-- The bytes behind `command`: `buf_size`, as `android_priv_cmd` allocates it, and one more. -/
def bufSize (totalLen : Nat) : Nat := max totalLen 4096

/-- The property: the handler that a line selects reads no argument but those that there are, and
    writes only to its own arrays, to the request and to the buffer. -/
def StaysInside (p : Platform) (line : CString) (totalLen : Nat) : Prop :=
  (handlePrivateCmd p line).All
    (Event.Inside (parseLine cmdMaxargs line).length (bufSize totalLen + 1))

instance (p : Platform) (line : CString) (totalLen : Nat) : Decidable (StaysInside p line totalLen) :=
  inferInstanceAs (Decidable (∀ e ∈ (handlePrivateCmd p line).trace, _))

/-- The condition on a command line is the one of the handler that it selects. -/
def Enough (p : Platform) (line : CString) : Prop :=
  match parseLine cmdMaxargs line with
  | [] => True
  | argv0 :: args =>
      ∀ entry ∈ selected argv0, ({ p with args := argv0 :: args } : Call).Enough entry.cmd

/-- A handler stays inside its bounds just where its condition holds. -/
theorem private_cmd_inside_iff (p : Platform) (line : CString) (totalLen : Nat) :
    StaysInside p line totalLen ↔ Enough p line := by
  have room : 128 ≤ bufSize totalLen + 1 := by
    unfold bufSize
    omega
  unfold StaysInside handlePrivateCmd Enough
  cases parseLine cmdMaxargs line with
  | nil => simp
  | cons argv0 args =>
      cases found : selected argv0 with
      | none => simp [found]
      | some entry =>
          have inside := handler_inside (c := { p with args := argv0 :: args }) room
            (Nat.succ_pos args.length) entry (selected_mem found)
          simpa [found, Call.argc] using inside

/-- A device that answers with zeros. -/
def quietPlatform : Platform where
  chipid := .aic8800d81
  firmware := fun _ _ => 0
  stack := fun _ => 0
  beyond := fun _ => []
  regulatorySetWiphyRegd := fun _ => 0
  getFlashBinSize := 0
  getFlashBinCrc := 0

/-- A command without its argument, one with a count of four words, and one with two arguments
    where the handler reads three. -/
theorem arguments_missing :
    ¬StaysInside quietPlatform (ascii "set_rx_meter") 64 ∧
      ¬StaysInside quietPlatform (ascii "rdwr_efuse_usrdata 1 4 a b c d") 64 ∧
        ¬StaysInside quietPlatform (ascii "set_cob_cal 1 1") 64 := by
  decide

end Aic8800.Priv
