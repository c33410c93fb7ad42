import Aic8800.PowerLimit.Parser

/-! # What the lines of a power limit table say

A line is taken for a list of characters here, without the zero that ends it. The functions of the
parser are described by what they make of such a list.
-/

namespace Aic8800.PowerLimit

open Lib LoadState

/-! ## Fields and numbers -/

/-- What is behind the `##` of a line -/
def behindTag (l : Bytes) : Bytes := (l.drop 2).dropWhile isBlank

/-- The field between the qualifiers, and what is behind it -/
def field (left right : UInt8) : Bytes → Option (Bytes × Bytes)
  | [] => none
  | c :: t =>
      if c = left ∧ right ∈ t then
        some (t.takeWhile (· != right), (t.dropWhile (· != right)).tail)
      else none

/-- The number in a byte -/
def number (digits : Bytes) : UInt8 := digits.foldl (fun val c => val * 10 + (c - 48)) 0

/-- The digits of a limit in a byte -/
def magnitude (digits : Bytes) : Int8 :=
  digits.foldl (fun val c => val * 10 + (c - 48).toInt8) 0

/-- The digits of a limit, if there is nothing but digits -/
def magnitude? (digits : Bytes) : Option Int8 :=
  if digits.all isDigit then some (magnitude digits) else none

/-- The value of a limit, where the text is one -/
def limitVal : Bytes → Option Int8
  | 43 :: digits => magnitude? digits
  | 45 :: digits => (magnitude? digits).map (- ·)
  | digits => magnitude? digits

section Arrays

variable {t f d rest : Bytes} {left right : UInt8}

theorem copy_zeroed (f : Bytes) :
    Cells.copy f zeroed = if f.length ≤ 10 then some (Cells.fill f zeroed) else none := rfl

theorem load_zeroed {p : UInt8 → Bool} (stops : p 0 = false) (t rest : Bytes) :
    Texts.load p zeroed 0 (t ++ 0 :: rest) =
      if (t.takeWhile p).length ≤ 10 then
        some (Cells.fill (t.takeWhile p) zeroed, t.dropWhile p ++ 0 :: rest)
      else none := Texts.load_text stops zeroed t rest

theorem fill_zeroed (f : Bytes) :
    Cells.fill f zeroed = f ++ List.replicate (10 - f.length) 0 := by
  unfold Cells.fill zeroed
  rw [List.drop_replicate]

/-- A string in an array ends there, if it does not take all of it. -/
theorem zero_mem_fill (clean : 0 ∉ f) : 0 ∈ Cells.fill f zeroed ↔ f.length < 10 := by
  rw [fill_zeroed, List.mem_append, or_iff_right clean, List.mem_replicate, and_iff_left rfl]
  omega

theorem startsWith_fill {lit : Bytes} (clean : 0 ∉ lit) (short : lit.length ≤ 10)
    (fits : f.length ≤ 10) :
    Texts.startsWith lit (Cells.fill f zeroed) = some (lit.isPrefixOf f) := by
  rw [Texts.startsWith_of_le (by rwa [Cells.length_fill fits]), fill_zeroed,
    Texts.isPrefixOf_zeros clean]

theorem takeWhile_zero (right : UInt8) (clean : 0 ∉ t) :
    t.takeWhile (fun c => c != right && c != 0) = t.takeWhile (· != right) ∧
      t.dropWhile (fun c => c != right && c != 0) = t.dropWhile (· != right) := by
  induction t with
  | nil => exact ⟨rfl, rfl⟩
  | cons c t ih =>
      obtain ⟨other, clean⟩ := List.ne_and_not_mem_of_not_mem_cons clean
      simp only [List.takeWhile_cons, List.dropWhile_cons, bne_iff_ne.mpr other.symm, Bool.and_true,
        ih clean, and_self]

theorem dropWhile_sep (there : right ∈ t) :
    t.dropWhile (· != right) = right :: (t.dropWhile (· != right)).tail := by
  induction t with
  | nil => cases there
  | cons c t ih =>
      by_cases same : c = right
      · simp [same]
      · have behind : right ∈ t := (List.mem_cons.mp there).resolve_left (Ne.symm same)
        simpa only [List.dropWhile_cons, bne_iff_ne.mpr same, if_true] using ih behind

theorem dropWhile_none (absent : right ∉ t) : t.dropWhile (· != right) = [] := by
  rw [List.dropWhile_eq_nil_iff]
  intro c there
  exact bne_iff_ne.mpr fun same => absent (same ▸ there)

/-- A field fits an array of ten, or there is no result. -/
theorem parseQualifiedString_text (goes : left ≠ 0) (stops : right ≠ 0) (clean : 0 ∉ t)
    (rest : Bytes) :
    parseQualifiedString (t ++ 0 :: rest) zeroed left right =
      match field left right t with
      | none => some none
      | some (f, t') =>
          if f.length ≤ 10 then some (some (Cells.fill f zeroed, t' ++ 0 :: rest)) else none := by
  unfold parseQualifiedString field
  cases t with
  | nil => simp [goes.symm]
  | cons c t =>
      obtain ⟨-, clean⟩ := List.ne_and_not_mem_of_not_mem_cons clean
      by_cases first : c = left
      · subst first
        have stop : (fun c => c != right && c != 0) (0 : UInt8) = false := by simp
        have passed := Texts.span_text (p := fun c => c != right && c != 0) stop t rest
        simp only [List.cons_append, List.getElem?_cons_zero, Option.bind_eq_bind, Option.bind_some,
          ne_eq, not_true, if_false, List.drop_succ_cons, List.drop_zero, passed,
          (takeWhile_zero right clean).1, (takeWhile_zero right clean).2,
          true_and]
        by_cases there : right ∈ t
        · rw [if_pos there, dropWhile_sep there]
          simp only [List.cons_append, List.getElem?_cons_zero, Option.bind_some, if_neg stops,
            List.drop_succ_cons, List.drop_zero, List.tail_cons, copy_zeroed]
          by_cases short : (t.takeWhile (· != right)).length ≤ 10
          · rw [if_pos short, if_pos short]
            rfl
          · rw [if_neg short, if_neg short]
            rfl
        · rw [if_neg there, dropWhile_none there]
          simp
      · simp [first]

theorem field_some {t' : Bytes} (found : field left right t = some (f, t')) (clean : 0 ∉ t) :
    0 ∉ f ∧ 0 ∉ t' := by
  unfold field at found
  split at found
  · cases found
  · rename_i c t
    split at found
    · cases found
      obtain ⟨-, clean⟩ := List.ne_and_not_mem_of_not_mem_cons clean
      refine ⟨fun there => clean (List.takeWhile_subset _ there), fun there => clean ?_⟩
      exact (List.dropWhile_sublist _).subset (List.mem_of_mem_tail there)
    · cases found

theorem getU1_append (clean : 0 ∉ d) (s : Bytes) (val : UInt8) :
    getU1ByteIntegerFromStringInDecimal (d ++ s) val =
      if d.all isDigit then
        getU1ByteIntegerFromStringInDecimal s (d.foldl (fun val c => val * 10 + (c - 48)) val)
      else some none := by
  induction d generalizing val with
  | nil => rfl
  | cons c d ih =>
      obtain ⟨other, clean⟩ := List.ne_and_not_mem_of_not_mem_cons clean
      rw [List.cons_append, getU1ByteIntegerFromStringInDecimal, if_neg other.symm]
      cases digit : isDigit c with
      | true => simp [ih clean, digit]
      | false => simp [digit]

theorem getS1Digits_append (clean : 0 ∉ d) (s : Bytes) (val : Int8) :
    getS1Digits (d ++ s) val =
      if d.all isDigit then
        getS1Digits s (d.foldl (fun val c => val * 10 + (c - 48).toInt8) val)
      else some none := by
  induction d generalizing val with
  | nil => rfl
  | cons c d ih =>
      obtain ⟨other, clean⟩ := List.ne_and_not_mem_of_not_mem_cons clean
      rw [List.cons_append, getS1Digits, if_neg other.symm]
      cases digit : isDigit c with
      | true => simp [ih clean, digit]
      | false => simp [digit]

/-- A number of ten digits is read on behind the array. -/
theorem getU1_fill (clean : 0 ∉ d) :
    getU1ByteIntegerFromStringInDecimal (Cells.fill d zeroed) 0 =
      if d.all isDigit then if d.length < 10 then some (some (number d)) else none
      else some none := by
  rw [fill_zeroed, getU1_append clean]
  congr 1
  split
  · rename_i short
    obtain ⟨n, more⟩ := Nat.exists_eq_succ_of_ne_zero (Nat.sub_ne_zero_of_lt short)
    rw [more]
    rfl
  · rename_i whole
    rw [Nat.sub_eq_zero_of_le (Nat.not_lt.mp whole)]
    rfl

theorem getS1Digits_fill (clean : 0 ∉ d) (n : Nat) :
    getS1Digits (d ++ List.replicate n 0) 0 =
      if d.all isDigit then if 0 < n then some (some (magnitude d)) else none
      else some none := by
  rw [getS1Digits_append clean]
  cases n <;> rfl

/-- So is a limit of ten characters, unless it is none. -/
theorem getS1_fill (clean : 0 ∉ d) (some' : d ≠ []) :
    getS1ByteIntegerFromStringInDecimal (Cells.fill d zeroed) =
      match limitVal d with
      | none => some none
      | some val => if d.length < 10 then some (some val) else none := by
  obtain ⟨c, d, rfl⟩ := List.exists_cons_of_ne_nil some'
  obtain ⟨-, behind⟩ := List.ne_and_not_mem_of_not_mem_cons clean
  have room : 0 < 10 - (c :: d).length ↔ (c :: d).length < 10 := Nat.sub_pos_iff_lt
  rw [fill_zeroed]
  unfold getS1ByteIntegerFromStringInDecimal
  simp only [List.cons_append, List.getElem?_cons_zero, Option.bind_eq_bind, Option.bind_some,
    List.drop_succ_cons, List.drop_zero, getS1Digits_fill behind]
  by_cases plus : c = 43
  · subst plus
    simp only [if_true, limitVal, magnitude?, room]
    cases d.all isDigit <;> rfl
  · by_cases minus : c = 45
    · subst minus
      simp only [if_neg plus, if_true, limitVal, magnitude?, room]
      cases d.all isDigit with
      | false => rfl
      | true =>
          simp only [if_true]
          split <;> rfl
    · have plain : limitVal (c :: d) = magnitude? (c :: d) := by
        unfold limitVal
        split <;> simp_all
      rw [if_neg plus, if_neg minus, ← List.cons_append, getS1Digits_fill clean, plain, magnitude?]
      cases (c :: d).all isDigit with
      | false => rfl
      | true => simp only [if_true, room]

end Arrays

/-! ## The pieces of a line -/

/-- The line begins with `##`. -/
def tagged (l : Bytes) : Bool := [hash, hash].isPrefixOf l

/-- The line begins with `CH`, in either case. -/
def isCh : Bytes → Bool
  | c :: h :: _ => (c == 99 || c == 67) && (h == 104 || h == 72)
  | _ => false

/-- The line is empty, or begins with a blank or with `# `. -/
def passed (l : Bytes) : Bool := l.head?.all isBlank || [hash, space].isPrefixOf l

/-- The band that a label names, or the one before -/
def labelBand (label : Bytes) (before : Band) : Band :=
  if label2g4.isPrefixOf label then .phyBand2g4
  else if label5g.isPrefixOf label then .phyBand5g
  else before

def labelBandwidth (label : Bytes) (before : Bandwidth) : Bandwidth :=
  if label20m.isPrefixOf label then .bw20
  else if label40m.isPrefixOf label then .bw40
  else if label80m.isPrefixOf label then .bw80
  else before

/-- The region of a name -/
def regionOf (name : Bytes) : Nat :=
  if srrc.isPrefixOf name then 0
  else if fcc.isPrefixOf name then 1
  else if etsi.isPrefixOf name then 2
  else if jp.isPrefixOf name then 3
  else 4

theorem regionOf_lt (name : Bytes) : regionOf name < maxRegionNum := by
  unfold regionOf maxRegionNum
  split_ifs <;> decide

/-- The next `n` words -/
def words : Nat → Bytes → List Bytes
  | 0, _ => []
  | n + 1, t =>
      (t.dropWhile isBlank).takeWhile isWord :: words n ((t.dropWhile isBlank).dropWhile isWord)

@[simp] theorem length_words (n : Nat) (t : Bytes) : (words n t).length = n := by
  induction n generalizing t with
  | zero => rfl
  | succ n ih => simp [words, ih]

/-- The text of a limit, and what is behind it, if there is one -/
def limitAt (t : Bytes) : Option (Bytes × Bytes) :=
  let t := t.dropWhile isBlank
  if [78, 65].isPrefixOf t then some (invalidText, t.drop 2)
  else if t.head?.any isNumeral then some (t.takeWhile isNumeral, t.dropWhile isNumeral)
  else none

section Pieces

variable {l t rest : Bytes} {env : Env}

theorem isTagged_text (l rest : Bytes) : isTagged (l ++ 0 :: rest) = some (tagged l) :=
  Texts.startsWith_text (by decide) l rest

theorem isChannel_text (l rest : Bytes) : isChannel (l ++ 0 :: rest) = some (isCh l) := by
  unfold isChannel
  cases l with
  | nil => simp [isCh]
  | cons c l =>
      cases l with
      | nil => simp [isCh]
      | cons h l =>
          by_cases first : c = 99 ∨ c = 67
          · have found : (c == 99 || c == 67) = true := by simpa using first
            simp [isCh, first, found]
          · have absent : (c == 99 || c == 67) = false := by simpa using first
            simp [isCh, first, absent]

theorem isAllSpaceOrTab_text (clean : 0 ∉ l) (rest : Bytes) :
    isAllSpaceOrTab (l ++ 0 :: rest) 1 = some (l.head?.all isBlank) := by
  cases l with
  | nil => simp [isAllSpaceOrTab]
  | cons c l =>
      obtain ⟨other, -⟩ := List.ne_and_not_mem_of_not_mem_cons clean
      simp [isAllSpaceOrTab, other.symm]

theorem isCommentString_text (l rest : Bytes) :
    isCommentString (l ++ 0 :: rest) = some ([hash, space].isPrefixOf l) :=
  Texts.startsWith_text (by decide) l rest

theorem drop_text (long : 2 ≤ l.length) (rest : Bytes) :
    (l ++ 0 :: rest).drop 2 = l.drop 2 ++ 0 :: rest :=
  List.drop_append_of_le_length long

theorem length_of_tagged (tag : tagged l = true) : 2 ≤ l.length :=
  (List.isPrefixOf_iff_prefix.mp tag).length_le

theorem length_of_isCh (prefixed : isCh l = true) : 2 ≤ l.length := by
  match l, prefixed with
  | c :: h :: l, _ => simp

theorem behindTag_clean (clean : 0 ∉ l) : 0 ∉ behindTag l := fun there =>
  clean (List.mem_of_mem_drop ((List.dropWhile_sublist _).subset there))

theorem skip_behindTag (tag : tagged l = true) (rest : Bytes) :
    Texts.skip isBlank ((l ++ 0 :: rest).drop 2) = some (behindTag l ++ 0 :: rest) := by
  rw [drop_text (length_of_tagged tag), Texts.skip_text (by rfl)]
  rfl

theorem bandOf_fill {f : Bytes} (fits : f.length ≤ 10) (before : Band) :
    bandOf (Cells.fill f zeroed) before = some (labelBand f before) := by
  unfold bandOf labelBand
  rw [startsWith_fill (by decide) (by decide) fits, startsWith_fill (by decide) (by decide) fits]
  simp only [Option.bind_eq_bind, Option.bind_some]
  split_ifs <;> rfl

theorem bandwidthOf_fill {f : Bytes} (fits : f.length ≤ 10) (before : Bandwidth) :
    bandwidthOf (Cells.fill f zeroed) before = some (labelBandwidth f before) := by
  unfold bandwidthOf labelBandwidth
  rw [startsWith_fill (by decide) (by decide) fits, startsWith_fill (by decide) (by decide) fits,
    startsWith_fill (by decide) (by decide) fits]
  simp only [Option.bind_eq_bind, Option.bind_some]
  split_ifs <;> rfl

theorem getRegionIndex_text (name : Bytes) :
    getRegionIndex (name ++ [0]) = some (regionOf name) := by
  unfold getRegionIndex regionOf
  rw [Texts.startsWith_text (by decide), Texts.startsWith_text (by decide),
    Texts.startsWith_text (by decide), Texts.startsWith_text (by decide),
    Texts.startsWith_text (by decide)]
  simp only [Option.bind_eq_bind, Option.bind_some]
  split_ifs <;> rfl

theorem printed_fill (on : Bool) {f : Bytes} (clean : 0 ∉ f) :
    printed on [Cells.fill f zeroed] = if on = true → f.length < 10 then some () else none := by
  unfold printed
  simp only [List.mem_singleton, exists_eq_left, zero_mem_fill clean]
  cases on <;> by_cases short : f.length < 10 <;> simp [short]

theorem printed_fills (on : Bool) {f g : Bytes} (cleanF : 0 ∉ f) (cleanG : 0 ∉ g) :
    printed on [Cells.fill f zeroed, Cells.fill g zeroed] =
      if on = true → f.length < 10 ∧ g.length < 10 then some () else none := by
  unfold printed
  simp only [List.mem_cons, exists_eq_or_imp, exists_eq_left,
    zero_mem_fill cleanF, zero_mem_fill cleanG, List.not_mem_nil, or_false]
  cases on <;> by_cases shortF : f.length < 10 <;> by_cases shortG : g.length < 10 <;>
    simp [shortF, shortG]

end Pieces

/-! ## The label of a table -/

/-- The fields of a label fit, and so do the strings that are printed. A number of columns that
    takes all of its array may not be read to its end. -/
def LabelFits (env : Env) (l : Bytes) : Prop :=
  match field space comma (space :: behindTag l) with
  | none => True
  | some (band, t) =>
      band.length ≤ 10 ∧
        match field space comma t with
        | none => True
        | some (bandwidth, t) =>
            bandwidth.length ≤ 10 ∧
              match field hash hash t with
              | none => True
              | some (cols, _) =>
                  if cols.all isDigit then
                    cols.length < 10 ∧ (number cols ≠ 0 → env.logInfo = true →
                      band.length < 10 ∧ bandwidth.length < 10)
                  else cols.length < 10 ∨ cols.length = 10 ∧ env.logError = false

/-- The band, the bandwidth and the number of columns that a label gives -/
def label (band : Band) (bandwidth : Bandwidth) (l : Bytes) : Option (Band × Bandwidth × UInt8) :=
  match field space comma (space :: behindTag l) with
  | none => none
  | some (f, t) =>
      match field space comma t with
      | none => none
      | some (g, t) =>
          match field hash hash t with
          | none => none
          | some (cols, _) =>
              if cols.all isDigit ∧ number cols ≠ 0 then
                some (labelBand f band, labelBandwidth g bandwidth, number cols)
              else none

section Label

variable {env : Env} {s : LoadState} {l : Bytes}

/-- What a label leads to -/
def labelOutcome (s : LoadState) (l : Bytes) : Outcome :=
  match label s.bandCc s.bwCc l with
  | none => .exit s
  | some (band, bandwidth, colNum) => .next { s with
      loadingStage := .tabStart
      bandCc := band
      bwCc := bandwidth
      colNum := colNum }

variable (env s) in
theorem tabDefine_text (clean : 0 ∉ l) (tag : tagged l = true) (rest : Bytes) :
    LabelFits env l ∧ tabDefine env s (l ++ 0 :: rest) = some (labelOutcome s l) ∨
      ¬LabelFits env l ∧ tabDefine env s (l ++ 0 :: rest) = none := by
  have cleanLabel : 0 ∉ space :: behindTag l :=
    List.not_mem_cons_of_ne_of_not_mem (by decide) (behindTag_clean clean)
  unfold tabDefine LabelFits labelOutcome label
  rw [isTagged_text, tag]
  simp only [Option.bind_eq_bind, Option.bind_some, Bool.not_true, Bool.false_eq_true, if_false,
    skip_behindTag tag]
  rw [← List.cons_append, parseQualifiedString_text (by decide) (by decide) cleanLabel]
  cases first : field space comma (space :: behindTag l) with
  | none => simp
  | some found =>
      obtain ⟨f, t⟩ := found
      obtain ⟨cleanBand, cleanBehind⟩ := field_some first cleanLabel
      by_cases bandFits : f.length ≤ 10
      · simp only [if_pos bandFits, Option.bind_some, bandOf_fill bandFits]
        rw [parseQualifiedString_text (by decide) (by decide) cleanBehind]
        cases second : field space comma t with
        | none => simp [bandFits]
        | some found =>
            obtain ⟨g, t⟩ := found
            obtain ⟨cleanBandwidth, cleanBehind⟩ := field_some second cleanBehind
            by_cases bandwidthFits : g.length ≤ 10
            · simp only [if_pos bandwidthFits, Option.bind_some, bandwidthOf_fill bandwidthFits]
              rw [parseQualifiedString_text (by decide) (by decide) cleanBehind]
              cases third : field hash hash t with
              | none => simp [bandFits, bandwidthFits]
              | some found =>
                  obtain ⟨cols, t⟩ := found
                  obtain ⟨cleanCols, -⟩ := field_some third cleanBehind
                  by_cases colsFit : cols.length ≤ 10
                  · simp only [if_pos colsFit, Option.bind_some, getU1_fill cleanCols]
                    cases digits : cols.all isDigit with
                    | false =>
                        simp only [Bool.false_eq_true, if_false, Option.bind_some, false_and,
                          printed_fill _ cleanCols]
                        by_cases short : cols.length < 10
                        · simp [bandFits, bandwidthFits, short]
                        · have whole : cols.length = 10 := by omega
                          cases env.logError <;> simp [bandFits, bandwidthFits, whole]
                    | true =>
                        by_cases short : cols.length < 10
                        · simp only [if_true, if_pos short, Option.bind_some, true_and,
                            printed_fills _ cleanBand cleanBandwidth]
                          by_cases zero : number cols = 0
                          · simp [bandFits, bandwidthFits, zero, short]
                          · by_cases ends : env.logInfo = true → f.length < 10 ∧ g.length < 10
                            · rw [if_neg zero, if_pos ends]
                              exact .inl ⟨⟨bandFits, bandwidthFits, short, fun _ => ends⟩,
                                by simp [zero]⟩
                            · rw [if_neg zero, if_neg ends]
                              exact .inr ⟨fun fits => ends (fits.2.2.2 zero), rfl⟩
                        · simp [short]
                  · have long : ¬cols.length < 10 := fun short => colsFit (Nat.le_of_lt short)
                    have other : ¬cols.length = 10 := fun same => colsFit (Nat.le_of_eq same)
                    simp [colsFit, long, other]
            · simp [bandFits, bandwidthFits]
      · simp [bandFits]

end Label

/-! ## The rows -/

/-- Limits that are read for `n` columns fit, and so do the number of the channel, once there is a
    limit to be saved for it, and the strings that are printed. The table has the bandwidth. The
    message about a limit that is missing is printed with the character behind the line. -/
def LimitsFit (env : Env) (band : Band) (bandwidth : Bandwidth) (channel rest : Bytes) :
    Nat → Bytes → Prop
  | 0, _ => True
  | n + 1, t =>
      match limitAt t with
      | none => env.logError = true → t.dropWhile isBlank = [] → rest ≠ []
      | some (v, t) =>
          v.length ≤ 10 ∧ channel.length < 10 ∧
            match limitVal v with
            | none => env.logError = true → v.length < 10
            | some _ =>
                v.length < 10 ∧ bandwidth.idx < band.bwNum ∧
                  LimitsFit env band bandwidth channel rest n t

/-- The table with the limits of a row, if there is one for each of the columns -/
def addLimits (info : PowerlimitInfo) (band : Band) (bandwidth : Bandwidth) (channel : Bytes) :
    List Bytes → Bytes → Option PowerlimitInfo
  | [], _ => some info
  | name :: names, t =>
      match limitAt t with
      | none => none
      | some (v, t) =>
          match limitVal v with
          | none => none
          | some val =>
              addLimits (info.push (regionOf name) band bandwidth.idx (number channel) val) band
                bandwidth channel names t

section Rows

variable {env : Env} {s : LoadState} {t v channel rest : Bytes} {info : PowerlimitInfo}
  {band : Band}

theorem limitAt_some {t' : Bytes} (found : limitAt t = some (v, t')) (clean : 0 ∉ t) :
    0 ∉ v ∧ v ≠ [] ∧ 0 ∉ t' := by
  have front : 0 ∉ t.dropWhile isBlank := fun there =>
    clean ((List.dropWhile_sublist _).subset there)
  unfold limitAt at found
  simp only at found
  split_ifs at found with na numeral
  · cases found
    exact ⟨by decide, by decide, fun there => front (List.mem_of_mem_drop there)⟩
  · cases found
    refine ⟨fun there => front (List.takeWhile_subset _ there), ?_,
      fun there => front ((List.dropWhile_sublist _).subset there)⟩
    cases same : t.dropWhile isBlank with
    | nil => simp [same] at numeral
    | cons c u =>
        have first : isNumeral c = true := by simpa [same] using numeral
        simp [first]

/-- What is behind the line is needed for nothing but the message. -/
theorem loadLimit_text (t rest : Bytes) :
    loadLimit env (t ++ 0 :: rest) =
      match limitAt t with
      | none =>
          if env.logError = true → t.dropWhile isBlank = [] → rest ≠ [] then some none else none
      | some (v, t) =>
          if v.length ≤ 10 then some (some (Cells.fill v zeroed, t ++ 0 :: rest)) else none := by
  unfold loadLimit limitAt
  rw [Texts.skip_text (by rfl)]
  have clean : (0 : UInt8) ∉ [(78 : UInt8), 65] := by decide
  simp only [Option.bind_eq_bind, Option.bind_some, Texts.startsWith_text clean]
  cases t.dropWhile isBlank with
  | nil =>
      cases rest with
      | nil => cases env.logError <;> simp [isNumeral, isDigit]
      | cons c rest => cases env.logError <;> simp [isNumeral, isDigit]
  | cons c u =>
      have first : (c :: u).head?.any isNumeral = isNumeral c := rfl
      simp only [List.cons_append, List.getElem?_cons_zero, Option.bind_some]
      rw [first]
      cases na : [78, 65].isPrefixOf (c :: u) with
      | true =>
          have behind := drop_text (List.isPrefixOf_iff_prefix.mp na).length_le rest
          rw [List.cons_append] at behind
          simp only [if_true, copy_zeroed, behind]
          rfl
      | false =>
          simp only [Bool.false_eq_true, if_false]
          by_cases numeral : isNumeral c = true
          · have stop : isNumeral 0 = false := by decide
            have loaded := load_zeroed stop (c :: u) rest
            rw [List.cons_append] at loaded
            rw [if_pos numeral, if_pos numeral, loaded]
            by_cases fits : ((c :: u).takeWhile isNumeral).length ≤ 10
            · simp [if_pos fits]
            · simp [if_neg fits]
          · rw [if_neg numeral, if_neg numeral]
            cases env.logError <;> cases u <;> simp

theorem entries_isSome (info : PowerlimitInfo) (band : Band) {rIdx : Nat} (bw : Nat)
    (inside : rIdx < maxRegionNum) :
    (info.entries rIdx band bw).isSome = true ↔ bw < band.bwNum := by
  unfold PowerlimitInfo.entries
  by_cases there : bw < band.bwNum
  · rw [if_pos ⟨inside, there⟩]
    cases band <;> simp [there]
  · rw [if_neg fun both => there both.2]
    simp [there]

/-- A limit is saved if the arrays hold the two numbers with their ends, and the table the
    bandwidth. -/
theorem powerlimitSave_text {bw : Nat} (digits : channel.all isDigit = true) (clean : 0 ∉ v)
    (some' : v ≠ []) (name : Bytes) :
    powerlimitSave env info band (Cells.fill channel zeroed) bw (Cells.fill v zeroed)
        (name ++ [0]) =
      if channel.length < 10 then
        match limitVal v with
        | none => if env.logError = true → v.length < 10 then some none else none
        | some val =>
            if v.length < 10 ∧ bw < band.bwNum then
              some (some (info.push (regionOf name) band bw (number channel) val))
            else none
      else none := by
  have cleanChannel : 0 ∉ channel := fun there => by
    have digit : isDigit 0 = true := List.all_eq_true.mp digits 0 there
    cases digit
  unfold powerlimitSave
  rw [getU1_fill cleanChannel, if_pos digits]
  by_cases short : channel.length < 10
  · simp only [short, if_true, Option.bind_eq_bind, Option.bind_some, getS1_fill clean some',
      printed_fills _ cleanChannel clean, true_and]
    cases limitVal v with
    | none =>
        by_cases ends : env.logError = true → v.length < 10
        · simp only [if_pos ends]
          rfl
        · simp only [if_neg ends]
          rfl
    | some val =>
        by_cases limitShort : v.length < 10
        · simp only [limitShort, Option.bind_some, getRegionIndex_text, implies_true, if_true,
            true_and]
          have there := entries_isSome info band bw (regionOf_lt name)
          cases found : info.entries (regionOf name) band bw with
          | none =>
              rw [found] at there
              rw [if_neg (by simpa using there)]
              rfl
          | some entries =>
              rw [found] at there
              rw [if_pos (by simpa using there)]
              rfl
        · simp [limitShort]
  · simp [short]

/-- What the columns of a row lead to -/
def rowOutcome (s : LoadState) : Option PowerlimitInfo → Outcome → Prop
  | some info, .next s' => s' = { s with info := info }
  | none, .exit s' => ∃ info, s' = { s with info := info } ∧ info.ccMatched = s.info.ccMatched
  | _, _ => False

theorem rowOutcome_info {made : Option PowerlimitInfo} {o : Outcome} {bandCc : Band} {bw : Nat}
    {regIdx : Nat} {channelNum : UInt8} {limit : Int8}
    (result : rowOutcome { s with info := s.info.push regIdx bandCc bw channelNum limit } made o) :
    rowOutcome s made o := by
  cases made with
  | none =>
      cases o with
      | next => exact result
      | exit => exact result
  | some made =>
      cases o with
      | next => exact result
      | exit => exact result

/-- A name with the memory that it is in -/
def Slot.ofName (held : Nat × Bytes) : Slot := .string held.1 (held.2 ++ [0])

variable (env s rest) in
theorem loadLimits_text (digits : channel.all isDigit = true) (held : List (Nat × Bytes))
    (clean : 0 ∉ t) :
    (LimitsFit env s.bandCc s.bwCc channel rest held.length t ∧
        ∃ o, loadLimits env (Cells.fill channel zeroed) held.length (held.map Slot.ofName)
            (t ++ 0 :: rest) s = some o ∧
          rowOutcome s (addLimits s.info s.bandCc s.bwCc channel (held.map Prod.snd) t) o) ∨
      ¬LimitsFit env s.bandCc s.bwCc channel rest held.length t ∧
        loadLimits env (Cells.fill channel zeroed) held.length (held.map Slot.ofName)
          (t ++ 0 :: rest) s = none := by
  induction held generalizing t s with
  | nil => exact .inl ⟨trivial, .next s, rfl, rfl⟩
  | cons name held ih =>
      simp only [List.length_cons, List.map_cons, LimitsFit, loadLimits, addLimits,
        Option.bind_eq_bind, loadLimit_text]
      cases found : limitAt t with
      | none =>
          by_cases behind : env.logError = true → t.dropWhile isBlank = [] → rest ≠ []
          · rw [if_pos behind]
            exact .inl ⟨behind, .exit s, rfl, s.info, rfl, rfl⟩
          · rw [if_neg behind]
            exact .inr ⟨behind, rfl⟩
      | some found' =>
          obtain ⟨v, t'⟩ := found'
          obtain ⟨cleanLimit, some', cleanBehind⟩ := limitAt_some found clean
          by_cases fits : v.length ≤ 10
          · simp only [fits, if_true, Option.bind_some, Slot.ofName, true_and,
              powerlimitSave_text digits cleanLimit some']
            by_cases short : channel.length < 10
            · simp only [short, if_true, true_and]
              cases valued : limitVal v with
              | none =>
                  by_cases ends : env.logError = true → v.length < 10
                  · simp only [if_pos ends]
                    exact .inl ⟨ends, .exit s, rfl, s.info, rfl, rfl⟩
                  · simp only [if_neg ends]
                    exact .inr ⟨ends, rfl⟩
              | some val =>
                  by_cases room : v.length < 10 ∧ s.bwCc.idx < s.bandCc.bwNum
                  · simp only [room, and_self, if_true, Option.bind_some, true_and]
                    let saved := s.info.push (regionOf name.2) s.bandCc s.bwCc.idx (number channel)
                      val
                    have next := @ih { s with info := saved } t' cleanBehind
                    rcases next with ⟨all, o, went, result⟩ | ⟨less, went⟩
                    · exact .inl ⟨all, o, went, rowOutcome_info result⟩
                    · exact .inr ⟨less, went⟩
                  · refine .inr ⟨fun all => room ⟨all.1, all.2.1⟩, ?_⟩
                    simp only [if_neg room]
                    rfl
            · simp only [if_neg short]
              exact .inr ⟨fun all => short all.1, rfl⟩
          · simp only [if_neg fits]
            exact .inr ⟨fun all => fits all.1, rfl⟩

end Rows

end Aic8800.PowerLimit
