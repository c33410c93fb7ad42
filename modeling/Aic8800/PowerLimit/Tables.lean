import Aic8800.PowerLimit.Loading

/-! # Tables of power limits

What a well-formed table is and what it lists, and what the parser makes of one.
-/

namespace Aic8800.PowerLimit

open Lib LoadState

/-! ## What is written -/

/-- A limit that is listed for a channel -/
structure Listed where
  region : Nat
  band : Band
  bandwidth : Bandwidth
  channel : Nat
  limit : Int
  deriving DecidableEq

def Band.text : Band → Bytes
  | phyBand2g4 => label2g4
  | phyBand5g => label5g

def Bandwidth.text : Bandwidth → Bytes
  | bw20 => label20m
  | bw40 => label40m
  | bw80 => label80m

def decimal (digits : Bytes) : Nat := digits.foldl (fun n c => 10 * n + (c - 48).toNat) 0

structure IsNumber (digits : Bytes) (n : Nat) : Prop where
  some' : digits ≠ []
  all : digits.all isDigit = true
  value : decimal digits = n

/-- A number with a sign or without one, or `NA` -/
inductive IsLimit : Bytes → Int → Prop where
  | na : IsLimit [78, 65] 127
  | plain {d : Bytes} {n : Nat} : IsNumber d n → IsLimit d n
  | plus {d : Bytes} {n : Nat} : IsNumber d n → IsLimit (43 :: d) n
  | minus {d : Bytes} {n : Nat} : IsNumber d n → IsLimit (45 :: d) (-n)

/-- Limits with blanks in front of each -/
inductive IsLimits : Bytes → List Int → Prop where
  | nil {bs : Bytes} : bs.all isBlank = true → IsLimits bs []
  | cons {bs f t : Bytes} {n : Int} {ns : List Int} : bs ≠ [] → bs.all isBlank = true →
      IsLimit f n → IsLimits t ns → IsLimits (bs ++ (f ++ t)) (n :: ns)

/-- Names with blanks in front of each -/
inductive IsNames : Bytes → List Bytes → Prop where
  | nil {bs : Bytes} : bs.all isBlank = true → IsNames bs []
  | cons {bs w t : Bytes} {ws : List Bytes} : bs ≠ [] → bs.all isBlank = true → w ≠ [] →
      w.all isWord = true → IsNames t ws → IsNames (bs ++ (w ++ t)) (w :: ws)

/-- An empty line, or a comment -/
def IsFiller (l : Bytes) : Prop := l.all isBlank = true ∨ ∃ t, l = hash :: space :: t

/-- `##` and this behind blanks -/
def IsTag (l t : Bytes) : Prop := ∃ bs, bs.all isBlank = true ∧ l = hash :: hash :: (bs ++ t)

/-- The label of a table with so many columns -/
def IsLabel (band : Band) (bandwidth : Bandwidth) (n : Nat) (l : Bytes) : Prop :=
  ∃ cols tail, IsNumber cols n ∧
    IsTag l (band.text ++ comma :: space ::
      (bandwidth.text ++ comma :: hash :: (cols ++ hash :: tail)))

def IsRow (channel : Nat) (limits : List Int) (l : Bytes) : Prop :=
  ∃ c h digits t, (c = 99 ∨ c = 67) ∧ (h = 104 ∨ h = 72) ∧ IsNumber digits channel ∧
    IsLimits t limits ∧ l = c :: h :: (digits ++ t)

/-- The limits of a row, one for each column -/
def rowEntries (band : Band) (bandwidth : Bandwidth) (channel : Nat) :
    List Bytes → List Int → List Listed
  | name :: names, limit :: limits =>
      ⟨regionOf name, band, bandwidth, channel, limit⟩ ::
        rowEntries band bandwidth channel names limits
  | _, _ => []

/-- Where in a table a line is -/
inductive Place where
  | outside
  | labelled (band : Band) (bandwidth : Bandwidth) (n : Nat)
  | started (band : Band) (bandwidth : Bandwidth) (n : Nat)
  | rows (band : Band) (bandwidth : Bandwidth) (names : List Bytes)

/-- The lines of tables, from this place on, and what they list -/
inductive IsTables : Place → List Bytes → List Listed → Prop where
  | nil : IsTables .outside [] []
  | filler {p : Place} {l : Bytes} {ls : List Bytes} {es : List Listed} : IsFiller l →
      IsTables p ls es → IsTables p (l :: ls) es
  | label {band : Band} {bandwidth : Bandwidth} {n : Nat} {l : Bytes} {ls : List Bytes}
      {es : List Listed} : IsLabel band bandwidth n l →
      IsTables (.labelled band bandwidth n) ls es → IsTables .outside (l :: ls) es
  | start {band : Band} {bandwidth : Bandwidth} {n : Nat} {l t : Bytes} {ls : List Bytes}
      {es : List Listed} : IsTag l (startLabel ++ t) →
      IsTables (.started band bandwidth n) ls es →
      IsTables (.labelled band bandwidth n) (l :: ls) es
  | columns {band : Band} {bandwidth : Bandwidth} {names : List Bytes} {l t : Bytes}
      {ls : List Bytes} {es : List Listed} : l = hash :: hash :: t → IsNames t names →
      IsTables (.rows band bandwidth names) ls es →
      IsTables (.started band bandwidth names.length) (l :: ls) es
  | row {band : Band} {bandwidth : Bandwidth} {names : List Bytes} {channel : Nat}
      {limits : List Int} {l : Bytes} {ls : List Bytes} {es : List Listed} :
      IsRow channel limits l → limits.length = names.length →
      IsTables (.rows band bandwidth names) ls es →
      IsTables (.rows band bandwidth names) (l :: ls)
        (rowEntries band bandwidth channel names limits ++ es)
  | stop {band : Band} {bandwidth : Bandwidth} {names : List Bytes} {l t : Bytes}
      {ls : List Bytes} {es : List Listed} : IsTag l (endLabel ++ t) → IsTables .outside ls es →
      IsTables (.rows band bandwidth names) (l :: ls) es

/-- A text of these lines -/
inductive IsText : List Bytes → Bytes → Prop where
  | last {l rest : Bytes} : Texts.Plain newline 0 l → IsText [l] (l ++ 0 :: rest)
  | next {l text : Bytes} {ls : List Bytes} : Texts.Plain newline 0 l → IsText ls text →
      IsText (l :: ls) (l ++ newline :: text)

/-! ## Numbers and limits -/

section Numbers

variable {d f t bs : Bytes} {n : Nat} {z : Int} {p : UInt8 → Bool}

theorem takeWhile_stop {w : Bytes} (inside : w.all p = true) (stop : t.head?.all (!p ·) = true) :
    (w ++ t).takeWhile p = w ∧ (w ++ t).dropWhile p = t := by
  induction w with
  | nil =>
      cases t with
      | nil => exact ⟨rfl, rfl⟩
      | cons c t =>
          have other : p c = false := by simpa using stop
          simp [other]
  | cons c w ih =>
      obtain ⟨first, inside⟩ := Bool.and_eq_true_iff.mp inside
      obtain ⟨taken, dropped⟩ := ih inside
      simp [first, taken, dropped]

/-- A number of any length, in arithmetic that wraps around -/
theorem foldl_decimal {α : Type} (cast : Nat → α) (step : α → UInt8 → α)
    (turn : ∀ n c, step (cast n) c = cast (10 * n + (c - 48).toNat)) (d : Bytes) (n : Nat) :
    d.foldl step (cast n) = cast (d.foldl (fun n c => 10 * n + (c - 48).toNat) n) := by
  induction d generalizing n with
  | nil => rfl
  | cons c d ih => rw [List.foldl_cons, List.foldl_cons, turn, ih]

theorem number_eq (isNumber : IsNumber d n) : number d = UInt8.ofNat n := by
  obtain ⟨-, -, rfl⟩ := isNumber
  refine foldl_decimal UInt8.ofNat _ (fun n c => ?_) d 0
  rw [UInt8.ofNat_add, UInt8.ofNat_mul, UInt8.ofNat_toNat, mul_comm]
  rfl

theorem magnitude_eq (isNumber : IsNumber d n) : magnitude d = Int8.ofNat n := by
  obtain ⟨-, -, rfl⟩ := isNumber
  refine foldl_decimal Int8.ofNat _ (fun n c => ?_) d 0
  have last : Int8.ofNat (c - 48).toNat = (c - 48).toInt8 := by
    rw [← UInt8.toInt8_ofNat', UInt8.ofNat_toNat]
  rw [Int8.ofNat_add, Int8.ofNat_mul, Int8.mul_comm, last]
  rfl

theorem isNumeral_of_digit {c : UInt8} (digit : isDigit c = true) : isNumeral c = true := by
  unfold isNumeral
  rw [digit, Bool.true_or, Bool.true_or]

theorem not_blank_of_numeral {c : UInt8} (numeral : isNumeral c = true) : isBlank c = false := by
  rw [Bool.eq_false_iff]
  intro blank
  rcases Bool.or_eq_true_iff.mp blank with same | same
  · obtain rfl := beq_iff_eq.mp same
    cases numeral
  · obtain rfl := beq_iff_eq.mp same
    cases numeral

theorem dropWhile_blanks (blanks : bs.all isBlank = true) (t : Bytes) :
    (bs ++ t).dropWhile isBlank = t.dropWhile isBlank := by
  induction bs with
  | nil => rfl
  | cons c bs ih =>
      obtain ⟨first, blanks⟩ := Bool.and_eq_true_iff.mp blanks
      rw [List.cons_append, List.dropWhile_cons_of_pos first, ih blanks]

theorem limitAt_numerals (blanks : bs.all isBlank = true) (some' : f ≠ [])
    (numerals : f.all isNumeral = true) (stop : t.head?.all isBlank = true) :
    limitAt (bs ++ (f ++ t)) = some (f, t) := by
  obtain ⟨c, g, rfl⟩ := List.exists_cons_of_ne_nil some'
  have first : isNumeral c = true := (Bool.and_eq_true_iff.mp numerals).1
  have other : [78, 65].isPrefixOf (c :: g ++ t) = false := by
    rw [Bool.eq_false_iff]
    intro na
    obtain ⟨rfl, -⟩ := List.cons_prefix_cons.mp (List.isPrefixOf_iff_prefix.mp na)
    cases first
  have ends : t.head?.all (!isNumeral ·) = true := by
    cases t with
    | nil => rfl
    | cons c' t =>
        have blank : isBlank c' = true := stop
        cases numeral : isNumeral c' with
        | false => simp [numeral]
        | true => cases blank.symm.trans (not_blank_of_numeral numeral)
  obtain ⟨taken, dropped⟩ := takeWhile_stop numerals ends
  have front : (bs ++ (c :: g ++ t)).dropWhile isBlank = c :: g ++ t := by
    rw [dropWhile_blanks blanks, List.cons_append,
      List.dropWhile_cons_of_neg (by rw [not_blank_of_numeral first]; exact Bool.false_ne_true)]
  have head : (c :: g ++ t).head?.any isNumeral = true := first
  unfold limitAt
  simp only [front, other, Bool.false_eq_true, if_false, head, if_true, taken, dropped]

theorem numerals_of_number (isNumber : IsNumber d n) : d.all isNumeral = true :=
  List.all_eq_true.mpr fun c there => isNumeral_of_digit (List.all_eq_true.mp isNumber.all c there)

theorem magnitude?_eq (isNumber : IsNumber d n) : magnitude? d = some (Int8.ofNat n) := by
  rw [magnitude?, if_pos isNumber.all, magnitude_eq isNumber]

theorem limitVal_number (isNumber : IsNumber d n) : limitVal d = some (Int8.ofNat n) := by
  have whole := magnitude?_eq isNumber
  unfold limitVal
  split
  · cases (Bool.and_eq_true_iff.mp isNumber.all).1
  · cases (Bool.and_eq_true_iff.mp isNumber.all).1
  · exact whole

/-- A limit ends where a blank comes, or the line ends. -/
theorem limitAt_eq (isLimit : IsLimit f z) (blanks : bs.all isBlank = true)
    (stop : t.head?.all isBlank = true) :
    ∃ f', limitAt (bs ++ (f ++ t)) = some (f', t) ∧ limitVal f' = some (Int8.ofInt z) := by
  cases isLimit with
  | na =>
      refine ⟨invalidText, ?_, rfl⟩
      unfold limitAt
      rw [dropWhile_blanks blanks]
      rfl
  | plain isNumber =>
      exact ⟨_, limitAt_numerals blanks isNumber.some' (numerals_of_number isNumber) stop,
        (limitVal_number isNumber).trans (congrArg some Int8.ofInt_eq_ofNat.symm)⟩
  | plus isNumber =>
      have numerals := Bool.and_eq_true_iff.mpr ⟨rfl, numerals_of_number isNumber⟩
      refine ⟨_, limitAt_numerals blanks (List.cons_ne_nil _ _) numerals stop, ?_⟩
      rw [limitVal, magnitude?_eq isNumber, Int8.ofInt_eq_ofNat]
  | minus isNumber =>
      have numerals := Bool.and_eq_true_iff.mpr ⟨rfl, numerals_of_number isNumber⟩
      refine ⟨_, limitAt_numerals blanks (List.cons_ne_nil _ _) numerals stop, ?_⟩
      rw [limitVal, magnitude?_eq isNumber, Int8.ofInt_neg, Int8.ofInt_eq_ofNat]
      rfl

end Numbers

/-! ## Lines -/

/-- What is saved for a listed limit -/
def PowerlimitInfo.pushListed (info : PowerlimitInfo) (e : Listed) : PowerlimitInfo :=
  info.push e.region e.band e.bandwidth.idx (UInt8.ofNat e.channel) (Int8.ofInt e.limit)

section Lines

variable {l t bs w : Bytes} {names : List Bytes} {limits : List Int} {channel n : Nat}
  {band : Band} {bandwidth : Bandwidth} {info : PowerlimitInfo} {digits : Bytes}

theorem IsLimits.stop (isLimits : IsLimits t limits) : t.head?.all isBlank = true := by
  cases isLimits with
  | nil blanks =>
      cases t with
      | nil => rfl
      | cons c t => exact (Bool.and_eq_true_iff.mp blanks).1
  | @cons bs _ _ _ _ some' blanks =>
      obtain ⟨c, bs, rfl⟩ := List.exists_cons_of_ne_nil some'
      exact (Bool.and_eq_true_iff.mp blanks).1

/-- The limits of a row are saved column by column. -/
theorem addLimits_eq (isNumber : IsNumber digits channel) (isLimits : IsLimits t limits)
    (count : limits.length = names.length) :
    addLimits info band bandwidth digits names t =
      some ((rowEntries band bandwidth channel names limits).foldl .pushListed info) := by
  induction isLimits generalizing info names with
  | nil =>
      obtain rfl := List.eq_nil_of_length_eq_zero count.symm
      rfl
  | cons _ blanks isLimit isLimits ih =>
      cases names with
      | nil => cases count
      | cons name names =>
          obtain ⟨f', found, valued⟩ := limitAt_eq isLimit blanks isLimits.stop
          rw [addLimits, found]
          simp only [valued, number_eq isNumber]
          exact ih (Nat.succ.inj count)

theorem IsNames.stop (isNames : IsNames t names) : t.head?.all (!isWord ·) = true := by
  have other : ∀ c, isBlank c = true → isWord c = false := by
    intro c blank
    rcases Bool.or_eq_true_iff.mp blank with same | same
    · obtain rfl := beq_iff_eq.mp same
      rfl
    · obtain rfl := beq_iff_eq.mp same
      rfl
  cases isNames with
  | nil blanks =>
      cases t with
      | nil => rfl
      | cons c t => simpa using other c (Bool.and_eq_true_iff.mp blanks).1
  | @cons bs _ _ _ some' blanks =>
      obtain ⟨c, bs, rfl⟩ := List.exists_cons_of_ne_nil some'
      simpa using other c (Bool.and_eq_true_iff.mp blanks).1

theorem not_blank_of_word {c : UInt8} (word : isWord c = true) : isBlank c = false := by
  rw [Bool.eq_false_iff]
  intro blank
  rcases Bool.or_eq_true_iff.mp blank with same | same
  · obtain rfl := beq_iff_eq.mp same
    cases word
  · obtain rfl := beq_iff_eq.mp same
    cases word

/-- The names are the words of the line. -/
theorem words_eq (isNames : IsNames t names) (few : n ≤ names.length) :
    words n t = names.take n := by
  induction isNames generalizing n with
  | nil =>
      obtain rfl := Nat.le_zero.mp few
      rfl
  | @cons bs w t ws some' blanks filled inside isNames ih =>
      cases n with
      | zero => rfl
      | succ n =>
          obtain ⟨c, w, rfl⟩ := List.exists_cons_of_ne_nil filled
          have first := not_blank_of_word (Bool.and_eq_true_iff.mp inside).1
          have front : (bs ++ (c :: w ++ t)).dropWhile isBlank = c :: w ++ t := by
            rw [dropWhile_blanks blanks, List.cons_append,
              List.dropWhile_cons_of_neg (by rw [first]; exact Bool.false_ne_true)]
          obtain ⟨taken, dropped⟩ := takeWhile_stop inside isNames.stop
          rw [words, front, taken, dropped, ih (Nat.le_of_succ_le_succ few), List.take_succ_cons]

theorem field_eq {left right : UInt8} {f : Bytes} (clean : right ∉ f) (t : Bytes) :
    field left right (left :: (f ++ right :: t)) = some (f, t) := by
  have inside : f.all (· != right) = true :=
    List.all_eq_true.mpr fun c there => bne_iff_ne.mpr fun same => clean (same ▸ there)
  have stop : (right :: t).head?.all (!· != right) = true := by simp
  obtain ⟨taken, dropped⟩ := takeWhile_stop inside stop
  rw [field, if_pos ⟨rfl, List.mem_append_right _ List.mem_cons_self⟩, taken, dropped,
    List.tail_cons]

theorem IsTag.tagged (tag : IsTag l t) : tagged l = true := by
  obtain ⟨bs, -, rfl⟩ := tag
  rfl

theorem not_passed_of_tagged (tag : tagged l = true) : passed l = false := by
  obtain ⟨t, rfl⟩ := List.isPrefixOf_iff_prefix.mp tag
  rfl

theorem IsTag.behindTag (tag : IsTag l t) : behindTag l = t.dropWhile isBlank := by
  obtain ⟨bs, blanks, rfl⟩ := tag
  exact dropWhile_blanks blanks t

/-- The label is read as it is written, and a table with 256 columns as one with none. -/
theorem label_eq (isLabel : IsLabel band bandwidth n l) (band' : Band) (bandwidth' : Bandwidth) :
    label band' bandwidth' l =
      if UInt8.ofNat n = 0 then none else some (band, bandwidth, UInt8.ofNat n) := by
  obtain ⟨cols, tail, isNumber, tag⟩ := isLabel
  have cleanCols : hash ∉ cols := by
    intro there
    cases List.all_eq_true.mp isNumber.all hash there
  have first := tag.behindTag
  have shown : (band.text ++ comma :: space :: (bandwidth.text ++ comma :: hash ::
      (cols ++ hash :: tail))).dropWhile isBlank = band.text ++ comma :: space ::
        (bandwidth.text ++ comma :: hash :: (cols ++ hash :: tail)) := by
    cases band <;> rfl
  rw [shown] at first
  have cleanBand : comma ∉ band.text := by cases band <;> decide
  have cleanBandwidth : comma ∉ bandwidth.text := by cases bandwidth <;> decide
  have named : labelBand band.text band' = band := by cases band <;> rfl
  have wide : labelBandwidth bandwidth.text bandwidth' = bandwidth := by cases bandwidth <;> rfl
  rw [label, first, field_eq cleanBand]
  simp only [field_eq cleanBandwidth, field_eq cleanCols, isNumber.all, true_and,
    number_eq isNumber, named, wide, ne_eq]
  split_ifs <;> simp_all

theorem passed_of_filler (filler : IsFiller l) : passed l = true := by
  rcases filler with blank | ⟨t, rfl⟩
  · cases l with
    | nil => rfl
    | cons c l => exact Bool.or_eq_true_iff.mpr (.inl (Bool.and_eq_true_iff.mp blank).1)
  · exact Bool.or_eq_true_iff.mpr (.inr rfl)

/-- A row is a channel line, with its number and its limits. -/
theorem row_pieces (isRow : IsRow channel limits l) :
    passed l = false ∧ tagged l = false ∧ isCh l = true ∧
      ∃ digits t, IsNumber digits channel ∧ IsLimits t limits ∧
        (l.drop 2).takeWhile isDigit = digits ∧ (l.drop 2).dropWhile isDigit = t := by
  obtain ⟨c, h, digits, t, isC, isH, isNumber, isLimits, rfl⟩ := isRow
  have stop : t.head?.all (!isDigit ·) = true := by
    have blank := isLimits.stop
    cases t with
    | nil => rfl
    | cons c t =>
        have blank : isBlank c = true := blank
        cases digit : isDigit c with
        | false => simp [digit]
        | true => cases blank.symm.trans (not_blank_of_numeral (isNumeral_of_digit digit))
  obtain ⟨taken, dropped⟩ := takeWhile_stop isNumber.all stop
  refine ⟨?_, ?_, ?_, digits, t, isNumber, isLimits, taken, dropped⟩
  · rcases isC with rfl | rfl <;> rfl
  · rcases isC with rfl | rfl <;> rfl
  · rcases isC with rfl | rfl <;> rcases isH with rfl | rfl <;> rfl

end Lines

/-! ## Runs -/

/-- The state is that of a parser at this place of a table. -/
def Place.Shows (s : LoadState) : Place → Prop
  | outside => s.loadingStage = .excMapping ∨ s.loadingStage = .tabDefine
  | labelled band bandwidth n => s.loadingStage = .tabStart ∧ s.bandCc = band ∧
      s.bwCc = bandwidth ∧ s.colNum = UInt8.ofNat n
  | started band bandwidth n => s.loadingStage = .columnDefine ∧ s.bandCc = band ∧
      s.bwCc = bandwidth ∧ s.colNum = UInt8.ofNat n
  | rows band bandwidth names => s.loadingStage = .chRow ∧ s.bandCc = band ∧ s.bwCc = bandwidth ∧
      s.colNum = UInt8.ofNat names.length ∧ ∃ (id : Nat) (held : List (Nat × Bytes)),
        s.regName = some (id, held.map Slot.ofName) ∧
          held.map Prod.snd = names.take s.colNum.toNat

/-- A channel in a region, a band and a bandwidth -/
def Listed.key (e : Listed) : Nat × Band × Bandwidth × Nat :=
  (e.region, e.band, e.bandwidth, e.channel)

/-- What a line with these lines behind it leads to -/
def Reads (s : LoadState) (ls : List Bytes) (es : List Listed) : Outcome → Prop
  | .exit s' => s'.info.ccMatched = s.info.ccMatched
  | .next s' => ∃ p' read left, es = read ++ left ∧ IsTables p' ls left ∧ p'.Shows s' ∧
      s'.info = read.foldl .pushListed s.info

section Runs

variable {env : Env} {s s' : LoadState} {l t rest : Bytes} {p : Place} {ls : List Bytes}
  {es : List Listed} {o : Outcome} {band : Band} {bandwidth : Bandwidth} {n channel : Nat}
  {names : List Bytes} {limits : List Int}

theorem reads_label (isLabel : IsLabel band bandwidth n l)
    (tables : IsTables (.labelled band bandwidth n) ls es) (clean : 0 ∉ l)
    (went : tabDefine env s (l ++ 0 :: rest) = some o) : Reads s ls es o := by
  have read := label_eq isLabel s.bandCc s.bwCc
  obtain ⟨cols, tail, -, tag⟩ := isLabel
  rcases tabDefine_text env s clean tag.tagged rest with ⟨-, read'⟩ | ⟨-, none'⟩
  · cases read'.symm.trans went
    rw [labelOutcome, read]
    split
    · rfl
    · rename_i found
      split at found
      · cases found
      · cases found
        exact ⟨_, [], es, rfl, tables, ⟨rfl, rfl, rfl, rfl⟩, rfl⟩
  · cases none'.symm.trans went

theorem reads_start (tag : IsTag l (startLabel ++ t))
    (tables : IsTables (.started band bandwidth n) ls es)
    (shows' : (Place.labelled band bandwidth n).Shows s)
    (went : tabStart s (l ++ 0 :: rest) = some o) : Reads s ls es o := by
  have found : startLabel.isPrefixOf (behindTag l) = true := by
    rw [tag.behindTag]
    exact List.isPrefixOf_iff_prefix.mpr (List.prefix_append startLabel t)
  rw [tabStart_text tag.tagged, if_pos found] at went
  cases went
  exact ⟨_, [], es, rfl, tables, ⟨rfl, shows'.2⟩, rfl⟩

theorem words_dropWhile (n : Nat) (t : Bytes) : words n (t.dropWhile isBlank) = words n t := by
  cases n with
  | zero => rfl
  | succ n => rw [words, words, List.dropWhile_idempotent]

theorem reads_columns (isNames : IsNames t names)
    (tables : IsTables (.rows band bandwidth names) ls es)
    (shows' : (Place.started band bandwidth names.length).Shows s) (good : s.Good)
    (went : columnDefine env s (hash :: hash :: t ++ 0 :: rest) = some o) : Reads s ls es o := by
  obtain ⟨stage, sameBand, sameBandwidth, count⟩ := shows'
  rw [Good, stage] at good
  have few : s.colNum.toNat ≤ names.length := by
    rw [count, UInt8.toNat_ofNat']
    exact Nat.mod_le _ _
  rcases columnDefine_text env rest good.2 (l := hash :: hash :: t) rfl with
    ⟨-, exits⟩ | ⟨-, held, h, -, ⟨-, texts, loaded⟩ | ⟨m, -, -, exits⟩⟩
  · cases exits.symm.trans went
    rfl
  · cases loaded.symm.trans went
    have same : words s.colNum.toNat (behindTag (hash :: hash :: t)) =
        names.take s.colNum.toNat := (words_dropWhile _ t).trans (words_eq isNames few)
    exact ⟨_, [], es, rfl, tables,
      ⟨rfl, sameBand, sameBandwidth, count, _, held, rfl, texts.trans same⟩, rfl⟩
  · cases exits.symm.trans went
    rfl

/-- A row with a limit for each of so many columns names a region twice. -/
theorem few_columns (count : limits.length = names.length)
    (distinct : ((rowEntries band bandwidth channel names limits).map Listed.key).Nodup) :
    names.length ≤ maxRegionNum := by
  have regions : ∀ (names : List Bytes) (limits : List Int), limits.length = names.length →
      (rowEntries band bandwidth channel names limits).map Listed.key =
        names.map fun name => (regionOf name, band, bandwidth, channel) := by
    intro names
    induction names with
    | nil => intro limits _; cases limits <;> rfl
    | cons name names ih =>
        intro limits count
        cases limits with
        | nil => cases count
        | cons limit limits =>
            rw [rowEntries, List.map_cons, List.map_cons, ih limits (Nat.succ.inj count)]
            rfl
  rw [regions names limits count] at distinct
  have numbers : (names.map regionOf).Nodup := by
    have key : names.map (fun name => (regionOf name, band, bandwidth, channel)) =
        (names.map regionOf).map fun r => (r, band, bandwidth, channel) := by
      rw [List.map_map]
      rfl
    rw [key] at distinct
    exact distinct.of_map _
  have inside : names.map regionOf ⊆ List.range maxRegionNum := by
    intro r there
    obtain ⟨name, -, rfl⟩ := List.mem_map.mp there
    exact List.mem_range.mpr (regionOf_lt name)
  have less := (numbers.subperm inside).length_le
  rwa [List.length_map, List.length_range] at less

theorem reads_row (isRow : IsRow channel limits l) (count : limits.length = names.length)
    (tables : IsTables (.rows band bandwidth names) ls es)
    (shows' : (Place.rows band bandwidth names).Shows s) (good : s.Good) (clean : 0 ∉ l)
    (distinct : ((rowEntries band bandwidth channel names limits).map Listed.key).Nodup)
    (went : chRow env s (l ++ 0 :: rest) = some o) :
    Reads s ls (rowEntries band bandwidth channel names limits ++ es) o := by
  have shown := shows'
  obtain ⟨stage, sameBand, sameBandwidth, columns, id, held, regName, texts⟩ := shows'
  rw [Good, stage] at good
  obtain ⟨id', held', regName', length, -⟩ := good
  have same : held.length = s.colNum.toNat := by
    have slots := (Prod.mk.inj (Option.some.inj (regName.symm.trans regName'))).2
    rw [← length, ← List.length_map Slot.ofName, slots, List.length_map]
  have few := few_columns count distinct
  have all : names.take s.colNum.toNat = names := by
    rw [columns, UInt8.toNat_ofNat', Nat.mod_eq_of_lt (by unfold maxRegionNum at few; omega),
      List.take_length]
  obtain ⟨-, untagged, isCh', digits, t, isNumber, isLimits, rfl, rfl⟩ := row_pieces isRow
  rcases chRow_row env rest clean untagged isCh' regName same with
    ⟨-, o', went', result⟩ | ⟨-, none'⟩
  · cases went'.symm.trans went
    rw [texts, all, sameBand, sameBandwidth, addLimits_eq isNumber isLimits count] at result
    cases o with
    | exit s' => cases result
    | next s' =>
        obtain rfl := result
        exact ⟨_, _, es, rfl, tables, shown, rfl⟩
  · cases none'.symm.trans went

theorem reads_stop (tag : IsTag l (endLabel ++ t)) (tables : IsTables .outside ls es)
    (good : s.Good) (went : chRow env s (l ++ 0 :: rest) = some o) : Reads s ls es o := by
  have found : endLabel.isPrefixOf (behindTag l) = true := by
    rw [tag.behindTag]
    exact List.isPrefixOf_iff_prefix.mpr (List.prefix_append endLabel t)
  obtain ⟨h, freed, -⟩ := good.freeNames
  rw [chRow_end tag.tagged freed, if_pos found] at went
  cases went
  exact ⟨_, [], es, rfl, tables, .inr rfl, rfl⟩

/-- A line of a table is read as it is meant, unless the parser gives up there. -/
theorem reads_step (tables : IsTables p (l :: ls) es) (shows' : p.Shows s) (good : s.Good)
    (clean : 0 ∉ l) (distinct : (es.map Listed.key).Nodup)
    (went : s.step env (l ++ 0 :: rest) = some o) : Reads s ls es o := by
  cases tables with
  | filler filler tables =>
      rw [step_passed env rest clean (passed_of_filler filler)] at went
      cases went
      exact ⟨p, [], es, rfl, tables, shows', rfl⟩
  | label isLabel tables =>
      have tag : tagged l = true := by
        obtain ⟨cols, tail, -, tag⟩ := isLabel
        exact tag.tagged
      rw [step_read env s rest clean (not_passed_of_tagged tag)] at went
      rcases shows' with stage | stage
      · have some' : l ≠ [] := by
          rintro rfl
          cases tag
        obtain ⟨found, read, hashed⟩ := hasHash_text rest some'
        obtain rfl := hashed tag
        simp only [stage, read, Option.bind_some, if_true] at went
        exact reads_label (s := { s with loadingStage := .tabDefine }) isLabel tables clean went
      · simp only [stage] at went
        exact reads_label isLabel tables clean went
  | start tag tables =>
      rw [step_read env s rest clean (not_passed_of_tagged tag.tagged)] at went
      simp only [shows'.1] at went
      exact reads_start tag tables shows' went
  | columns same isNames tables =>
      subst same
      rw [step_read env s rest clean (not_passed_of_tagged rfl)] at went
      simp only [shows'.1] at went
      exact reads_columns isNames tables shows' good went
  | row isRow count tables =>
      rw [step_read env s rest clean (row_pieces isRow).1] at went
      simp only [shows'.1] at went
      rw [List.map_append] at distinct
      exact reads_row isRow count tables shows' good clean distinct.of_append_left went
  | stop tag tables =>
      rw [step_read env s rest clean (not_passed_of_tagged tag.tagged)] at went
      simp only [shows'.1] at went
      exact reads_stop tag tables good went

/-- A table that is parsed to its end leaves what it lists. -/
theorem reads_text {text : Bytes} (isText : IsText ls text) (tables : IsTables p ls es)
    (shows' : p.Shows s) (good : s.Good) (distinct : (es.map Listed.key).Nodup)
    (ends : TextEnds env s text) :
    ∃ s', parseLines env s text = some s' ∧
      s'.info = { es.foldl .pushListed s.info with ccMatched := true } := by
  induction isText generalizing p es s with
  | @last l rest plain =>
      obtain ⟨s₁, turn⟩ := textEnds_last plain ends
      obtain ⟨p', read, left, rfl, tables', -, info⟩ :=
        reads_step tables shows' good plain.not_mem distinct turn
      cases tables'
      refine ⟨s₁.matched, ?_, ?_⟩
      · rw [parseLines_last plain, turn]
      · rw [List.append_nil, ← info]
        rfl
  | @next l text ls plain isText ih =>
      obtain ⟨s₁, turn, behind⟩ := textEnds_next plain ends
      obtain ⟨p', read, left, rfl, tables', shows'', info⟩ :=
        reads_step tables shows' good plain.not_mem distinct turn
      have good' : s₁.Good := by
        rcases step_text env text good plain.not_mem with ⟨-, o, went, leads⟩ | ⟨-, faults⟩
        · cases went.symm.trans turn
          exact leads
        · rw [turn] at faults
          exact faults.elim
      rw [List.map_append] at distinct
      obtain ⟨s', went, listed⟩ := ih tables' shows'' good' distinct.of_append_right behind
      refine ⟨s', ?_, ?_⟩
      · rw [parseLines_next plain, turn]
        exact went
      · rw [listed, info, List.foldl_append]

end Runs

end Aic8800.PowerLimit
