import Aic8800.PowerLimit.Tables

/-! # Looking up the limits of a table

What is looked up behind a table that was parsed to its end, told from what the table lists.
-/

namespace Aic8800.PowerLimit

open Lib LoadState

/-! ## What a table leaves -/

/-- What the table holds for a listed limit -/
def Listed.entry (e : Listed) : UInt8 × Int8 := (UInt8.ofNat e.channel, Int8.ofInt e.limit)

/-- What is listed for a region, a band and a bandwidth -/
def rowsOf (es : List Listed) (region : Nat) (band : Band) (bandwidth : Bandwidth) : List Listed :=
  es.filter fun e => e.region = region ∧ e.band = band ∧ e.bandwidth = bandwidth

/-- What there is room for -/
def kept (es : List Listed) (region : Nat) (band : Band) (bandwidth : Bandwidth) : List Listed :=
  (rowsOf es region band bandwidth).take band.channelMax

section Entries

variable {info : PowerlimitInfo} {region : Nat} {band : Band} {bandwidth : Bandwidth}
  {es : List Listed} {e : Listed}

theorem Limits.entries_push {n : Nat} (l : Limits n) (channelNum : UInt8) (powerLimit : Int8) :
    (l.push channelNum powerLimit).entries = (l.entries ++ [(channelNum, powerLimit)]).take n := by
  unfold Limits.push
  split
  · rename_i room
    exact (List.take_of_length_le (by simpa using room)).symm
  · rename_i full
    have whole := Nat.le_antisymm l.fits (Nat.not_lt.mp full)
    exact (List.take_left' whole).symm

theorem Bandwidth.idx_inj (bandwidth other : Bandwidth) :
    bandwidth.idx = other.idx ↔ bandwidth = other := by
  cases bandwidth <;> cases other <;> simp [Bandwidth.idx]

/-- A limit is added where it is listed, if there is room, and nothing else is changed. -/
theorem entries_pushListed (info : PowerlimitInfo) (e : Listed) (region : Nat) (band : Band)
    (bandwidth : Bandwidth) :
    (info.pushListed e).entries region band bandwidth.idx =
      (info.entries region band bandwidth.idx).map fun xs =>
        if e.region = region ∧ e.band = band ∧ e.bandwidth = bandwidth then
          (xs ++ [e.entry]).take band.channelMax
        else xs := by
  obtain ⟨region', band', bandwidth', channel, limit⟩ := e
  unfold PowerlimitInfo.pushListed PowerlimitInfo.entries PowerlimitInfo.push
  by_cases inside : region < maxRegionNum ∧ bandwidth.idx < band.bwNum
  · rw [if_pos inside, if_pos inside]
    by_cases same : region = region'
    · subst same
      by_cases wide : bandwidth = bandwidth'
      · subst wide
        cases band <;> cases band' <;> simp [Limits.entries_push, Listed.entry]
      · have other := mt (Bandwidth.idx_inj bandwidth bandwidth').mp wide
        cases band <;> cases band' <;> simp [other, Ne.symm wide]
    · cases band <;> simp [same, Ne.symm same]
  · rw [if_neg inside, if_neg inside]
    rfl

theorem take_take_append {α : Type} (n : Nat) (xs ys : List α) :
    (xs.take n ++ ys).take n = (xs ++ ys).take n := by
  rw [List.take_append, List.take_append, List.take_take, Nat.min_self, List.length_take]
  congr 2
  omega

theorem entries_listed (es : List Listed) {xs : List (UInt8 × Int8)}
    (before : info.entries region band bandwidth.idx = some xs)
    (fits : xs.length ≤ band.channelMax) :
    (es.foldl .pushListed info).entries region band bandwidth.idx =
      some ((xs ++ (rowsOf es region band bandwidth).map Listed.entry).take band.channelMax) := by
  induction es generalizing info xs with
  | nil =>
      rw [rowsOf, List.filter_nil, List.map_nil, List.append_nil, List.take_of_length_le fits]
      exact before
  | cons e es ih =>
      have pushed := entries_pushListed info e region band bandwidth
      rw [before, Option.map_some] at pushed
      rw [List.foldl_cons, rowsOf, List.filter_cons]
      split at pushed
      · rename_i here
        rw [ih pushed (List.length_take_le _ _), if_pos (decide_eq_true here), List.map_cons,
          take_take_append, List.append_assoc]
        rfl
      · rename_i elsewhere
        rw [ih pushed fits, if_neg (by simpa using elsewhere)]
        rfl

/-- The table is told by what was listed. -/
theorem entries_parsed (es : List Listed) (inside : region < maxRegionNum)
    (wide : bandwidth.idx < band.bwNum) :
    (es.foldl PowerlimitInfo.pushListed .cleared).entries region band bandwidth.idx =
      some ((kept es region band bandwidth).map Listed.entry) := by
  have before : PowerlimitInfo.cleared.entries region band bandwidth.idx = some [] := by
    unfold PowerlimitInfo.entries
    rw [if_pos ⟨inside, wide⟩]
    cases band <;> rfl
  rw [entries_listed es before (Nat.zero_le _), List.nil_append, kept, List.map_take]

end Entries

/-! ## Lookups -/

/-- The band that a channel is looked up in -/
def bandOfChannel (channel : Nat) : Band := if channel ≤ 14 then .phyBand2g4 else .phyBand5g

/-- The limit in a byte of the first row with the number in a byte, where the channel is one that
    is looked for -/
def shown (es : List Listed) (region : Nat) (bandwidth : Bandwidth) (channel : Nat) : Int :=
  if channel ≤ 165 then
    match (kept es region (bandOfChannel channel) bandwidth).find? fun e =>
      e.channel % 256 = channel with
    | none => 127
    | some e => e.limit.bmod 256
  else 127

/-- The limit is listed for that. -/
def Listed.For (e : Listed) (region : Nat) (bandwidth : Bandwidth) (channel : Nat) : Prop :=
  e.region = region ∧ e.bandwidth = bandwidth ∧ e.channel = channel

/-- What is listed is looked up, and nothing else, and at 20 MHz by the frequency as well. -/
structure PowerlimitInfo.Serves (info : PowerlimitInfo) (es : List Listed) : Prop where
  listed : ∀ e ∈ es, ∀ c : UInt8, c.toNat = e.channel → ∃ limit,
    info.getPowerlimitByChnum c e.region e.bandwidth.idx = some limit ∧ limit.toInt = e.limit
  unlisted : ∀ region < maxRegionNum, ∀ (bandwidth : Bandwidth) (c : UInt8),
    bandwidth.idx < (bandOfChannel c.toNat).bwNum →
    (∀ e ∈ es, ¬e.For region bandwidth c.toNat) →
      info.getPowerlimitByChnum c region bandwidth.idx = some invalidVal
  agrees : ∀ region < maxRegionNum, ∀ c : UInt8, 1 ≤ c → c ≤ 165 →
    info.getPowerlimitByFreq (bandOfChannel c.toNat)
      (phyChannelToFreq (bandOfChannel c.toNat) c) region =
        info.getPowerlimitByChnum c region Bandwidth.bw20.idx

/-- A listing does not contradict itself: in the band that a channel is looked up in, the first row
    with its number in a byte that there is room for has the limit that is listed, or there is no
    such row where none is. -/
structure Clear (es : List Listed) : Prop where
  listed : ∀ e ∈ es, e.channel < 256 →
    (e.channel ≤ 165 → e.bandwidth.idx < (bandOfChannel e.channel).bwNum) ∧
      shown es e.region e.bandwidth e.channel = e.limit
  unlisted : ∀ region < maxRegionNum, ∀ (bandwidth : Bandwidth), ∀ channel < 256,
    bandwidth.idx < (bandOfChannel channel).bwNum →
    (∀ e ∈ es, ¬e.For region bandwidth channel) → shown es region bandwidth channel = 127

section Lookups

variable {info : PowerlimitInfo} {es : List Listed} {region : Nat} {bandwidth : Bandwidth}
  {c : UInt8}

theorem entry_shown (rows : List Listed) (c : UInt8) :
    ∃ limit, PowerlimitInfo.getPowerlimitByChnum.search c (some (rows.map Listed.entry)) =
        some limit ∧
      limit.toInt = match rows.find? fun e => e.channel % 256 = c.toNat with
        | none => 127
        | some e => e.limit.bmod 256 := by
  have same : ((c == ·.1) ∘ Listed.entry) = fun e => decide (e.channel % 256 = c.toNat) := by
    funext e
    rw [Function.comp_apply, Listed.entry, Bool.eq_iff_iff, beq_iff_eq, decide_eq_true_iff,
      ← UInt8.toNat_inj, UInt8.toNat_ofNat']
    exact eq_comm
  unfold PowerlimitInfo.getPowerlimitByChnum.search
  simp only [List.find?_map, same]
  cases rows.find? fun e => decide (e.channel % 256 = c.toNat) with
  | none => exact ⟨_, rfl, rfl⟩
  | some e => exact ⟨_, rfl, Int8.toInt_ofInt⟩

/-- The table that is left when these were listed, and the parser came to the end -/
def parsed (es : List Listed) : PowerlimitInfo :=
  { es.foldl PowerlimitInfo.pushListed .cleared with ccMatched := true }

theorem search_band (info : PowerlimitInfo) (matched : info.ccMatched = true) (region bw : Nat)
    (small : c.toNat ≤ 165) :
    info.getPowerlimitByChnum c region bw = PowerlimitInfo.getPowerlimitByChnum.search c
      (info.entries region (bandOfChannel c.toNat) bw) := by
  unfold PowerlimitInfo.getPowerlimitByChnum bandOfChannel
  rw [if_neg (not_not_intro matched)]
  have low : c ≤ 14 ↔ c.toNat ≤ 14 := UInt8.le_iff_toNat_le
  have high : c ≤ 165 ↔ c.toNat ≤ 165 := UInt8.le_iff_toNat_le
  by_cases first : c.toNat ≤ 14
  · rw [if_pos (low.mpr first), if_pos first]
  · rw [if_neg (mt low.mp first), if_neg first, if_pos (high.mpr small)]

/-- What is looked up is what is shown, in a bandwidth that the band has. -/
theorem lookup_shown (es : List Listed) (inside : region < maxRegionNum)
    (wide : c.toNat ≤ 165 → bandwidth.idx < (bandOfChannel c.toNat).bwNum) :
    ∃ limit, (parsed es).getPowerlimitByChnum c region bandwidth.idx = some limit ∧
      limit.toInt = shown es region bandwidth c.toNat := by
  unfold shown
  by_cases small : c.toNat ≤ 165
  · have held : (parsed es).entries region (bandOfChannel c.toNat) bandwidth.idx =
        some ((kept es region (bandOfChannel c.toNat) bandwidth).map Listed.entry) :=
      entries_parsed es inside (wide small)
    rw [search_band _ rfl region _ small, held, if_pos small]
    exact entry_shown _ c
  · refine ⟨invalidVal, ?_, (if_neg small).symm⟩
    have matched : (parsed es).ccMatched = true := rfl
    have high : ¬c ≤ 165 := mt UInt8.le_iff_toNat_le.mp small
    have low : ¬c ≤ 14 := fun first => high (UInt8.le_trans first (by decide))
    unfold PowerlimitInfo.getPowerlimitByChnum
    rw [if_neg (not_not_intro matched), if_neg low, if_neg high]

/-- A table that has no such bandwidth is looked at outside. -/
theorem lookup_outside (small : c.toNat ≤ 165)
    (narrow : ¬bandwidth.idx < (bandOfChannel c.toNat).bwNum) :
    (parsed es).getPowerlimitByChnum c region bandwidth.idx = none := by
  have absent : (parsed es).entries region (bandOfChannel c.toNat) bandwidth.idx = none :=
    if_neg fun both => narrow both.2
  rw [search_band _ rfl region _ small, absent]
  rfl

/-! ## Frequencies -/

theorem phyChannelToFreq_toNat (band : Band) (channel : UInt8) :
    (phyChannelToFreq band channel).toNat =
      match band with
      | .phyBand2g4 =>
          if 1 ≤ channel.toNat ∧ channel.toNat ≤ 14 then
            if channel.toNat = 14 then 2484 else 2407 + channel.toNat * 5
          else 0
      | .phyBand5g =>
          if 1 ≤ channel.toNat ∧ channel.toNat ≤ 165 then 5000 + channel.toNat * 5 else 0 := by
  have byte := channel.toNat_lt
  unfold phyChannelToFreq
  cases band with
  | phyBand2g4 =>
      simp only [true_and, reduceCtorEq, false_and, if_false, UInt8.le_iff_toNat_le,
        ← UInt8.toNat_inj]
      split_ifs <;> simp_all
      all_goals omega
  | phyBand5g =>
      simp only [true_and, reduceCtorEq, false_and, if_false, UInt8.le_iff_toNat_le]
      split_ifs <;> simp_all
      all_goals omega

/-- The channels of a band have frequencies of their own. -/
theorem phyChannelToFreq_eq (some' : 1 ≤ c.toNat) (small : c.toNat ≤ 165) (channel : UInt8) :
    (phyChannelToFreq (bandOfChannel c.toNat) c =
      phyChannelToFreq (bandOfChannel c.toNat) channel) ↔ c = channel := by
  rw [← UInt16.toNat_inj, ← UInt8.toNat_inj, phyChannelToFreq_toNat, phyChannelToFreq_toNat]
  unfold bandOfChannel
  split_ifs <;> grind

theorem lookups_agree (info : PowerlimitInfo) (region : Nat) (some' : 1 ≤ c) (small : c ≤ 165) :
    info.getPowerlimitByFreq (bandOfChannel c.toNat)
        (phyChannelToFreq (bandOfChannel c.toNat) c) region =
      info.getPowerlimitByChnum c region 0 := by
  have some' : 1 ≤ c.toNat := UInt8.le_iff_toNat_le.mp some'
  have small : c.toNat ≤ 165 := UInt8.le_iff_toNat_le.mp small
  by_cases matched : info.ccMatched = true
  · rw [search_band info matched region 0 small]
    unfold PowerlimitInfo.getPowerlimitByFreq PowerlimitInfo.getPowerlimitByChnum.search
    rw [if_neg (not_not_intro matched)]
    cases info.entries region (bandOfChannel c.toNat) 0 with
    | none => rfl
    | some found =>
        have same : (fun entry : UInt8 × Int8 => phyChannelToFreq (bandOfChannel c.toNat) c ==
            phyChannelToFreq (bandOfChannel c.toNat) entry.1) = fun entry => c == entry.1 := by
          funext entry
          rw [Bool.eq_iff_iff, beq_iff_eq, beq_iff_eq, phyChannelToFreq_eq some' small]
        simp only [same]
  · unfold PowerlimitInfo.getPowerlimitByFreq PowerlimitInfo.getPowerlimitByChnum
    rw [if_pos matched, if_pos matched]

/-! ## Listings -/

theorem mem_rowEntries {band : Band} {channel : Nat} {names : List Bytes} {limits : List Int}
    {e : Listed} (there : e ∈ rowEntries band bandwidth channel names limits) :
    e.region < maxRegionNum := by
  induction names generalizing limits with
  | nil => cases there
  | cons name names ih =>
      cases limits with
      | nil => cases there
      | cons limit limits =>
          rcases List.mem_cons.mp there with rfl | there
          · exact regionOf_lt name
          · exact ih there

theorem IsTables.inside {p : Place} {ls : List Bytes} (tables : IsTables p ls es) :
    ∀ e ∈ es, e.region < maxRegionNum := by
  induction tables with
  | nil => nofun
  | filler _ _ ih | label _ _ ih | start _ _ ih | columns _ _ _ ih | stop _ _ ih => exact ih
  | row _ _ _ ih =>
      intro e there
      rcases List.mem_append.mp there with here | behind
      · exact mem_rowEntries here
      · exact ih e behind

/-- A listing is served if it is clear, and only then. -/
theorem serves_iff (inside : ∀ e ∈ es, e.region < maxRegionNum) :
    (parsed es).Serves es ↔ Clear es := by
  constructor
  · intro serves
    constructor
    · intro e there byte
      have number : (UInt8.ofNat e.channel).toNat = e.channel := UInt8.toNat_ofNat_of_lt' byte
      obtain ⟨limit, found, valued⟩ := serves.listed e there _ number
      have wide : e.channel ≤ 165 → e.bandwidth.idx < (bandOfChannel e.channel).bwNum := by
        intro small
        by_contra narrow
        rw [← number] at small narrow
        cases (lookup_outside small narrow).symm.trans found
      obtain ⟨limit', found', shown'⟩ :=
        lookup_shown (c := UInt8.ofNat e.channel) es (inside e there) (by rwa [number])
      cases found.symm.trans found'
      rw [number] at shown'
      exact ⟨wide, shown'.symm.trans valued⟩
    · intro region less bandwidth channel byte wide absent
      have number : (UInt8.ofNat channel).toNat = channel := UInt8.toNat_ofNat_of_lt' byte
      rw [← number] at wide absent
      obtain ⟨limit, found, valued⟩ := lookup_shown es less fun _ => wide
      cases (serves.unlisted region less bandwidth _ wide absent).symm.trans found
      rw [number] at valued
      exact valued.symm
  · intro clear
    refine ⟨?_, ?_, fun region _ c some' small => lookups_agree _ region some' small⟩
    · intro e there c number
      obtain ⟨wide, shown'⟩ := clear.listed e there (number ▸ c.toNat_lt)
      rw [← number] at wide shown'
      obtain ⟨limit, found, valued⟩ := lookup_shown es (inside e there) wide
      exact ⟨limit, found, valued.trans shown'⟩
    · intro region less bandwidth c wide absent
      obtain ⟨limit, found, valued⟩ := lookup_shown es less fun _ => wide
      have invalid := clear.unlisted region less bandwidth _ c.toNat_lt wide absent
      rw [found, ← Int8.toInt_inj.mp (valued.trans invalid : limit.toInt = invalidVal.toInt)]

/-- The band has the channel. -/
def Band.Has (band : Band) (channel : Nat) : Prop := bandOfChannel channel = band ∧ channel ≤ 165

/-- Nothing is listed but channels of their bands, with limits that a byte has, and no more rows than
    there is room for. -/
structure Regular (es : List Listed) : Prop where
  has : ∀ e ∈ es, e.band.Has e.channel
  wide : ∀ e ∈ es, e.bandwidth.idx < e.band.bwNum
  byte : ∀ e ∈ es, -128 ≤ e.limit ∧ e.limit ≤ 127
  few : ∀ (region : Nat) (band : Band) (bandwidth : Bandwidth),
    (rowsOf es region band bandwidth).length ≤ band.channelMax

theorem mem_rowsOf {e : Listed} {band : Band} : e ∈ rowsOf es region band bandwidth ↔
    e ∈ es ∧ e.region = region ∧ e.band = band ∧ e.bandwidth = bandwidth := by
  rw [rowsOf, List.mem_filter, decide_eq_true_iff]

theorem key_inj (distinct : (es.map Listed.key).Nodup) {e e' : Listed} (there : e ∈ es)
    (there' : e' ∈ es) (same : e.key = e'.key) : e = e' :=
  List.inj_on_of_nodup_map distinct there there' same

theorem clear_of_regular (regular : Regular es) (distinct : (es.map Listed.key).Nodup) :
    Clear es := by
  have all : ∀ region band bandwidth, kept es region band bandwidth =
      rowsOf es region band bandwidth := fun region band bandwidth =>
    List.take_of_length_le (regular.few region band bandwidth)
  constructor
  · intro e there _
    obtain ⟨own, small⟩ := regular.has e there
    refine ⟨fun _ => own ▸ regular.wide e there, ?_⟩
    rw [shown, if_pos small, all, own]
    have first : (rowsOf es e.region e.band e.bandwidth).find?
        (fun e' => e'.channel % 256 = e.channel) = some e := by
      cases found : (rowsOf es e.region e.band e.bandwidth).find?
          (fun e' => e'.channel % 256 = e.channel) with
      | none =>
          have absent := List.find?_eq_none.mp found e (mem_rowsOf.mpr ⟨there, rfl, rfl, rfl⟩)
          simp only [decide_eq_true_eq] at absent
          omega
      | some e' =>
          obtain ⟨there', sameRegion, sameBand, sameBandwidth⟩ :=
            mem_rowsOf.mp (List.mem_of_find?_eq_some found)
          have number := List.find?_some found
          have small' := (regular.has e' there').2
          simp only [decide_eq_true_eq] at number
          rw [Nat.mod_eq_of_lt (by omega)] at number
          rw [key_inj distinct there' there]
          rw [Listed.key, sameRegion, sameBand, sameBandwidth, number]
          rfl
    rw [first]
    have byte := regular.byte e there
    exact Int.bmod_eq_of_le (by omega) (by omega)
  · intro region _ bandwidth channel _ _ absent
    unfold shown
    split
    · rename_i small
      rw [all]
      have none' : (rowsOf es region (bandOfChannel channel) bandwidth).find?
          (fun e => e.channel % 256 = channel) = none := by
        rw [List.find?_eq_none]
        intro e there
        obtain ⟨there, sameRegion, -, sameBandwidth⟩ := mem_rowsOf.mp there
        have small' := (regular.has e there).2
        rw [decide_eq_true_iff, Nat.mod_eq_of_lt (by omega)]
        exact fun number => absent e there ⟨sameRegion, sameBandwidth, number⟩
      rw [none']
    · rfl

end Lookups

/-! ## Texts -/

/-- The parser stays where it may be and frees what it allocated, and what it leaves serves every
    table that is parsed to its end. -/
def Meets (env : Env) (text : Bytes) : Prop :=
  ∃ info heap, rwnxPlatPowerlimitParsing env text = some (info, heap) ∧ heap.live = [] ∧
    ∀ ls es, IsText ls text → IsTables .outside ls es → (es.map Listed.key).Nodup →
      TextEnds env .init text → info.Serves es

/-- Every line fits that is come to, and the listing of tables that are parsed to their end is
    clear. -/
def Fits (env : Env) (text : Bytes) : Prop :=
  TextFits env .init text ∧
    ∀ ls es, IsText ls text → IsTables .outside ls es → (es.map Listed.key).Nodup →
      TextEnds env .init text → Clear es

section Parsing

variable {env : Env} {text : Bytes}

theorem good_init : Good .init := ⟨rfl, .refl _, List.nodup_nil, nofun⟩

/-- A table that is parsed to its end leaves no more and no less than its listing. -/
theorem parsed_listed {ls : List Bytes} {es : List Listed} (isText : IsText ls text)
    (tables : IsTables .outside ls es) (distinct : (es.map Listed.key).Nodup)
    (ends : TextEnds env .init text) :
    ∃ s, parseLines env .init text = some s ∧ s.info = parsed es :=
  reads_text isText tables (.inl rfl) good_init distinct ends

variable (env text) in
/-- The parser has a result where the text fits, and then nothing is left allocated. -/
theorem parsing_text :
    TextFits env .init text ∧ (∃ s heap, parseLines env .init text = some s ∧
        rwnxPlatPowerlimitParsing env text = some (s.info, heap) ∧ heap.live = []) ∨
      ¬TextFits env .init text ∧ rwnxPlatPowerlimitParsing env text = none := by
  rw [rwnxPlatPowerlimitParsing]
  rcases parseLines_text env good_init text with ⟨fits, s, h, went, freed, left⟩ | ⟨long, strays⟩
  · refine .inl ⟨fits, s, h, went, ?_, left⟩
    rw [went]
    simp only [Option.bind_eq_bind, Option.bind_some, freed]
    rfl
  · refine .inr ⟨long, ?_⟩
    cases went : parseLines env .init text with
    | none => rfl
    | some s =>
        rw [went] at strays
        simp only [Option.bind_eq_bind, Option.bind_some] at strays ⊢
        rw [strays]
        rfl

/-- Tables of which nothing is left out are served, wherever the text fits. -/
theorem regular_served {ls : List Bytes} {es : List Listed} (fits : TextFits env .init text)
    (isText : IsText ls text) (tables : IsTables .outside ls es)
    (distinct : (es.map Listed.key).Nodup) (ends : TextEnds env .init text)
    (regular : Regular es) :
    ∃ info heap, rwnxPlatPowerlimitParsing env text = some (info, heap) ∧ heap.live = [] ∧
      info.Serves es := by
  rcases parsing_text env text with ⟨-, s, h, went, result, left⟩ | ⟨long, -⟩
  · obtain ⟨s', went', listed⟩ := parsed_listed isText tables distinct ends
    cases went.symm.trans went'
    refine ⟨s.info, h, result, left, ?_⟩
    rw [listed, serves_iff tables.inside]
    exact clear_of_regular regular distinct
  · exact absurd fits long

theorem limits_served_iff (env : Env) (text : Bytes) : Meets env text ↔ Fits env text := by
  rcases parsing_text env text with ⟨fits, s, h, went, result, left⟩ | ⟨long, strays⟩
  · have same : ∀ ls es, IsText ls text → IsTables .outside ls es →
        (es.map Listed.key).Nodup → TextEnds env .init text → (s.info.Serves es ↔ Clear es) := by
      intro ls es isText tables distinct ends
      obtain ⟨s', went', listed⟩ := parsed_listed isText tables distinct ends
      cases went.symm.trans went'
      rw [listed, serves_iff tables.inside]
    constructor
    · rintro ⟨info, heap, result', -, served⟩
      cases result.symm.trans result'
      refine ⟨fits, fun ls es isText tables distinct ends => ?_⟩
      exact (same ls es isText tables distinct ends).mp (served ls es isText tables distinct ends)
    · rintro ⟨-, clear⟩
      refine ⟨s.info, h, result, left, fun ls es isText tables distinct ends => ?_⟩
      exact (same ls es isText tables distinct ends).mpr (clear ls es isText tables distinct ends)
  · constructor
    · rintro ⟨info, heap, result, -⟩
      cases strays.symm.trans result
    · exact fun fits => absurd fits.1 long

/-- `"## 2.4G, 20M,#00000000001#"` -/
def longLabel : Bytes :=
  [35, 35, 32, 50, 46, 52, 71, 44, 32, 50, 48, 77, 44, 35, 48, 48, 48, 48, 48, 48, 48, 48, 48, 48,
    49, 35]

/-- A text that is an empty line, with no zero behind it, and one that ends behind a label with
    eleven digits -/
theorem limits_not_served :
    ¬Meets ⟨false, false, fun _ => true⟩ [newline] ∧
      ¬Meets ⟨false, false, fun _ => true⟩ (longLabel ++ [0]) := by
  constructor
  · rintro ⟨info, heap, went, -⟩
    have strays : parseLines ⟨false, false, fun _ => true⟩ .init [newline] = none := by
      rw [← List.nil_append [newline], parseLines_next (List.forall_mem_nil _),
        step_passed _ _ List.not_mem_nil rfl]
      exact parseLines_unended rfl
    rw [rwnxPlatPowerlimitParsing, strays] at went
    cases went
  · rintro ⟨info, heap, went, -⟩
    have strays : parseLines ⟨false, false, fun _ => true⟩ .init (longLabel ++ [0]) = none := by
      rw [parseLines_last (by simp [Texts.Plain, longLabel, newline])]
      rfl
    rw [rwnxPlatPowerlimitParsing, strays] at went
    cases went

end Parsing

end Aic8800.PowerLimit
