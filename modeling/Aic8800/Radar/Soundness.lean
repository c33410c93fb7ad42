import Aic8800.Lib.Periodic
import Aic8800.Radar.Detector
import Mathlib.Data.Finset.Card
import Mathlib.Data.List.Chain

/-! # What the sequences of a detector stand for

Every live sequence is backed by a chain of accepted pulses: the pulse that
opened it lies near a multiple of the interval from each older member, and each
later member near a multiple from the member before it. The one exception is a
sequence opened across a gap that does not fit the 32 bits of the difference.
It has two members, its deadline has passed already, and the next pulse deletes
it before it can count for a detection.
-/

namespace Aic8800.Radar

open Lib Periodic

/-- What the operations need of the specs of a short, weather or interleaved
    pattern. -/
structure Specs.WellFormed (rs : Specs) : Prop where
  burst : 2 ≤ rs.ppb
  tolerance_pos : 0 < rs.maxPriTolerance
  tolerance_lt : rs.maxPriTolerance < rs.priMin
  duration : rs.priMax * (rs.ppb - 1) + 2 * rs.maxPriTolerance < 4294967296
  threshold : rs.type ≠ .weather → 2 < rs.ppbThresh
  weather : rs.type = .weather → 19000000 / (360 * rs.priMin) < 256 ∧
    5 ≤ 19000000 / (360 * rs.priMax) ∧ 360 * rs.priMax < 4294967296

instance (rs : Specs) : Decidable rs.WellFormed :=
  decidable_of_iff
    (2 ≤ rs.ppb ∧ 0 < rs.maxPriTolerance ∧ rs.maxPriTolerance < rs.priMin ∧
      rs.priMax * (rs.ppb - 1) + 2 * rs.maxPriTolerance < 4294967296 ∧
      (rs.type ≠ .weather → 2 < rs.ppbThresh) ∧
      (rs.type = .weather → 19000000 / (360 * rs.priMin) < 256 ∧
        5 ≤ 19000000 / (360 * rs.priMax) ∧ 360 * rs.priMax < 4294967296))
    ⟨fun ⟨a, b, c, d, e, f⟩ => ⟨a, b, c, d, e, f⟩,
      fun h => ⟨h.burst, h.tolerance_pos, h.tolerance_lt, h.duration, h.threshold, h.weather⟩⟩

/-- The tables of the driver are well formed. -/
theorem dfsDomains_wellFormed : ∀ rs ∈ dfsDomains, rs.type ≠ .long → rs.WellFormed := by
  decide +kernel

/-! ## The arithmetic -/

theorem u32_of_lt {n : Nat} (small : n < 4294967296) : u32 n = n := Nat.mod_eq_of_lt small

theorem u32_lt (n : Nat) : u32 n < 4294967296 := Nat.mod_lt n (by omega)

section Multiple

variable {val fraction tolerance : Nat}

/-- A factor that is found is one: the value is within the tolerance of that
    multiple of the fraction. -/
theorem pdeGetMultiple_close (found : 0 < pdeGetMultiple val fraction tolerance) :
    val ≤ pdeGetMultiple val fraction tolerance * fraction + tolerance ∧
      pdeGetMultiple val fraction tolerance * fraction ≤ val + tolerance := by
  have division := Nat.div_add_mod val fraction
  have remainder : 0 < fraction → val % fraction < fraction := Nat.mod_lt val
  rw [Nat.mul_comm] at division
  by_cases zero : fraction = 0
  · simp [pdeGetMultiple, zero] at found
  · by_cases close : (if val < fraction then fraction - val else val - fraction) ≤ tolerance
    · -- the value is the fraction itself, up to the tolerance
      simp only [pdeGetMultiple, if_neg zero, if_pos close]
      split at close <;> omega
    · simp only [pdeGetMultiple, if_neg zero, if_neg close] at found ⊢
      by_cases behind : tolerance < val % fraction
      · by_cases ahead : fraction - val % fraction ≤ tolerance
        · simp only [if_pos behind, if_pos ahead, Nat.add_mul]
          omega
        · simp [behind, ahead] at found
      · simp only [if_neg behind]
        omega

theorem pdeGetMultiple_near (found : 0 < pdeGetMultiple val fraction tolerance) :
    Near fraction tolerance val :=
  Near.of_factor found (pdeGetMultiple_close found).1 (pdeGetMultiple_close found).2

/-- A value that is near a multiple is found to be. -/
theorem pdeGetMultiple_pos (positive : 0 < fraction) (near : Near fraction tolerance val) :
    0 < pdeGetMultiple val fraction tolerance := by
  unfold pdeGetMultiple
  rw [if_neg (Nat.ne_of_gt positive)]
  by_cases close : (if val < fraction then fraction - val else val - fraction) ≤ tolerance
  · rw [if_pos close]
    exact Nat.one_pos
  · rw [if_neg close]
    -- a value below the fraction would be near the fraction itself
    have long : fraction ≤ val := by
      by_contra short
      have reached := near.period_le
      rw [if_pos (Nat.not_le.mp short)] at close
      omega
    split
    · split
      · exact Nat.succ_pos _
      · rename_i behind ahead
        have remainder := Nat.mod_lt val positive
        exact absurd near (not_near behind (by omega))
    · exact Nat.div_pos long positive

/-- `factor++` stays inside the 32 bits of the value, since there is a remainder only where the
    fraction is at least two. -/
theorem pdeGetMultiple_le (val fraction tolerance : Nat) :
    pdeGetMultiple val fraction tolerance ≤ max val 1 := by
  have quotient := Nat.div_le_self val fraction
  unfold pdeGetMultiple
  by_cases zero : fraction = 0
  · simp [zero]
  · by_cases behind : tolerance < val % fraction
    · have remainder := Nat.mod_lt val (Nat.pos_of_ne_zero zero)
      have within := Nat.mod_le val fraction
      have half : val / fraction ≤ val / 2 := Nat.div_le_div_left (by omega) (by omega)
      rw [if_neg zero, if_pos behind]
      split_ifs <;> omega
    · rw [if_neg zero, if_neg behind]
      split_ifs <;> omega

/-- A factor is found if and only if there is one, and is one then. -/
theorem pdeGetMultiple_spec (val fraction tolerance : Nat) :
    (0 < pdeGetMultiple val fraction tolerance ↔
        0 < fraction ∧ ∃ k : Int, 1 ≤ k ∧ ((val : Int) - k * fraction).natAbs ≤ tolerance) ∧
      (pdeGetMultiple val fraction tolerance = 0 ∨
        ((val : Int) - pdeGetMultiple val fraction tolerance * fraction).natAbs ≤ tolerance) ∧
      pdeGetMultiple val fraction tolerance ≤ max val 1 ∧
      pdeGetMultiple val 0 tolerance = 0 := by
  refine ⟨?_, ?_, pdeGetMultiple_le val fraction tolerance, rfl⟩
  · rw [← near_iff_natAbs]
    constructor
    · intro found
      have some' : fraction ≠ 0 := by
        rintro rfl
        cases found
      exact ⟨Nat.pos_of_ne_zero some', pdeGetMultiple_near found⟩
    · rintro ⟨positive, near⟩
      exact pdeGetMultiple_pos positive near
  · rcases Nat.eq_zero_or_pos (pdeGetMultiple val fraction tolerance) with none' | found
    · exact .inl none'
    · exact .inr (natAbs_le_iff.mpr (pdeGetMultiple_close found))

end Multiple

/-- A sequence needs more than two pulses to be reported. -/
theorem seqPpbThresh_gt {rs : Specs} (wf : rs.WellFormed) {pri : Nat} (low : rs.priMin ≤ pri)
    (high : pri ≤ rs.priMax) : 2 < seqPpbThresh rs pri := by
  simp only [seqPpbThresh]
  split
  · rename_i weather
    obtain ⟨few, many, fits⟩ := wf.weather weather
    have positive := wf.tolerance_lt
    have upper : 19000000 / (360 * pri) ≤ 19000000 / (360 * rs.priMin) :=
      Nat.div_le_div_left (by omega) (by omega)
    have lower : 19000000 / (360 * rs.priMax) ≤ 19000000 / (360 * pri) :=
      Nat.div_le_div_left (by omega) (by omega)
    rw [u32_of_lt (by omega)]
    simp only [ppbThresh, u8]
    omega
  · rename_i plain
    exact wf.threshold plain

/-! ## Statements -/

/-- The accepted pulses in a stretch of time. -/
def acceptedWithin (accepted : List Nat) (first last : Nat) : Finset Nat :=
  accepted.toFinset.filter fun t => first ≤ t ∧ t ≤ last

/-- What holds of a live sequence. Nothing is said of the deadline when the two
    ends are too far apart for a 32-bit difference or the sum does not fit. -/
structure PriSequence.Sound (rs : Specs) (accepted : List Nat) (ps : PriSequence) : Prop where
  ordered : ps.firstTs ≤ ps.lastTs
  deadline : ps.deadlineTs = u64 (ps.firstTs + ps.dur)
  in_time : ps.lastTs - ps.firstTs < 4294967296 →
    ps.firstTs + ps.dur < 18446744073709551616 → ps.lastTs ≤ ps.deadlineTs
  interval : rs.priMin ≤ ps.pri ∧ ps.pri ≤ rs.priMax
  counted : ps.count ≤ (acceptedWithin accepted ps.firstTs ps.lastTs).card

/-- What a detection rests on: as many distinct accepted pulses as the threshold
    of the pattern asks for, spaced by the interval of the sequence. -/
structure Detection.Justified (rs : Specs) (d : Detection) : Prop where
  sound : d.sequence.Sound rs d.accepted
  threshold : d.sequence.ppbThresh = seqPpbThresh rs d.sequence.pri
  spaced : ∃ pulses : List Nat, pulses.Sublist d.accepted ∧ pulses.Pairwise (· > ·) ∧
    d.sequence.ppbThresh ≤ pulses.length ∧ Spaced d.sequence.pri rs.maxPriTolerance pulses

structure DfsPatternDetector.Sound (rs : Specs) (dpd : DfsPatternDetector) : Prop where
  live : ∀ w ∈ dpd.detectors, ∀ ps ∈ w.pde.sequences, ps.Sound rs w.accepted
  reported : ∀ d ∈ dpd.detections, d.Justified rs

/-! ## The chain behind a sequence -/

/-- `chain` is what the fields of the sequence stand for. -/
structure Backed (rs : Specs) (accepted : List Nat) (ps : PriSequence) (chain : List Nat) :
    Prop where
  interval : rs.priMin ≤ ps.pri ∧ ps.pri ≤ rs.priMax
  dur : ps.dur < 4294967296
  deadline : ps.deadlineTs = u64 (ps.firstTs + ps.dur)
  threshold : ps.ppbThresh = seqPpbThresh rs ps.pri
  members : chain.Sublist accepted
  falling : chain.Pairwise (· > ·)
  newest : chain.head? = some ps.lastTs
  oldest : chain.getLast? = some ps.firstTs
  counted : ps.count = chain.length
  -- the second case is the sequence opened across a truncated difference
  shape : (Spaced ps.pri rs.maxPriTolerance chain ∧ ps.lastTs ≤ ps.firstTs + ps.dur) ∨
    (chain.length = 2 ∧ 4294967296 ≤ ps.lastTs - ps.firstTs)

namespace Backed

variable {rs : Specs} {accepted chain : List Nat} {ps : PriSequence}

theorem last_mem (h : Backed rs accepted ps chain) : ps.lastTs ∈ accepted :=
  h.members.subset (List.mem_of_head? h.newest)

theorem deadline_le (h : Backed rs accepted ps chain) :
    ps.deadlineTs ≤ ps.firstTs + ps.dur := by
  rw [h.deadline]
  exact Nat.mod_le _ _

/-- The members lie between the two ends. -/
theorem ends (h : Backed rs accepted ps chain) :
    ∀ t ∈ chain, ps.firstTs ≤ t ∧ t ≤ ps.lastTs := by
  have newest := h.newest
  have oldest := h.oldest
  have falling := h.falling
  intro t member
  constructor
  · obtain ⟨front, rfl⟩ := List.getLast?_eq_some_iff.mp oldest
    cases List.mem_append.mp member with
    | inl inside =>
        have later := (List.pairwise_append.mp falling).2.2 t inside ps.firstTs (by simp)
        omega
    | inr last =>
        rw [List.mem_singleton.mp last]
  · cases chain with
    | nil => cases newest
    | cons head rest =>
        obtain rfl := Option.some.inj newest
        cases List.mem_cons.mp member with
        | inl same => rw [same]
        | inr below =>
            have later := List.rel_of_pairwise_cons falling below
            omega

theorem ordered (h : Backed rs accepted ps chain) : ps.firstTs ≤ ps.lastTs :=
  (h.ends _ (List.mem_of_head? h.newest)).1

/-- A live sequence that takes pulses was not opened across a truncated
    difference. -/
theorem spaced_of_alive (h : Backed rs accepted ps chain) (alive : ps.lastTs ≤ ps.deadlineTs) :
    Spaced ps.pri rs.maxPriTolerance chain ∧ ps.lastTs ≤ ps.firstTs + ps.dur := by
  have due := h.deadline_le
  have short := h.dur
  cases h.shape with
  | inl good => exact good
  | inr truncated => omega

theorem sound (h : Backed rs accepted ps chain) : ps.Sound rs accepted where
  ordered := h.ordered
  deadline := h.deadline
  in_time := by
    intro close fits
    rw [h.deadline, u64, Nat.mod_eq_of_lt fits]
    cases h.shape with
    | inl good => exact good.2
    | inr truncated => omega
  interval := h.interval
  counted := by
    have distinct : chain.Nodup := h.falling.imp fun later => Nat.ne_of_gt later
    rw [h.counted, ← List.toFinset_card_of_nodup distinct]
    apply Finset.card_le_card
    intro t member
    have inside := List.mem_toFinset.mp member
    simp only [acceptedWithin, Finset.mem_filter, List.mem_toFinset]
    exact ⟨h.members.subset inside, h.ends t inside⟩

/-- Pulses accepted later leave the chain what it is. -/
theorem accept (h : Backed rs accepted ps chain) (ts : Nat) : Backed rs (ts :: accepted) ps chain :=
  { h with members := h.members.cons ts }

end Backed

/-! ## Creating sequences -/

/-- What the inner loop takes out of the older pulses. -/
structure Matched (rs : Specs) (minValidTs : Nat) (older : List Nat) (ps after : PriSequence)
    (taken : List Nat) : Prop where
  members : taken.Sublist older
  recent : ∀ t ∈ taken, minValidTs ≤ t
  near : ∀ t ∈ taken, Near ps.pri rs.maxPriTolerance (ps.lastTs - t)
  count : after.count = ps.count + taken.length
  first : (ps.firstTs :: taken).getLast? = some after.firstTs
  pri : after.pri = ps.pri
  dur : after.dur = ps.dur
  last : after.lastTs = ps.lastTs

theorem Matched.none (rs : Specs) (minValidTs : Nat) (older : List Nat) (ps : PriSequence) :
    Matched rs minValidTs older ps ps [] where
  members := List.nil_sublist older
  recent := by simp
  near := by simp
  count := by simp
  first := by simp
  pri := rfl
  dur := rfl
  last := rfl

theorem matchPastPulses_matched (rs : Specs) {minValidTs : Nat} (older : List Nat)
    (tmpFalseCount : Nat) (ps : PriSequence)
    (fits : ∀ t, minValidTs ≤ t → ps.lastTs - t < 4294967296) :
    ∃ taken, Matched rs minValidTs older ps
      (matchPastPulses rs minValidTs older tmpFalseCount ps) taken := by
  induction older generalizing tmpFalseCount ps with
  | nil => exact ⟨[], .none rs minValidTs [] ps⟩
  | cons p2 older ih =>
      simp only [matchPastPulses]
      split
      · exact ⟨[], .none rs minValidTs (p2 :: older) ps⟩
      · split
        · rename_i recent found
          rw [u32_of_lt (fits p2 (by omega))] at found
          obtain ⟨taken, m⟩ := ih 0
            { ps with
              count := ps.count + 1
              firstTs := p2
              countFalses := u32 (ps.countFalses + tmpFalseCount) } fits
          have first := m.first
          exact ⟨p2 :: taken,
            { members := m.members.cons_cons p2
              recent := List.forall_mem_cons.mpr ⟨by omega, m.recent⟩
              near := List.forall_mem_cons.mpr ⟨pdeGetMultiple_near found, m.near⟩
              count := by
                rw [m.count, List.length_cons]
                dsimp only
                omega
              first := by rw [List.getLast?_cons_cons]; exact first
              pri := m.pri
              dur := m.dur
              last := m.last }⟩
        · obtain ⟨taken, m⟩ := ih (tmpFalseCount + 1) ps fits
          exact ⟨taken, { m with members := m.members.cons p2 }⟩

section Create

variable {rs : Specs} {ts p : Nat} {older accepted : List Nat}

theorem le_of_minValidTs {dur t : Nat} (recent : minValidTs ts dur ≤ t) : ts ≤ t + dur := by
  simp only [minValidTs] at recent
  split at recent <;> omega

/-- The duration of a new sequence covers its interval. -/
theorem startSequence_dur (wf : rs.WellFormed) (pulseIdx : Nat) (high : u32 (ts - p) ≤ rs.priMax) :
    u32 (ts - p) ≤ (startSequence rs ts p pulseIdx).dur := by
  have duration : u32 (ts - p) * (rs.ppb - 1) + 2 * rs.maxPriTolerance < 4294967296 :=
    Nat.lt_of_le_of_lt (Nat.add_le_add_right (Nat.mul_le_mul_right _ high) _) wf.duration
  have burst := wf.burst
  have once : u32 (ts - p) ≤ u32 (ts - p) * (rs.ppb - 1) :=
    Nat.le_mul_of_pos_right _ (by omega)
  simp only [startSequence]
  rw [u32_of_lt duration]
  omega

/-- Two ends that are close share the duration of the sequence with all members
    between them. -/
theorem reach_of_matched (wf : rs.WellFormed) {pulseIdx : Nat} (high : u32 (ts - p) ≤ rs.priMax)
    {after : PriSequence} {taken : List Nat}
    (m : Matched rs (minValidTs ts (startSequence rs ts p pulseIdx).dur) older
      (startSequence rs ts p pulseIdx) after taken)
    (close : ts - p < 4294967296) : ts ≤ after.firstTs + after.dur := by
  rw [m.dur]
  cases List.mem_cons.mp (List.mem_of_getLast? m.first) with
  | inl alone =>
      have long := startSequence_dur wf pulseIdx high
      rw [u32_of_lt close] at long
      simp only [startSequence] at alone long ⊢
      omega
  | inr past => exact le_of_minValidTs (m.recent _ past)

/-- A sequence opened across a gap beyond 32 bits finds no older pulse within
    its duration. -/
theorem taken_nil_of_gap {pulseIdx : Nat} {after : PriSequence} {taken : List Nat}
    (m : Matched rs (minValidTs ts (startSequence rs ts p pulseIdx).dur) older
      (startSequence rs ts p pulseIdx) after taken)
    (below : ∀ t ∈ older, t < p) (gap : 4294967296 ≤ ts - p) : taken = [] := by
  apply List.eq_nil_iff_forall_not_mem.mpr
  intro t member
  have recent := le_of_minValidTs (m.recent t member)
  have before := below t (m.members.subset member)
  have short : (startSequence rs ts p pulseIdx).dur < 4294967296 := u32_lt _
  omega

/-- A new sequence is backed by the new pulse, the one that gave the interval and
    the older ones that matched. -/
theorem newSequence_backed (wf : rs.WellFormed) (pulseIdx : Nat)
    (low : rs.priMin ≤ u32 (ts - p)) (high : u32 (ts - p) ≤ rs.priMax)
    (queued : (p :: older).Sublist accepted) (falling : (ts :: p :: older).Pairwise (· > ·)) :
    ∃ chain, Backed rs (ts :: accepted) (newSequence rs ts p older pulseIdx) chain := by
  have short : (startSequence rs ts p pulseIdx).dur < 4294967296 := u32_lt _
  have fits : ∀ t, minValidTs ts (startSequence rs ts p pulseIdx).dur ≤ t →
      (startSequence rs ts p pulseIdx).lastTs - t < 4294967296 := by
    intro t recent
    have window := le_of_minValidTs recent
    show ts - t < 4294967296
    omega
  obtain ⟨taken, m⟩ := matchPastPulses_matched rs older 0 (startSequence rs ts p pulseIdx) fits
  simp only [newSequence]
  generalize matchPastPulses rs (minValidTs ts (startSequence rs ts p pulseIdx).dur) older 0
    (startSequence rs ts p pulseIdx) = after at m ⊢
  have last : after.lastTs = ts := m.last
  have pri : after.pri = u32 (ts - p) := m.pri
  have first : (p :: taken).getLast? = some after.firstTs := m.first
  refine ⟨ts :: p :: taken, ?_⟩
  constructor
  case interval =>
    dsimp only
    rw [pri]
    exact ⟨low, high⟩
  case dur =>
    dsimp only
    rw [m.dur]
    exact short
  case deadline => rfl
  case threshold => rfl
  case members => exact ((m.members.cons_cons p).trans queued).cons_cons ts
  case falling => exact falling.sublist ((m.members.cons_cons p).cons_cons ts)
  case newest =>
    dsimp only
    rw [last, List.head?_cons]
  case oldest =>
    dsimp only
    rw [List.getLast?_cons_cons, first]
  case counted =>
    dsimp only
    rw [m.count]
    simp only [startSequence, List.length_cons]
    omega
  case shape =>
    dsimp only
    rw [pri, last]
    by_cases close : ts - p < 4294967296
    · left
      constructor
      · apply Spaced.opened
        rw [u32_of_lt close]
        have near := m.near
        simp only [startSequence, u32_of_lt close] at near
        exact List.forall_mem_cons.mpr ⟨.self, near⟩
      · exact reach_of_matched wf high m close
    · right
      have below : ∀ t ∈ older, t < p := fun t member =>
        List.rel_of_pairwise_cons falling.of_cons member
      obtain rfl := taken_nil_of_gap m below (by omega)
      have opener : p = after.firstTs := Option.some.inj first
      rw [← opener]
      exact ⟨rfl, by omega⟩

theorem pdeShortCreateSequences_backed (wf : rs.WellFormed) (minCount : Nat) (pulses : List Nat)
    (pulseIdx allocatable : Nat) (sequences : List PriSequence)
    (queued : pulses.Sublist accepted) (falling : (ts :: pulses).Pairwise (· > ·))
    (before : ∀ ps ∈ sequences, ∃ chain, Backed rs (ts :: accepted) ps chain) :
    ∀ ps ∈ (pdeShortCreateSequences rs ts minCount pulses pulseIdx allocatable sequences).2,
      ∃ chain, Backed rs (ts :: accepted) ps chain := by
  induction pulses generalizing pulseIdx allocatable sequences with
  | nil => exact before
  | cons p older ih =>
      have queued' : older.Sublist accepted := (List.sublist_cons_self p older).trans queued
      have falling' : (ts :: older).Pairwise (· > ·) :=
        falling.sublist ((List.sublist_cons_self p older).cons_cons ts)
      simp only [pdeShortCreateSequences]
      split
      · exact ih _ _ _ queued' falling' before
      · split
        · exact before
        · split
          · exact ih _ _ _ queued' falling' before
          · cases allocatable with
            | zero => exact before
            | succ left =>
                apply ih _ _ _ queued' falling'
                have made := newSequence_backed wf (pulseIdx + 1) (by omega) (by omega) queued falling
                exact List.forall_mem_cons.mpr ⟨made, before⟩

end Create

/-! ## Extending sequences -/

section Extend

variable {rs : Specs} {ts : Nat} {accepted : List Nat}

/-- A sequence within its deadline either takes the pulse at the front of its
    chain or keeps its chain. -/
theorem addToSequence_backed (wf : rs.WellFormed) {ps : PriSequence} {chain : List Nat}
    (h : Backed rs accepted ps chain) (newest : ∀ t ∈ accepted, t ≤ ts)
    (alive : ts ≤ ps.deadlineTs) :
    ∃ chain, Backed rs (ts :: accepted) (addToSequence rs ts ps).2 chain := by
  have last_le := newest _ h.last_mem
  obtain ⟨spaced, -⟩ := h.spaced_of_alive (by omega)
  have due := h.deadline_le
  have short := h.dur
  have ordered := h.ordered
  simp only [addToSequence]
  split
  · rename_i found
    rw [u32_of_lt (by omega)] at found
    have near := pdeGetMultiple_near found
    have later : 0 < ts - ps.lastTs :=
      near.pos (by have := wf.tolerance_lt; have := h.interval; omega)
    refine ⟨ts :: chain, ?_⟩
    constructor
    case interval => exact h.interval
    case dur => exact h.dur
    case deadline => exact h.deadline
    case threshold => exact h.threshold
    case members => exact h.members.cons_cons ts
    case falling =>
      apply List.pairwise_cons.mpr
      constructor
      · intro t member
        have inside := h.ends t member
        omega
      · exact h.falling
    case newest => rfl
    case oldest =>
      rw [List.getLast?_cons, h.oldest]
      rfl
    case counted =>
      rw [List.length_cons, h.counted]
    case shape =>
      left
      constructor
      · exact spaced.extend h.newest near
      · dsimp only
        omega
  · have kept := h.accept ts
    exact ⟨chain, { kept with }⟩

theorem pdeShortAddToExistingSeqs_backed (wf : rs.WellFormed) (newest : ∀ t ∈ accepted, t ≤ ts)
    (sequences : List PriSequence)
    (before : ∀ ps ∈ sequences, ∃ chain, Backed rs accepted ps chain) :
    ∀ ps ∈ (pdeShortAddToExistingSeqs rs ts sequences).2,
      ∃ chain, Backed rs (ts :: accepted) ps chain := by
  induction sequences with
  | nil => exact fun ps member => absurd member (List.not_mem_nil)
  | cons ps rest ih =>
      have later := ih fun q member => before q (List.mem_cons_of_mem ps member)
      simp only [pdeShortAddToExistingSeqs]
      split
      · exact later
      · obtain ⟨chain, backed⟩ := before ps List.mem_cons_self
        have updated := addToSequence_backed wf backed newest (by omega)
        exact List.forall_mem_cons.mpr ⟨updated, later⟩

end Extend

/-! ## One pulse -/

section Pulse

variable {rs : Specs} {ts : Nat} {accepted : List Nat}

theorem pulseQueueCheckWindow_sublist (pde : PriDetector) :
    (pulseQueueCheckWindow rs pde).pulses.Sublist pde.pulses := by
  simp only [pulseQueueCheckWindow]
  split
  · exact .refl _
  · split
    · exact .refl _
    · exact (List.rdropWhile_prefix _ _).sublist

theorem pulseQueueCheckWindow_keeps (pde : PriDetector) :
    (pulseQueueCheckWindow rs pde).lastTs = pde.lastTs ∧
      (pulseQueueCheckWindow rs pde).sequences = pde.sequences := by
  simp only [pulseQueueCheckWindow]
  split
  · exact ⟨rfl, rfl⟩
  · split <;> exact ⟨rfl, rfl⟩

/-- The queue of a detector: pulses it accepted, in order and no later than its
    time stamp. -/
structure Queued (accepted : List Nat) (pde : PriDetector) : Prop where
  members : pde.pulses.Sublist accepted
  falling : pde.pulses.Pairwise (· > ·)
  last : ∀ t ∈ pde.pulses, t ≤ pde.lastTs

theorem Queued.of_sublist {pde pde' : PriDetector} (h : Queued accepted pde)
    (sub : pde'.pulses.Sublist pde.pulses) (time : pde'.lastTs = pde.lastTs) :
    Queued accepted pde' where
  members := sub.trans h.members
  falling := h.falling.sublist sub
  last := by
    intro t member
    rw [time]
    exact h.last t (sub.subset member)

theorem pulseQueueEnqueue_queued {pde : PriDetector} (h : Queued accepted pde)
    (newer : ∀ t ∈ pde.pulses, t < ts) (allocated : Bool) :
    Queued (ts :: accepted) (pulseQueueEnqueue rs pde ts allocated) := by
  simp only [pulseQueueEnqueue]
  cases allocated with
  | false =>
      exact { members := h.members.cons ts, falling := h.falling, last := h.last }
  | true =>
      have full : Queued (ts :: accepted) { pde with pulses := ts :: pde.pulses, lastTs := ts } :=
        { members := h.members.cons_cons ts
          falling := List.pairwise_cons.mpr ⟨newer, h.falling⟩
          last := List.forall_mem_cons.mpr
            ⟨Nat.le_refl ts, fun t member => Nat.le_of_lt (newer t member)⟩ }
      have windowed : Queued (ts :: accepted)
          (pulseQueueCheckWindow rs { pde with pulses := ts :: pde.pulses, lastTs := ts }) :=
        full.of_sublist (pulseQueueCheckWindow_sublist _) (pulseQueueCheckWindow_keeps _).1
      rw [if_pos rfl]
      split
      · exact windowed.of_sublist (List.dropLast_sublist _) rfl
      · exact windowed

theorem pulseQueueEnqueue_sequences (pde : PriDetector) (allocated : Bool) :
    (pulseQueueEnqueue rs pde ts allocated).sequences = pde.sequences := by
  simp only [pulseQueueEnqueue]
  cases allocated with
  | false => rfl
  | true =>
      rw [if_pos rfl]
      split <;> exact (pulseQueueCheckWindow_keeps _).2

/-- A detector with the pulses it accepted since its last reset. -/
structure Watched.Kept (rs : Specs) (now : Nat) (w : Watched) : Prop where
  recent : ∀ t ∈ w.accepted, t ≤ now
  queued : Queued w.accepted w.pde
  backed : ∀ ps ∈ w.pde.sequences, ∃ chain, Backed rs w.accepted ps chain

theorem Watched.Kept.later {now : Nat} {w : Watched} (h : w.Kept rs now) (le : now ≤ ts) :
    w.Kept rs ts :=
  { h with recent := fun t member => Nat.le_trans (h.recent t member) le }

theorem Watched.Kept.of_empty {now : Nat} {w : Watched} (recent : ∀ t ∈ w.accepted, t ≤ now)
    (noPulses : w.pde.pulses = []) (noSequences : w.pde.sequences = []) : w.Kept rs now where
  recent := recent
  queued :=
    { members := by simp [noPulses]
      falling := by simp [noPulses]
      last := by simp [noPulses] }
  backed := by simp [noSequences]

/-- What is found is a sequence of the list that reached its threshold. -/
theorem pdeShortCheckDetection_some {sequences : List PriSequence} {ps : PriSequence}
    (found : pdeShortCheckDetection rs sequences = some ps) :
    ps ∈ sequences ∧ ps.ppbThresh ≤ ps.count := by
  have complete := List.find?_some found
  simp only [Bool.and_eq_true, decide_eq_true_eq] at complete
  exact ⟨List.mem_of_find?_eq_some found, complete.1⟩

/-- A backed sequence that reached its threshold was not opened across a
    truncated difference, which leaves only two pulses. -/
theorem Backed.justified (wf : rs.WellFormed) {ps : PriSequence} {chain : List Nat}
    (h : Backed rs accepted ps chain) (complete : ps.ppbThresh ≤ ps.count) :
    Detection.Justified rs { sequence := ps, accepted := accepted } where
  sound := h.sound
  threshold := h.threshold
  spaced := by
    have more := seqPpbThresh_gt wf h.interval.1 h.interval.2
    have counted := h.counted
    have threshold := h.threshold
    cases h.shape with
    | inl good => exact ⟨chain, h.members, h.falling, by dsimp only; omega, good.1⟩
    | inr truncated => omega

/-- A pulse that is used leaves the detector with backed sequences, and what it
    completes is justified by the pulses accepted up to it. -/
theorem Watched.Kept.addPulse (wf : rs.WellFormed) {now : Nat} {w : Watched} (h : w.Kept rs now)
    (le : now ≤ ts) (alloc : Allocations) :
    (w.addPulse rs ts alloc).2.Kept rs ts ∧
      ∀ ps, (w.addPulse rs ts alloc).1 = some ps →
        Detection.Justified rs
          { sequence := ps, accepted := (w.addPulse rs ts alloc).2.accepted } := by
  have newest : ∀ t ∈ w.accepted, t ≤ ts := (h.later le).recent
  have recent : ∀ t ∈ ts :: w.accepted, t ≤ ts :=
    List.forall_mem_cons.mpr ⟨Nat.le_refl ts, newest⟩
  simp only [Watched.addPulse, pdeShortAddPulse, accepts]
  by_cases first : w.pde.count = 0
  · -- the first pulse since the reset is only queued
    have empty : w.pde.pulses = [] := List.eq_nil_of_length_eq_zero first
    rw [if_pos first]
    simp only [first, BEq.rfl, Bool.true_or, ↓reduceIte]
    constructor
    · constructor
      · exact recent
      · exact pulseQueueEnqueue_queued h.queued (by simp [empty]) alloc.pulse
      · rw [pulseQueueEnqueue_sequences]
        intro ps member
        obtain ⟨chain, backed⟩ := h.backed ps member
        exact ⟨chain, backed.accept ts⟩
    · exact fun ps found => nomatch found
  · rw [if_neg first]
    by_cases close : ts - w.pde.lastTs < rs.maxPriTolerance
    · -- too close to the last pulse: nothing changes
      have ignored : (w.pde.count == 0 || decide (rs.maxPriTolerance ≤ ts - w.pde.lastTs)) = false := by
        simp [first]
        omega
      simp only [if_pos close, ignored, Bool.false_eq_true, ↓reduceIte]
      exact ⟨h.later le, fun ps found => nomatch found⟩
    · have used : (w.pde.count == 0 || decide (rs.maxPriTolerance ≤ ts - w.pde.lastTs)) = true := by
        simp
        omega
      have positive := wf.tolerance_pos
      have newer : ∀ t ∈ w.pde.pulses, t < ts := by
        intro t member
        have before := h.queued.last t member
        omega
      have falling : (ts :: w.pde.pulses).Pairwise (· > ·) :=
        List.pairwise_cons.mpr ⟨newer, h.queued.falling⟩
      have existing := pdeShortAddToExistingSeqs_backed wf newest w.pde.sequences h.backed
      have created := pdeShortCreateSequences_backed wf
        (pdeShortAddToExistingSeqs rs ts w.pde.sequences).1 w.pde.pulses 0
        alloc.sequences (pdeShortAddToExistingSeqs rs ts w.pde.sequences).2 h.queued.members
        falling existing
      simp only [if_neg close, used, ↓reduceIte]
      generalize pdeShortCreateSequences rs ts _ w.pde.pulses 0 alloc.sequences _ = outcome at created ⊢
      obtain ⟨ok, sequences⟩ := outcome
      cases ok with
      | false =>
          constructor
          · exact .of_empty recent rfl rfl
          · exact fun ps found => nomatch found
      | true =>
          dsimp only at created ⊢
          have queue : Queued w.accepted { w.pde with sequences := sequences } :=
            { members := h.queued.members, falling := h.queued.falling, last := h.queued.last }
          cases detected : pdeShortCheckDetection rs sequences with
          | none =>
              constructor
              · constructor
                · exact recent
                · exact pulseQueueEnqueue_queued queue newer alloc.pulse
                · rw [pulseQueueEnqueue_sequences]
                  exact created
              · exact fun ps found => nomatch found
          | some ps =>
              obtain ⟨member, complete⟩ := pdeShortCheckDetection_some detected
              constructor
              · exact
                  { recent := recent
                    queued := { queue with members := queue.members.cons ts }
                    backed := created }
              · intro ps' found
                obtain rfl := Option.some.inj found
                obtain ⟨chain, backed⟩ := created ps member
                exact backed.justified wf complete

end Pulse

/-! ## Runs -/

/-- What every run keeps. -/
structure DfsPatternDetector.Kept (rs : Specs) (dpd : DfsPatternDetector) : Prop where
  watched : ∀ w ∈ dpd.detectors, w.Kept rs dpd.lastPulseTs
  reported : ∀ d ∈ dpd.detections, d.Justified rs

namespace DfsPatternDetector

variable {rs : Specs} {dpd dpd' : DfsPatternDetector}

theorem Kept.sound (h : dpd.Kept rs) : dpd.Sound rs where
  live := by
    intro w member ps inside
    obtain ⟨chain, backed⟩ := (h.watched w member).backed ps inside
    exact backed.sound
  reported := h.reported

theorem watched_reset (ts now : Nat) (detectors : List Watched) :
    ∀ w ∈ detectors.map (Watched.reset ts), w.Kept rs now := by
  intro w member
  obtain ⟨before, -, rfl⟩ := List.mem_map.mp member
  exact .of_empty (by simp [Watched.reset]) rfl rfl

theorem Kept.reset (reported : ∀ d ∈ dpd.detections, d.Justified rs) : dpd.reset.Kept rs where
  watched := watched_reset _ _ _
  reported := reported

theorem Kept.priOverflow (h : dpd.Kept rs) : dpd.priOverflow.Kept rs where
  watched := watched_reset _ _ _
  reported := h.reported

/-- The detectors `pri_detector_get` leaves are the old ones or a new empty one. -/
theorem watched_priDetectorGet {now freq i : Nat} {detectors after : List Watched} {allocated : Bool}
    (before : ∀ w ∈ detectors, w.Kept rs now)
    (got : priDetectorGet detectors freq allocated = some (after, i)) :
    ∀ w ∈ after, w.Kept rs now := by
  simp only [priDetectorGet] at got
  split at got
  · cases got
    exact before
  · rw [Option.ite_none_right_eq_some] at got
    obtain ⟨-, created⟩ := got
    cases created
    exact List.forall_mem_cons.mpr ⟨.of_empty (by simp) rfl rfl, before⟩

theorem Kept.addPulse (wf : rs.WellFormed) (h : dpd.Kept rs) {freq ts : Nat} {alloc : Allocations}
    (taken : dpd.addPulse rs freq ts alloc = some dpd') : dpd'.Kept rs := by
  simp only [DfsPatternDetector.addPulse] at taken
  rw [Option.ite_none_right_eq_some] at taken
  obtain ⟨le, taken⟩ := taken
  obtain ⟨⟨detectors, i⟩, got, taken⟩ := Option.bind_eq_some_iff.mp taken
  obtain ⟨w, at_i, result⟩ := Option.bind_eq_some_iff.mp taken
  have before := watched_priDetectorGet h.watched got
  obtain ⟨kept, justified⟩ := (before w (List.mem_of_getElem? at_i)).addPulse wf le alloc
  have others : ∀ v ∈ detectors.set i (w.addPulse rs ts alloc).2, v.Kept rs ts := by
    intro v member
    cases List.mem_or_eq_of_mem_set member with
    | inl old => exact (before v old).later le
    | inr new => exact new ▸ kept
  generalize w.addPulse rs ts alloc = outcome at result justified others
  obtain ⟨found, w'⟩ := outcome
  cases found with
  | none =>
      cases result
      exact { watched := others, reported := h.reported }
  | some ps =>
      cases result
      exact Kept.reset (List.forall_mem_cons.mpr ⟨justified ps rfl, h.reported⟩)

theorem Kept.step (wf : rs.WellFormed) (event : Event) (h : dpd.Kept rs)
    (taken : DfsPatternDetector.step rs dpd event = some dpd') : dpd'.Kept rs := by
  cases event with
  | pulse freq ts alloc => exact h.addPulse wf taken
  | priOverflow =>
      cases taken
      exact h.priOverflow
  | reset =>
      cases taken
      exact Kept.reset h.reported

theorem Kept.init : ({} : DfsPatternDetector).Kept rs where
  watched := by simp
  reported := by simp

/-- In every run of pulses every live sequence is sound, and every detection
    rests on enough accepted pulses: those up to the pulse that opened the
    sequence lie near multiples of its interval from that pulse, and each later
    one near a multiple from its predecessor. -/
theorem sequences_sound {rs : Specs} (known : rs ∈ dfsDomains) (short : rs.type ≠ .long)
    {dpd : DfsPatternDetector}
    (run : Run.Reachable (DfsPatternDetector.step rs) Run.Free {} dpd) : dpd.Sound rs := by
  have wf := dfsDomains_wellFormed rs known short
  have kept : dpd.Kept rs :=
    run.invariant (DfsPatternDetector.Kept rs) .init
      fun _ event _ before _ taken => before.step wf event taken
  exact kept.sound

end DfsPatternDetector

/-! ## A burst whose pulses are early and late by turns -/

namespace Sample

/-- The short pattern of the FCC with nine pulses for a detection. -/
def shortSpecs : Specs := fccPattern 0 0 8 1428 1428 1 18 .short

/-- Nine pulses 1428 apart, of which all but the last two are off by the whole
    tolerance, early and late by turns. -/
def burst : List Event :=
  [8592, 9988, 11448, 12844, 14304, 15700, 17160, 18572, 20000].map fun ts =>
    .pulse 5500 ts {}

def detection : Detection where
  sequence :=
    { pri := 1428, dur := 24308, count := 9, countFalses := 0, firstTs := 8592, lastTs := 20000,
      deadlineTs := 32900, ppbThresh := 9 }
  accepted := [20000, 18572, 17160, 15700, 14304, 12844, 11448, 9988, 8592]

theorem burst_detected : ∃ dpd,
    Run.Reachable (DfsPatternDetector.step shortSpecs) Run.Free {} dpd ∧
      dpd.detections = [detection] := by
  have ends : (Run.exec (DfsPatternDetector.step shortSpecs) {} burst).map
      (fun dpd => dpd.detections) = some [detection] := by
    decide +kernel
  obtain ⟨dpd, run, detected⟩ := Option.map_eq_some_iff.mp ends
  exact ⟨dpd, Run.Reachable.exec burst .init run, detected⟩

end Sample

/-- A detection without enough accepted pulses spaced from one another by
    multiples of the interval: of the only nine, not even the neighbours are. -/
theorem detection_not_pairwise : ∃ dpd d,
    Run.Reachable (DfsPatternDetector.step Sample.shortSpecs) Run.Free {} dpd ∧
      d ∈ dpd.detections ∧
      ∀ pulses : List Nat, pulses.Sublist d.accepted → d.sequence.ppbThresh ≤ pulses.length →
        ¬ pulses.Pairwise (fun later earlier =>
            Near d.sequence.pri Sample.shortSpecs.maxPriTolerance (later - earlier)) ∧
          ¬ pulses.IsChain (fun later earlier =>
            Near d.sequence.pri Sample.shortSpecs.maxPriTolerance (later - earlier)) := by
  obtain ⟨dpd, run, detected⟩ := Sample.burst_detected
  refine ⟨dpd, Sample.detection, run, by simp [detected], ?_⟩
  intro pulses chosen enough
  have all : pulses = Sample.detection.accepted := chosen.eq_of_length_le enough
  have apart : ¬ Near 1428 16 (17160 - 15700) := by
    rintro ⟨factor, positive, above, below⟩
    omega
  have neighbours : ¬ pulses.IsChain (fun later earlier =>
      Near Sample.detection.sequence.pri Sample.shortSpecs.maxPriTolerance (later - earlier)) := by
    subst all
    intro chain
    simp only [Sample.detection, List.isChain_cons_cons] at chain
    exact apart chain.2.2.1
  exact ⟨fun pairwise => neighbours pairwise.isChain, neighbours⟩

/-- The run of the burst, on which the detection is reported all the same. -/
theorem sequences_sound_burst : ∃ dpd : DfsPatternDetector,
    dpd.detections = [Sample.detection] ∧ dpd.Sound Sample.shortSpecs := by
  obtain ⟨dpd, run, detected⟩ := Sample.burst_detected
  have known : Sample.shortSpecs ∈ dfsDomains := by decide +kernel
  exact ⟨dpd, detected, DfsPatternDetector.sequences_sound known (by decide) run⟩

end Aic8800.Radar
