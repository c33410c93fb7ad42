import Mathlib

/-! # The radiotap header of a monitored frame

The length of the header is computed from the RX vector before there is a place to put it,
and the fields are written afterwards; the two functions ask for the same fields in their
own ways. Only where the fields are is modelled, not what is in them: `pos` counts from
the start of the header. A byte that some content makes the builder write is one that it
writes; others it steps over, and leaves them to the zeros that were there first.
-/

namespace Aic8800.Rx.Radiotap

def formatmodNonHtDupOfdm : Nat := 1

def formatmodHtMf : Nat := 2

def formatmodHtGf : Nat := 3

def formatmodVht : Nat := 4

def formatmodHeSu : Nat := 5

def phyChnlBw40 : Nat := 1

def ieee80211MaxChains : Nat := 4

/-- The fields of a `rx_vector_1` that decide on the layout. `ht.aggregation` is a bit of a
    union, and there for every format. -/
structure RxVector1 where
  formatMod : Fin 16
  chBw : Fin 8
  antennaSet : BitVec 8
  htAggregation : Bool

namespace RxVector1

variable (v : RxVector1)

/-- `hweight8`, and `hweight32`, of the antenna set -/
def hweight : Nat := ((List.range 8).filter fun i => v.antennaSet.getLsbD i).length

/-- The antennas that `for_each_set_bit` comes to. -/
def chains : List Nat := (List.range ieee80211MaxChains).filter fun i => v.antennaSet.getLsbD i

def isHt : Bool := v.formatMod.val == formatmodHtMf || v.formatMod.val == formatmodHtGf

end RxVector1

/-- `ALIGN` -/
def align (n k : Nat) : Nat := (n + k - 1) / k * k

/-- `rwnx_rx_rtap_hdrlen`. No vector gives more than a `u8` holds. -/
def rwnxRxRtapHdrlen (v : RxVector1) (hasVendRtap : Bool) : Nat :=
  let len := 8 + 8
  let len := if 1 < v.hweight then len + 4 * v.hweight else len
  let len := if hasVendRtap then len else align len 8 + 8
  let len := len + 1
  let len := if v.hweight = 1 then len + 1 else len
  let len := align len 2
  let len := if v.isHt then len + 3 else len
  let len :=
    if !hasVendRtap && (formatmodVht ≤ v.formatMod.val ||
        formatmodNonHtDupOfdm < v.formatMod.val && v.htAggregation) then
      align len 4 + 8
    else len
  let len := if v.formatMod.val = formatmodVht then align len 2 + 12 else len
  let len := if v.formatMod.val = formatmodHeSu then align len 2 + 12 else len
  let len := if 1 < v.hweight then len + 2 * v.hweight else len
  if hasVendRtap then align (len + 4) 2 else len

/-! ## The fields -/

/-- The fields of a radiotap header that are announced, in the order of their bits. -/
inductive Field where
  | tsft
  | flags
  | rate
  | channel
  | dbmAntsignal
  | antenna
  | rxFlags
  | mcs
  | ampduStatus
  | vht
  | he
  deriving DecidableEq

namespace Field

def all : List Field :=
  [tsft, flags, rate, channel, dbmAntsignal, antenna, rxFlags, mcs, ampduStatus, vht, he]

/-- The alignment and the length of a field. -/
def shape : Field → Nat × Nat
  | tsft => (8, 8)
  | flags | rate | dbmAntsignal | antenna => (1, 1)
  | channel => (2, 4)
  | rxFlags => (2, 2)
  | mcs => (1, 3)
  | ampduStatus => (4, 8)
  | vht | he => (2, 12)

end Field

/-- A header that is being written: the words of the presence bitmap, what the first one
    announces, and each write with its place and its length. -/
structure Layout where
  words : Nat
  present : List Field
  pos : Nat
  writes : List (Nat × Nat)
  deriving DecidableEq

namespace Layout

variable (l : Layout)

def put (n : Nat) : Layout := { l with pos := l.pos + n, writes := (l.pos, n) :: l.writes }

def skip (n : Nat) : Layout := { l with pos := l.pos + n }

/-- Aligned with zeros. -/
def pad (k : Nat) : Layout := l.put (align l.pos k - l.pos)

/-- Aligned without a write. -/
def alignTo (k : Nat) : Layout := { l with pos := align l.pos k }

def announce (f : Field) : Layout := { l with present := f :: l.present }

/-- A field that is announced and put where `pos` is. -/
def field (f : Field) : Layout := (l.announce f).put f.shape.2

/-- The VHT field. For 40 MHz the bandwidth is written, and once more by the branch that is
    for 20 MHz. Of the four bytes for MCS and NSS one is written, and the group and the partial
    AID are stepped over. -/
def vht (v : RxVector1) : Layout :=
  let l := ((l.announce .vht).put 2).put 1
  let l := if v.chBw.val = phyChnlBw40 then l.put 1 else l
  (((((l.put 1).put 1).skip 3).put 1).skip 1).skip 2

end Layout

namespace RxVector1

variable (v : RxVector1) (vend : Bool)

def legacy : Bool := v.formatMod.val ≤ formatmodNonHtDupOfdm

/-- `rwnx_rx_add_rtap_hdr` up to the RX flags. With vendor data there is no `hwvect`. -/
def head : Layout :=
  let words := 1 + (if 1 < v.hweight then v.chains.length else 0) + if vend then 1 else 0
  let l := Layout.put ⟨words, [], 0, []⟩ (4 + 4 * words)
  let l := if vend then l else (l.pad 8).field .tsft
  let l := l.field .flags
  let l := if v.legacy then l.field .rate else l.put 1
  let l := l.field .channel
  let l := if v.hweight = 1 then (l.field .dbmAntsignal).field .antenna else l
  (l.pad 2).field .rxFlags

/-- The fields that the format asks for. -/
def formatFields (l : Layout) : Layout :=
  let aggregation := formatmodVht ≤ v.formatMod.val || !v.legacy && v.htAggregation
  let l := if v.isHt then l.field .mcs else l
  let l := if aggregation && !vend then (l.alignTo 4).field .ampduStatus else l
  let l := if v.formatMod.val = formatmodVht then l.vht v else l
  if v.formatMod.val = formatmodHeSu then (l.alignTo 2).field .he else l

end RxVector1

/-- `rwnx_rx_add_rtap_hdr`, with a signal and an antenna for each of several chains at the
    end. The header is zeroed first, for the length that was computed. -/
def rwnxRxAddRtapHdr (v : RxVector1) (vend : Bool) : Layout :=
  let l := v.formatFields vend (v.head vend)
  let l := if 1 < v.hweight then v.chains.foldl (fun l _ => (l.put 1).put 1) l else l
  { l with writes := l.writes ++ [(0, rwnxRxRtapHdrlen v vend)] }

/-- Where the fields end that the bitmap announces: those of the first word, a signal and an
    antenna for each of the chains, and the start of the vendor data. -/
def framed (v : RxVector1) (vend : Bool) : Nat :=
  let l := rwnxRxAddRtapHdr v vend
  let chains := if 1 < v.hweight then v.chains else []
  let fields := Field.all.filter (l.present.contains ·) ++
    chains.flatMap fun _ => [.dbmAntsignal, .antenna]
  let stop := fields.foldl (fun pos f => align pos f.shape.1 + f.shape.2) (4 + 4 * l.words)
  if vend then align stop 2 else stop

/-- The builder ends where the length that was computed ends, nothing is written behind it, and
    the header is what the bitmap announces. -/
structure Agrees (v : RxVector1) (vend : Bool) : Prop where
  length : (rwnxRxAddRtapHdr v vend).pos = rwnxRxRtapHdrlen v vend
  within : ∀ w ∈ (rwnxRxAddRtapHdr v vend).writes, w.1 + w.2 ≤ rwnxRxRtapHdrlen v vend
  framed : framed v vend = rwnxRxRtapHdrlen v vend

section Lengths

variable {v : RxVector1} {vend : Bool} {l : Layout}

namespace Layout

@[simp] theorem put_pos (n : Nat) : (l.put n).pos = l.pos + n := rfl

@[simp] theorem skip_pos (n : Nat) : (l.skip n).pos = l.pos + n := rfl

theorem le_align {n k : Nat} (some : 0 < k) : n ≤ align n k := by
  have div := Nat.div_add_mod (n + k - 1) k
  have small := Nat.mod_lt (n + k - 1) some
  unfold align
  rw [Nat.mul_comm]
  omega

theorem pad_pos {k : Nat} (some : 0 < k) : (l.pad k).pos = align l.pos k := by
  have after : l.pos ≤ align l.pos k := le_align some
  simp only [pad, put_pos]
  omega

@[simp] theorem pad_two_pos : (l.pad 2).pos = align l.pos 2 := pad_pos Nat.two_pos

@[simp] theorem pad_eight_pos : (l.pad 8).pos = align l.pos 8 := pad_pos (by decide)

@[simp] theorem alignTo_pos (k : Nat) : (l.alignTo k).pos = align l.pos k := rfl

@[simp] theorem field_pos (f : Field) : (l.field f).pos = l.pos + f.shape.2 := rfl

@[simp] theorem announce_pos (f : Field) : (l.announce f).pos = l.pos := rfl

@[simp] theorem vht_pos : (l.vht v).pos = l.pos + if v.chBw.val = phyChnlBw40 then 13 else 12 := by
  unfold vht
  split <;> simp

theorem chains_pos (chains : List Nat) :
    (chains.foldl (fun l _ => (l.put 1).put 1) l).pos = l.pos + 2 * chains.length := by
  induction chains generalizing l with
  | nil => rfl
  | cons _ rest ih =>
      rw [List.foldl_cons, ih, put_pos, put_pos, List.length_cons]
      omega

end Layout

theorem chains_le : v.chains.length ≤ v.hweight := by
  have few : (List.range ieee80211MaxChains).Sublist (List.range 8) := by decide
  exact (few.filter _).length_le

theorem hweight_le : v.hweight ≤ 8 := List.length_filter_le _ _

/-- Whether the rate is announced or not, it takes a byte. -/
theorem rate_pos (l : Layout) :
    (if v.legacy = true then l.field .rate else l.put 1).pos = l.pos + 1 := by
  split <;> rfl

/-- The words for the chains of several antennas. -/
theorem head_pos :
    (v.head vend).pos =
      (if vend then 12 + 4 * (if 1 < v.hweight then v.chains.length else 0)
        else align (8 + 4 * (if 1 < v.hweight then v.chains.length else 0)) 8 + 8) +
        (if v.hweight = 1 then 10 else 8) := by
  unfold RxVector1.head
  generalize (if 1 < v.hweight then v.chains.length else 0) = c
  cases vend with
  | false =>
      by_cases one : v.hweight = 1
      · simp [one, rate_pos, Field.shape, align]
        omega
      · simp [one, rate_pos, Field.shape, align]
        omega
  | true =>
      by_cases one : v.hweight = 1
      · simp [one, rate_pos, Field.shape, align]
        omega
      · simp [one, rate_pos, Field.shape, align]
        omega

/-- The formats that are told apart. -/
theorem format_cases (v : RxVector1) :
    v.formatMod.val = 0 ∨ v.formatMod.val = 1 ∨ v.formatMod.val = 2 ∨ v.formatMod.val = 3 ∨
      v.formatMod.val = 4 ∨ v.formatMod.val = 5 ∨ 5 < v.formatMod.val := by omega

/-- What is computed for the format, behind `len` bytes. -/
def formatLen (v : RxVector1) (vend : Bool) (len : Nat) : Nat :=
  let len := if v.isHt then len + 3 else len
  let len :=
    if !vend && (formatmodVht ≤ v.formatMod.val ||
        formatmodNonHtDupOfdm < v.formatMod.val && v.htAggregation) then
      align len 4 + 8
    else len
  let len := if v.formatMod.val = formatmodVht then align len 2 + 12 else len
  if v.formatMod.val = formatmodHeSu then align len 2 + 12 else len

/-- The byte that is one too many. -/
def extra (v : RxVector1) : Nat :=
  if v.formatMod.val = formatmodVht ∧ v.chBw.val = phyChnlBw40 then 1 else 0

theorem extra_le : extra v ≤ 1 := by
  unfold extra
  split <;> omega

/-- What the format asks for takes what is computed for it, and sometimes a byte more. -/
theorem formatFields_pos {l : Layout} (even : l.pos % 2 = 0) :
    (v.formatFields vend l).pos = formatLen v vend l.pos + extra v := by
  have whole : align l.pos 2 = l.pos := by
    unfold align
    omega
  have again : align (align l.pos 4 + 8) 2 = align l.pos 4 + 8 := by
    unfold align
    omega
  unfold RxVector1.formatFields formatLen extra RxVector1.isHt RxVector1.legacy formatmodVht
    formatmodHeSu formatmodHtMf formatmodHtGf formatmodNonHtDupOfdm
  obtain f | f | f | f | f | f | f := format_cases v
  · simp [f]
  · simp [f]
  · cases v.htAggregation <;> cases vend <;> simp [f, Field.shape]
  · cases v.htAggregation <;> cases vend <;> simp [f, Field.shape]
  · by_cases wide : v.chBw.val = phyChnlBw40
    · cases vend <;> simp [f, wide, Field.shape, whole, again]
    · cases vend <;> simp [f, wide, Field.shape, whole, again]
  · cases vend <;> simp [f, Field.shape]
  · have others : ¬ v.formatMod.val ≤ 1 ∧ 1 < v.formatMod.val ∧ 4 ≤ v.formatMod.val ∧
        v.formatMod.val ≠ 2 ∧ v.formatMod.val ≠ 3 ∧ v.formatMod.val ≠ 4 ∧
          v.formatMod.val ≠ 5 := by omega
    cases vend <;> simp [others, Field.shape]

/-- With vendor data nothing is aligned to more than two bytes. -/
theorem formatLen_vend {len : Nat} (even : len % 2 = 0) :
    formatLen v true len = len + if v.isHt then 3 else
      if v.formatMod.val = formatmodVht ∨ v.formatMod.val = formatmodHeSu then 12 else 0 := by
  have whole : align len 2 = len := by
    unfold align
    omega
  unfold formatLen RxVector1.isHt formatmodVht formatmodHeSu formatmodHtMf formatmodHtGf
  obtain f | f | f | f | f | f | f := format_cases v
  case inr.inr.inr.inr.inr.inr =>
    have others : v.formatMod.val ≠ 2 ∧ v.formatMod.val ≠ 3 ∧ v.formatMod.val ≠ 4 ∧
        v.formatMod.val ≠ 5 := by omega
    simp [others]
  all_goals simp [f, whole]

/-- The A-MPDU status does not make up for a header that is two bytes short. -/
theorem formatLen_lt {len len' : Nat} (four : len % 4 = 0) (two : len' % 4 = 2)
    (short : len < len') :
    formatLen v false len + 1 < formatLen v false len' := by
  unfold formatLen RxVector1.isHt formatmodVht formatmodHeSu formatmodHtMf formatmodHtGf
    formatmodNonHtDupOfdm align
  obtain f | f | f | f | f | f | f := format_cases v
  case inr.inr.inr.inr.inr.inr =>
    have others : 4 ≤ v.formatMod.val ∧ v.formatMod.val ≠ 2 ∧ v.formatMod.val ≠ 3 ∧
        v.formatMod.val ≠ 4 ∧ v.formatMod.val ≠ 5 := by omega
    simp [others]
    omega
  all_goals
    cases v.htAggregation <;> simp [f]
  all_goals omega

/-- What is computed for the header up to the RX flags. -/
def headLen (v : RxVector1) (vend : Bool) : Nat :=
  let len := 16 + if 1 < v.hweight then 4 * v.hweight else 0
  align ((if vend then len else align len 8 + 8) + if v.hweight = 1 then 2 else 1) 2

theorem rtapHdrlen_eq :
    rwnxRxRtapHdrlen v vend =
      let len := formatLen v vend (headLen v vend) + if 1 < v.hweight then 2 * v.hweight else 0
      if vend then align (len + 4) 2 else len := by
  unfold rwnxRxRtapHdrlen headLen formatLen
  by_cases several : 1 < v.hweight
  · have more : v.hweight ≠ 1 := by omega
    cases vend <;> simp [several, more]
  · by_cases one : v.hweight = 1
    · cases vend <;> simp [one]
    · cases vend <;> simp [several, one]

theorem formatLen_le (len : Nat) : formatLen v vend len ≤ len + 41 := by
  unfold formatLen align
  simp only
  split_ifs <;> omega

/-- The length is a `u8` in the source, and never wraps. -/
theorem rtapHdrlen_lt : rwnxRxRtapHdrlen v vend < 2 ^ 8 := by
  have few : v.hweight ≤ 8 := hweight_le
  have format : formatLen v vend (headLen v vend) ≤ headLen v vend + 41 := formatLen_le _
  have head : headLen v vend ≤ 66 := by
    unfold headLen align
    simp only
    split_ifs <;> omega
  rw [rtapHdrlen_eq]
  unfold align
  simp only
  split_ifs <;> omega

theorem pos_eq :
    (rwnxRxAddRtapHdr v vend).pos =
      formatLen v vend (v.head vend).pos + extra v +
        if 1 < v.hweight then 2 * v.chains.length else 0 := by
  have even : (v.head vend).pos % 2 = 0 := by
    rw [head_pos]
    unfold align
    split <;> split <;> split <;> omega
  unfold rwnxRxAddRtapHdr
  split
  · rw [Layout.chains_pos, formatFields_pos even]
  · rw [formatFields_pos even]
    rfl

/-- With no antenna, or several, the header is shorter than was computed. -/
theorem pos_lt (other : v.hweight ≠ 1) :
    (rwnxRxAddRtapHdr v vend).pos < rwnxRxRtapHdrlen v vend := by
  have few : v.chains.length ≤ v.hweight := chains_le
  have byte : extra v ≤ 1 := extra_le
  rw [pos_eq, rtapHdrlen_eq, head_pos]
  unfold headLen
  cases vend with
  | false =>
      simp only [Bool.false_eq_true, if_false, if_neg other]
      by_cases several : 1 < v.hweight
      · simp only [if_pos several]
        have shorter : formatLen v false (align (8 + 4 * v.chains.length) 8 + 8 + 8) + 1 <
            formatLen v false (align (align (16 + 4 * v.hweight) 8 + 8 + 1) 2) := by
          apply formatLen_lt <;> (unfold align; omega)
        omega
      · simp only [if_neg several]
        have shorter : formatLen v false (align (8 + 4 * 0) 8 + 8 + 8) + 1 <
            formatLen v false (align (align (16 + 0) 8 + 8 + 1) 2) := by
          apply formatLen_lt <;> (unfold align; omega)
        omega
  | true =>
      simp only [if_true, if_neg other]
      have even : ∀ n, align (16 + 4 * n + 1) 2 = 18 + 4 * n := by
        intro n
        unfold align
        omega
      by_cases several : 1 < v.hweight
      · simp only [if_pos several]
        rw [even, formatLen_vend (by omega), formatLen_vend (by omega)]
        unfold align
        omega
      · simp only [if_neg several]
        rw [even 0, formatLen_vend (by omega), formatLen_vend (by omega)]
        unfold align
        omega

/-- With one antenna the lengths are the same, but for a byte too many or a byte of padding. -/
theorem pos_of_one (one : v.hweight = 1) :
    (rwnxRxAddRtapHdr v vend).pos + (if vend ∧ v.isHt then 1 else 0) =
      rwnxRxRtapHdrlen v vend + extra v := by
  rw [pos_eq, rtapHdrlen_eq, head_pos]
  unfold headLen
  cases vend with
  | false =>
      simp [one, align]
  | true =>
      simp only [one, if_true, Nat.lt_irrefl, if_false]
      rw [formatLen_vend (by omega), formatLen_vend (by unfold align; omega)]
      unfold align
      cases ht : v.isHt with
      | true =>
          simp
          omega
      | false =>
          simp
          split <;> omega

theorem length_iff :
    (rwnxRxAddRtapHdr v vend).pos = rwnxRxRtapHdrlen v vend ↔
      v.hweight = 1 ∧ ¬ (v.formatMod.val = formatmodVht ∧ v.chBw.val = phyChnlBw40) ∧
        ¬ (vend = true ∧ v.isHt = true) := by
  by_cases one : v.hweight = 1
  · have lengths : (rwnxRxAddRtapHdr v vend).pos + (if vend ∧ v.isHt then 1 else 0) =
        rwnxRxRtapHdrlen v vend + extra v := pos_of_one one
    have ht : v.isHt = true → v.formatMod.val ≠ formatmodVht := by
      intro ht vht
      simp [RxVector1.isHt, vht, formatmodVht, formatmodHtMf, formatmodHtGf] at ht
    unfold extra at lengths
    split at lengths
    · rename_i padded
      have other := ht padded.2
      simp only [other, false_and, if_false] at lengths
      constructor
      · intro same
        omega
      · rintro ⟨_, _, wrong⟩
        exact absurd padded wrong
    · rename_i plain
      split at lengths
      · rename_i wide
        constructor
        · intro same
          omega
        · rintro ⟨_, wrong, _⟩
          exact absurd wide wrong
      · rename_i narrow
        exact ⟨fun _ => ⟨one, narrow, plain⟩, fun _ => by omega⟩
  · have shorter : (rwnxRxAddRtapHdr v vend).pos < rwnxRxRtapHdrlen v vend := pos_lt one
    constructor
    · intro same
      omega
    · intro only
      exact absurd only.1 one

/-! ## Every write is in the header -/

/-- What was written lies before a place. -/
def Layout.Before (l : Layout) (stop : Nat) : Prop := ∀ w ∈ l.writes, w.1 + w.2 ≤ stop

/-- What was written lies before `pos`. -/
def Layout.Inside (l : Layout) : Prop := l.Before l.pos

namespace Layout.Inside

theorem put (h : l.Inside) (n : Nat) : (l.put n).Inside := by
  intro w member
  rcases List.mem_cons.mp member with rfl | earlier
  · exact le_rfl
  · have := h w earlier
    rw [put_pos]
    omega

theorem skip (h : l.Inside) (n : Nat) : (l.skip n).Inside :=
  fun w member => (h w member).trans (Nat.le_add_right _ _)

theorem pad (h : l.Inside) (k : Nat) : (l.pad k).Inside := put h _

theorem alignTo (h : l.Inside) {k : Nat} (some : 0 < k) : (l.alignTo k).Inside :=
  fun w member => (h w member).trans (le_align some)

theorem field (h : l.Inside) (f : Field) : (l.field f).Inside := put (l := l.announce f) h f.shape.2

theorem ite {c : Prop} [Decidable c] {l l' : Layout} (h : l.Inside) (h' : l'.Inside) :
    (if c then l else l').Inside := by
  split
  · exact h
  · exact h'

/-- The last three bytes of the VHT field are stepped over. -/
theorem vht (h : l.Inside) : ∃ l' : Layout, l'.Inside ∧ l.vht v = (l'.skip 1).skip 2 := by
  have start : ((l.announce .vht).put 2 |>.put 1).Inside := put (put (l := l.announce .vht) h 2) 1
  have bandwidth := ite (c := v.chBw.val = phyChnlBw40) (start.put 1) start
  exact ⟨_, (((bandwidth.put 1).put 1).skip 3).put 1, rfl⟩

theorem head : (v.head vend).Inside := by
  have bitmap : ∀ words, (Layout.put ⟨words, [], 0, []⟩ (4 + 4 * words)).Inside := by
    intro words
    apply put
    intro w none
    cases none
  unfold RxVector1.head
  apply field
  apply pad
  have channel : ∀ l : Layout, l.Inside →
      (if v.hweight = 1 then (l.field .dbmAntsignal).field .antenna else l).Inside :=
    fun l h => ite ((h.field _).field _) h
  apply channel
  apply field
  have rate : ∀ l : Layout, l.Inside →
      (if v.legacy = true then l.field .rate else l.put 1).Inside :=
    fun l h => ite (h.field _) (h.put 1)
  apply rate
  apply field
  exact ite (bitmap _) ((pad (bitmap _) 8).field _)

/-- What the format asks for: with a VHT vector the last three bytes are stepped over. -/
theorem formatFields (h : l.Inside) :
    (v.formatFields vend l).Inside ∧ (v.formatMod.val = formatmodVht →
      (v.formatFields vend l).Before ((v.formatFields vend l).pos - 3)) := by
  unfold RxVector1.formatFields
  have mcs := ite (c := v.isHt = true) (h.field .mcs) h
  generalize (if v.isHt = true then l.field .mcs else l) = l at mcs ⊢
  have ampdu : ∀ c : Bool, (if c = true then (l.alignTo 4).field .ampduStatus else l).Inside :=
    fun c => ite ((mcs.alignTo (by decide)).field _) mcs
  have status := ampdu
    ((formatmodVht ≤ v.formatMod.val || !v.legacy && v.htAggregation) && !vend)
  simp only
  generalize (if ((decide (formatmodVht ≤ v.formatMod.val) || !v.legacy && v.htAggregation) &&
    !vend) = true then (l.alignTo 4).field .ampduStatus else l) = l at status ⊢
  obtain ⟨l', inside, same⟩ := vht (v := v) status
  by_cases wide : v.formatMod.val = formatmodVht
  · have other : v.formatMod.val ≠ formatmodHeSu := by
      rw [wide]
      decide
    simp only [if_pos wide, if_neg other, same]
    exact ⟨(inside.skip 1).skip 2, fun _ => inside⟩
  · simp only [if_neg wide]
    exact ⟨ite ((status.alignTo Nat.two_pos).field _) status, fun vht => absurd vht wide⟩

theorem chains (h : l.Inside) (chains : List Nat) :
    (chains.foldl (fun l _ => (l.put 1).put 1) l).Inside := by
  induction chains generalizing l with
  | nil => exact h
  | cons _ rest ih => exact ih ((h.put 1).put 1)

end Layout.Inside

/-- Whatever the vector is, nothing is written behind the header. -/
theorem writes_within (v : RxVector1) (vend : Bool) :
    ∀ w ∈ (rwnxRxAddRtapHdr v vend).writes, w.1 + w.2 ≤ rwnxRxRtapHdrlen v vend := by
  obtain ⟨inside, before⟩ := @Layout.Inside.formatFields v vend _ Layout.Inside.head
  have fields : ∀ l : Layout, l.Before (rwnxRxRtapHdrlen v vend) →
      ∀ w ∈ l.writes ++ [(0, rwnxRxRtapHdrlen v vend)], w.1 + w.2 ≤ rwnxRxRtapHdrlen v vend := by
    intro l h w member
    rcases List.mem_append.mp member with written | zeroed
    · exact h w written
    · rw [List.mem_singleton.mp zeroed]
      simp
  apply fields
  by_cases one : v.hweight = 1
  · have single : ¬ 1 < v.hweight := by omega
    have lengths := @pos_of_one v vend one
    have pos : (rwnxRxAddRtapHdr v vend).pos = (v.formatFields vend (v.head vend)).pos := by
      simp [rwnxRxAddRtapHdr, single]
    rw [pos] at lengths
    rw [if_neg single]
    intro w member
    by_cases wide : v.formatMod.val = formatmodVht
    · have short := before wide w member
      have byte : extra v ≤ 1 := extra_le
      omega
    · have short := inside w member
      have none : extra v = 0 := if_neg fun vht => wide vht.1
      omega
  · have shorter : (rwnxRxAddRtapHdr v vend).pos < rwnxRxRtapHdrlen v vend := pos_lt one
    have whole := Layout.Inside.ite (c := 1 < v.hweight) (inside.chains v.chains) inside
    exact fun w member => (whole w member).trans shorter.le

/-! ## The bitmap announces the header -/

theorem framed_of_one (one : v.hweight = 1) : framed v vend = rwnxRxRtapHdrlen v vend := by
  unfold framed rwnxRxAddRtapHdr rwnxRxRtapHdrlen RxVector1.head RxVector1.formatFields
    RxVector1.isHt RxVector1.legacy formatmodNonHtDupOfdm formatmodHtMf formatmodHtGf formatmodVht
    formatmodHeSu Layout.vht
  obtain f | f | f | f | f | f | f := format_cases v
  case inr.inr.inr.inr.inr.inr =>
    have others : ¬ v.formatMod.val ≤ 1 ∧ 1 < v.formatMod.val ∧ 4 ≤ v.formatMod.val ∧
        v.formatMod.val ≠ 2 ∧ v.formatMod.val ≠ 3 ∧ v.formatMod.val ≠ 4 ∧
          v.formatMod.val ≠ 5 := by omega
    cases vend <;> simp [one, others, Layout.field, Layout.announce, Layout.put, Layout.alignTo,
      Layout.pad, Field.all, Field.shape, align, List.filter]
  case inr.inr.inr.inr.inl =>
    by_cases wide : v.chBw.val = phyChnlBw40 <;> cases vend <;>
      simp [one, f, wide, Layout.field, Layout.announce, Layout.put, Layout.alignTo, Layout.pad,
        Layout.skip, Field.all, Field.shape, align, List.filter]
  all_goals
    cases v.htAggregation <;> cases vend <;>
      simp [one, f, Layout.field, Layout.announce, Layout.put, Layout.alignTo, Layout.pad, Field.all,
        Field.shape, align, List.filter]

end Lengths

/-- Nothing is written behind the header. It agrees with the length that was computed for it
    exactly for the vectors with one antenna, but for VHT at 40 MHz, and for HT with vendor
    data. -/
theorem radiotap_agrees_iff (v : RxVector1) (vend : Bool) :
    (∀ w ∈ (rwnxRxAddRtapHdr v vend).writes, w.1 + w.2 ≤ rwnxRxRtapHdrlen v vend) ∧
    (Agrees v vend ↔
      v.hweight = 1 ∧ ¬ (v.formatMod.val = formatmodVht ∧ v.chBw.val = phyChnlBw40) ∧
        ¬ (vend = true ∧ v.isHt = true)) := by
  refine ⟨writes_within v vend, ?_⟩
  constructor
  · intro h
    exact length_iff.mp h.length
  · intro only
    exact ⟨length_iff.mpr only, writes_within v vend, framed_of_one only.1⟩

/-- A frame received with two antennas: 36 bytes are laid out and announced, and 38 computed. -/
theorem two_antennas_shorter : ¬ ∀ v vend, Agrees v vend := by
  intro agrees
  have same := (agrees ⟨0, 0, 3, false⟩ false).length
  exact absurd same (by decide)

end Aic8800.Rx.Radiotap
