import Aic8800.Lib.Run
import Mathlib.Data.List.DropRight

/-! # The pulse detectors of the radar code

One radar type has a list of detectors, one for each frequency on which pulses
of the type were seen. A detector keeps the pulses of a time window, newest
first, and the sequences of pulses that share a repetition interval. Only the
detector for short, weather and interleaved waveforms is modelled here; the
detector for long waveforms uses other operations on the same records.
-/

namespace Aic8800.Radar

open Lib

def u8 (n : Nat) : Nat := n % 256

def u32 (n : Nat) : Nat := n % 4294967296

def u64 (n : Nat) : Nat := n % 18446744073709551616

/-! ## Radar types -/

inductive WaveformType where
  | short
  | weather
  | interleaved
  | long
  deriving DecidableEq, Repr

/-- The detector specs of one radar pattern. -/
structure Specs where
  typeId : Nat
  widthMin : Nat
  widthMax : Nat
  priMin : Nat
  priMax : Nat
  numPri : Nat
  ppb : Nat
  ppbThresh : Nat
  maxPriTolerance : Nat
  type : WaveformType
  deriving DecidableEq, Repr

def priTolerance : Nat := 16

/-- `PPB_THRESH`: half of the pulses of a burst, rounded. -/
def ppbThresh (ppb : Nat) : Nat := (ppb * 50 + 50) / 100

def prf2pri (prf : Nat) : Nat := (1000000 + prf / 2) / prf

def etsiPatternShort (id wmin wmax pmin pmax ppb : Nat) : Specs where
  typeId := id
  widthMin := wmin
  widthMax := wmax
  priMin := prf2pri pmax - priTolerance
  priMax := prf2pri pmin + priTolerance
  numPri := 1
  ppb := ppb
  ppbThresh := ppbThresh ppb
  maxPriTolerance := priTolerance
  type := .short

def etsiPatternInterleaved (id wmin wmax pmin pmax prfmin prfmax ppb : Nat) : Specs where
  typeId := id
  widthMin := wmin
  widthMax := wmax
  priMin := prf2pri pmax * prfmin - priTolerance
  priMax := prf2pri pmin * prfmax + priTolerance
  numPri := prfmax
  ppb := ppb * prfmax
  ppbThresh := ppbThresh ppb
  maxPriTolerance := priTolerance
  type := .interleaved

def fccPattern (id wmin wmax pmin pmax prf ppb : Nat) (type : WaveformType) : Specs where
  typeId := id
  widthMin := wmin
  widthMax := wmax
  priMin := pmin - priTolerance
  priMax := pmax * prf + priTolerance
  numPri := prf
  ppb := ppb * prf
  ppbThresh := ppbThresh ppb
  maxPriTolerance := priTolerance
  type := type

def etsiRadarRefTypesRiu : List Specs :=
  [etsiPatternShort 0 0 8 700 700 18, etsiPatternShort 1 0 10 200 1000 10,
    etsiPatternShort 2 0 22 200 1600 15, etsiPatternShort 3 0 22 2300 4000 25,
    etsiPatternShort 4 20 38 2000 4000 20, etsiPatternInterleaved 5 0 8 300 400 2 3 10,
    etsiPatternInterleaved 6 0 8 400 1200 2 3 15]

def etsiRadarRefTypesFcu : List Specs :=
  [etsiPatternShort 0 0 8 700 700 18, etsiPatternShort 1 0 8 200 1000 10,
    etsiPatternShort 2 0 16 200 1600 15, etsiPatternShort 3 0 16 2300 4000 25,
    etsiPatternShort 4 20 34 2000 4000 20, etsiPatternInterleaved 5 0 8 300 400 2 3 10,
    etsiPatternInterleaved 6 0 8 400 1200 2 3 15]

def fccRadarRefTypesRiu : List Specs :=
  [fccPattern 0 0 8 1428 1428 1 18 .short, fccPattern 1 0 8 518 3066 1 102 .weather,
    fccPattern 2 0 8 150 230 1 23 .short, fccPattern 3 6 20 200 500 1 16 .short,
    fccPattern 4 10 28 200 500 1 12 .short, fccPattern 5 50 110 1000 2000 1 8 .long,
    fccPattern 6 0 8 333 333 1 9 .short]

def fccRadarRefTypesFcu : List Specs :=
  [fccPattern 0 0 8 1428 1428 1 18 .short, fccPattern 1 0 8 518 3066 1 102 .weather,
    fccPattern 2 0 8 150 230 1 23 .short, fccPattern 3 6 12 200 500 1 16 .short,
    fccPattern 4 10 22 200 500 1 12 .short, fccPattern 5 50 104 1000 2000 1 8 .long,
    fccPattern 6 0 8 333 333 1 9 .short]

def jpRadarRefTypesRiu : List Specs :=
  [fccPattern 0 0 8 1428 1428 1 18 .short, fccPattern 1 2 8 3846 3846 1 18 .short,
    fccPattern 2 0 8 1388 1388 1 18 .short, fccPattern 3 0 8 4000 4000 1 18 .short,
    fccPattern 4 0 8 150 230 1 23 .short, fccPattern 5 6 20 200 500 1 16 .short,
    fccPattern 6 10 28 200 500 1 12 .short, fccPattern 7 50 110 1000 2000 1 8 .long,
    fccPattern 8 0 8 333 333 1 9 .short]

def jpRadarRefTypesFcu : List Specs :=
  [fccPattern 0 0 8 1428 1428 1 18 .short, fccPattern 1 2 6 3846 3846 1 18 .short,
    fccPattern 2 0 8 1388 1388 1 18 .short, fccPattern 3 2 2 4000 4000 1 18 .short,
    fccPattern 4 0 8 150 230 1 23 .short, fccPattern 5 6 12 200 500 1 16 .short,
    fccPattern 6 10 22 200 500 1 12 .short, fccPattern 7 50 104 1000 2000 1 8 .long,
    fccPattern 8 0 8 333 333 1 9 .short]

/-- The specs of every domain the driver knows, for both chains. -/
def dfsDomains : List Specs :=
  etsiRadarRefTypesRiu ++ etsiRadarRefTypesFcu ++ fccRadarRefTypesRiu ++ fccRadarRefTypesFcu ++
    jpRadarRefTypesRiu ++ jpRadarRefTypesFcu

/-! ## Sequences and detectors -/

/-- `struct pri_sequence`. -/
structure PriSequence where
  pri : Nat
  dur : Nat
  count : Nat
  countFalses : Nat
  firstTs : Nat
  lastTs : Nat
  deadlineTs : Nat
  ppbThresh : Nat
  deriving DecidableEq, Repr

/-- `struct pri_detector`; the queue of pulses holds the newest at its head. -/
structure PriDetector where
  freq : Nat
  lastTs : Nat := 0
  sequences : List PriSequence := []
  pulses : List Nat := []
  deriving DecidableEq, Repr

namespace PriDetector

def count (pde : PriDetector) : Nat := pde.pulses.length

end PriDetector

namespace Specs

def windowSize (rs : Specs) : Nat := u32 (rs.priMax * rs.ppb * rs.numPri)

def maxCount (rs : Specs) : Nat := rs.ppb * 2

end Specs

/-- Which allocations succeed while one pulse is processed: that of a detector,
    that of a queue element, and how many of new sequences. -/
structure Allocations where
  detector : Bool := true
  pulse : Bool := true
  sequences : Nat := 1000
  deriving DecidableEq, Repr

/-! ## The pulse queue -/

/-- `pulse_queue_check_window`: drop pulses from the tail while they are older
    than the window. -/
def pulseQueueCheckWindow (rs : Specs) (pde : PriDetector) : PriDetector :=
  if pde.count < 2 then pde
  else if pde.lastTs ≤ rs.windowSize then pde
  else { pde with pulses := pde.pulses.rdropWhile (· < pde.lastTs - rs.windowSize) }

/-- `pulse_queue_enqueue`. -/
def pulseQueueEnqueue (rs : Specs) (pde : PriDetector) (ts : Nat) (allocated : Bool) :
    PriDetector :=
  if allocated then
    let queued := pulseQueueCheckWindow rs { pde with pulses := ts :: pde.pulses, lastTs := ts }
    if rs.maxCount ≤ queued.count then { queued with pulses := queued.pulses.dropLast } else queued
  else pde

/-! ## Sequences of the short waveforms -/

/-- `pde_get_multiple`. -/
def pdeGetMultiple (val fraction tolerance : Nat) : Nat :=
  if fraction = 0 then 0
  else if (if val < fraction then fraction - val else val - fraction) ≤ tolerance then 1
  else if tolerance < val % fraction then
    if fraction - val % fraction ≤ tolerance then val / fraction + 1 else 0
  else val / fraction

/-- The inner loop of `pde_short_create_sequences`: the queued pulses older than
    the one that gave the interval, with the falses met since the last match. -/
def matchPastPulses (rs : Specs) (minValidTs : Nat) : List Nat → Nat → PriSequence → PriSequence
  | [], _, ps => ps
  | p2 :: older, tmpFalseCount, ps =>
      if p2 < minValidTs then ps
      else if 0 < pdeGetMultiple (u32 (ps.lastTs - p2)) ps.pri rs.maxPriTolerance then
        matchPastPulses rs minValidTs older 0
          { ps with
            count := ps.count + 1
            firstTs := p2
            countFalses := u32 (ps.countFalses + tmpFalseCount) }
      else matchPastPulses rs minValidTs older (tmpFalseCount + 1) ps

/-- The threshold a new sequence gets; that of a weather radar depends on its
    interval. -/
def seqPpbThresh (rs : Specs) (pri : Nat) : Nat :=
  if rs.type = .weather then u8 (ppbThresh (u8 (19000000 / u32 (360 * pri)))) else rs.ppbThresh

/-- The sequence of pulse `ts` and the queued pulse `p` before the older pulses
    are looked at. -/
def startSequence (rs : Specs) (ts p pulseIdx : Nat) : PriSequence where
  pri := u32 (ts - p)
  dur := u32 (u32 (ts - p) * (rs.ppb - 1) + 2 * rs.maxPriTolerance)
  count := 2
  countFalses := pulseIdx - 1
  firstTs := p
  lastTs := ts
  deadlineTs := 0
  ppbThresh := 0

def minValidTs (ts dur : Nat) : Nat := if ts < dur then 0 else ts - dur

/-- The sequence that pulse `ts` makes with the queued pulse `p`, where `older`
    are the pulses behind `p` and `pulseIdx` counts those up to it. -/
def newSequence (rs : Specs) (ts p : Nat) (older : List Nat) (pulseIdx : Nat) : PriSequence :=
  let start := startSequence rs ts p pulseIdx
  let ps := matchPastPulses rs (minValidTs ts start.dur) older 0 start
  { ps with deadlineTs := u64 (ps.firstTs + ps.dur), ppbThresh := seqPpbThresh rs ps.pri }

/-- `pde_short_create_sequences` over the queue from one pulse on. The sequences
    made are put in front; the flag is false when an allocation failed. -/
def pdeShortCreateSequences (rs : Specs) (ts minCount : Nat) :
    List Nat → Nat → Nat → List PriSequence → Bool × List PriSequence
  | [], _, _, sequences => (true, sequences)
  | p :: older, pulseIdx, allocatable, sequences =>
      if u32 (ts - p) < rs.priMin then
        pdeShortCreateSequences rs ts minCount older (pulseIdx + 1) allocatable sequences
      else if rs.priMax < u32 (ts - p) then (true, sequences)
      else
        let ps := newSequence rs ts p older (pulseIdx + 1)
        if ps.count ≤ minCount then
          pdeShortCreateSequences rs ts minCount older (pulseIdx + 1) allocatable sequences
        else match allocatable with
          | 0 => (false, sequences)
          | left + 1 =>
              pdeShortCreateSequences rs ts minCount older (pulseIdx + 1) left (ps :: sequences)

/-- What `pde_short_add_to_existing_seqs` does to a sequence still within its
    deadline, and whether the pulse was added to it. -/
def addToSequence (rs : Specs) (ts : Nat) (ps : PriSequence) : Bool × PriSequence :=
  if 0 < pdeGetMultiple (u32 (ts - ps.lastTs)) ps.pri rs.maxPriTolerance then
    (true, { ps with lastTs := ts, count := ps.count + 1 })
  else (false, { ps with countFalses := u32 (ps.countFalses + 1) })

/-- `pde_short_add_to_existing_seqs`, with the length of the longest sequence
    that took the pulse. -/
def pdeShortAddToExistingSeqs (rs : Specs) (ts : Nat) :
    List PriSequence → Nat × List PriSequence
  | [] => (0, [])
  | ps :: rest =>
      let (maxCount, kept) := pdeShortAddToExistingSeqs rs ts rest
      if ps.deadlineTs < ts then (maxCount, kept)
      else
        let (added, updated) := addToSequence rs ts ps
        (if added then max maxCount updated.count else maxCount, updated :: kept)

/-- `pde_short_check_detection`. -/
def pdeShortCheckDetection (rs : Specs) (sequences : List PriSequence) : Option PriSequence :=
  sequences.find? fun ps =>
    ps.ppbThresh ≤ ps.count && ps.countFalses < u32 (ps.count * rs.numPri)

/-- `pri_detector_reset`. -/
def priDetectorReset (pde : PriDetector) (ts : Nat) : PriDetector :=
  { pde with sequences := [], pulses := [], lastTs := ts }

/-- Whether a pulse is used at all: it is the first one, or it is not too close
    to the last one queued. -/
def accepts (rs : Specs) (pde : PriDetector) (ts : Nat) : Bool :=
  pde.count == 0 || rs.maxPriTolerance ≤ ts - pde.lastTs

/-- `pde_short_add_pulse`: the detector after the pulse and the sequence that the
    pulse completes. -/
def pdeShortAddPulse (rs : Specs) (pde : PriDetector) (ts : Nat) (alloc : Allocations) :
    Option PriSequence × PriDetector :=
  if pde.count = 0 then (none, pulseQueueEnqueue rs pde ts alloc.pulse)
  else if ts - pde.lastTs < rs.maxPriTolerance then (none, pde)
  else
    let (maxUpdatedSeq, existing) := pdeShortAddToExistingSeqs rs ts pde.sequences
    match pdeShortCreateSequences rs ts maxUpdatedSeq pde.pulses 0 alloc.sequences existing with
    | (false, _) => (none, priDetectorReset pde ts)
    | (true, sequences) =>
        match pdeShortCheckDetection rs sequences with
        | none => (none, pulseQueueEnqueue rs { pde with sequences := sequences } ts alloc.pulse)
        | some ps => (some ps, { pde with sequences := sequences })

/-! ## The detectors of a radar type -/

/-- A detector and the pulses it accepted since its last reset, newest first;
    only the statements read the second. -/
structure Watched where
  pde : PriDetector
  accepted : List Nat := []
  deriving DecidableEq, Repr

/-- A reported sequence and the pulses its detector had accepted. -/
structure Detection where
  sequence : PriSequence
  accepted : List Nat
  deriving DecidableEq, Repr

/-- The detectors of one radar type, the time stamp of the last pulse and what
    has been reported so far. -/
structure DfsPatternDetector where
  detectors : List Watched := []
  lastPulseTs : Nat := 0
  detections : List Detection := []
  deriving DecidableEq, Repr

/-- The search of `pri_detector_get`: a detector within 2 MHz that holds pulses,
    or else the last empty one of the very frequency. -/
def findDetector (freq : Nat) : List Watched → Nat → Option Nat → Option Nat
  | [], _, cur => cur
  | w :: rest, i, cur =>
      if w.pde.freq = freq then
        if w.pde.count = 0 then findDetector freq rest (i + 1) (some i) else some i
      else if (w.pde.freq = freq + 2 || w.pde.freq + 2 = freq) && w.pde.count ≠ 0 then some i
      else findDetector freq rest (i + 1) cur

/-- `pri_detector_get`: the detectors and the position of the one to use. -/
def priDetectorGet (detectors : List Watched) (freq : Nat) (allocated : Bool) :
    Option (List Watched × Nat) :=
  match findDetector freq detectors 0 none with
  | some i => some (detectors, i)
  | none => if allocated then some ({ pde := { freq := freq } } :: detectors, 0) else none

def Watched.reset (ts : Nat) (w : Watched) : Watched := { pde := priDetectorReset w.pde ts }

/-- What a pulse does to its detector. -/
def Watched.addPulse (rs : Specs) (ts : Nat) (alloc : Allocations) (w : Watched) :
    Option PriSequence × Watched :=
  let (found, pde) := pdeShortAddPulse rs w.pde ts alloc
  (found, { pde := pde, accepted := if accepts rs w.pde ts then ts :: w.accepted else w.accepted })

inductive Event where
  /-- A pulse on a frequency with its time stamp. -/
  | pulse (freq : UInt16) (ts : UInt64) (alloc : Allocations)
  /-- `dfs_pattern_detector_pri_overflow`. -/
  | priOverflow
  /-- `dfs_pattern_detector_reset` on a detection of another radar type. -/
  | reset
  deriving DecidableEq, Repr

namespace DfsPatternDetector

/-- `dfs_pattern_detector_reset`. -/
def reset (dpd : DfsPatternDetector) : DfsPatternDetector :=
  { dpd with detectors := dpd.detectors.map (Watched.reset dpd.lastPulseTs), lastPulseTs := 0 }

def priOverflow (dpd : DfsPatternDetector) : DfsPatternDetector :=
  { dpd with detectors := dpd.detectors.map (Watched.reset dpd.lastPulseTs) }

/-- The body of `dfs_pattern_detector_add_pulse` for one radar type. The time
    stamps it computes never go back. A detector that could not be allocated is
    used all the same, and no step follows. -/
def addPulse (rs : Specs) (dpd : DfsPatternDetector) (freq ts : Nat) (alloc : Allocations) :
    Option DfsPatternDetector :=
  if dpd.lastPulseTs ≤ ts then do
    let (detectors, i) ← priDetectorGet dpd.detectors freq alloc.detector
    let w ← detectors[i]?
    match w.addPulse rs ts alloc with
    | (none, w') => some { dpd with detectors := detectors.set i w', lastPulseTs := ts }
    | (some ps, w') =>
        some (reset
          { detectors := detectors.set i w', lastPulseTs := ts,
            detections := { sequence := ps, accepted := w'.accepted } :: dpd.detections })
  else none

def step (rs : Specs) (dpd : DfsPatternDetector) : Event → Option DfsPatternDetector
  | .pulse freq ts alloc => dpd.addPulse rs freq.toNat ts.toNat alloc
  | .priOverflow => some dpd.priOverflow
  | .reset => some dpd.reset

end DfsPatternDetector

end Aic8800.Radar
