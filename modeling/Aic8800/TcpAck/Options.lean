import Aic8800.Lib.Loop
import Aic8800.TcpAck.Frame
import Mathlib

/-! # The loop over the options stays in the header

`is_drop_tcp_ack` counts the option bytes down in `len` and moves `ptr` on, and the two
part at an `EOL` and at an option with a bad size: `ptr` has passed it and `len` has
not. Here the loop runs on memory without an end, from the TCP header on; what it
reads is compared with the header afterwards.
-/

namespace Aic8800.TcpAck.Options

open Lib

/-- `sizeof(struct tcphdr)` -/
def sizeofTcphdr : Nat := 20

/-- The memory from the TCP header on. -/
abbrev Memory := Nat → UInt8

/-- The bytes of the header, by its `doff`. -/
def hdrLen (mem : Memory) : Nat := (mem 12).toNat / 16 * 4

/-- The state at the head of the loop. -/
structure Scan where
  ptr : Nat
  len : Int
  drop : Nat
  winScale : Nat
  deriving DecidableEq

namespace Scan

variable (mem : Memory) (s : Scan)

def opcode : Nat := (mem s.ptr).toNat

def opsize : Nat := (mem (s.ptr + 1)).toNat

/-- The opcode is neither of those that stand alone. -/
def Sized : Prop := s.opcode mem ≠ tcpoptEol ∧ s.opcode mem ≠ tcpoptNop

/-- Its size is one that the loop goes by. -/
def Regular : Prop := 2 ≤ s.opsize mem ∧ (s.opsize mem : Int) ≤ s.len

instance : Decidable (s.Sized mem) := inferInstanceAs (Decidable (_ ∧ _))

instance : Decidable (s.Regular mem) := inferInstanceAs (Decidable (_ ∧ _))

/-- The addresses that a turn reads. -/
def reads : List Nat :=
  if s.Sized mem then
    if s.Regular mem ∧ s.opcode mem = tcpoptWindow then [s.ptr, s.ptr + 1, s.ptr + 2]
    else [s.ptr, s.ptr + 1]
  else [s.ptr]

/-- A turn of the loop. -/
def turn : Option Scan :=
  if 0 < s.len ∧ s.drop ≠ 0 then
    if s.opcode mem = tcpoptEol then some { s with ptr := s.ptr + 1 }
    else if s.opcode mem = tcpoptNop then some { s with ptr := s.ptr + 1, len := s.len - 1 }
    else if s.Regular mem then
      let shift := (mem (s.ptr + 2)).toNat
      some
        { ptr := s.ptr + 2 + (s.opsize mem - 2), len := s.len - s.opsize mem
          drop :=
            if s.opcode mem = tcpoptTimestamp ∨ s.opcode mem = tcpoptWindow then s.drop else 2
          winScale := if s.opcode mem = tcpoptWindow ∧ shift < 15 then 1 <<< shift else s.winScale }
    else some { s with ptr := s.ptr + 2 }
  else none

end Scan

/-- `is_drop_tcp_ack` up to the loop, which is not come to when there is a payload. -/
def start (mem : Memory) (tcpTotLen : Int) : Option Scan :=
  if (hdrLen mem : Int) < tcpTotLen then none
  else some ⟨sizeofTcphdr, (hdrLen mem : Int) - sizeofTcphdr, 1, 0⟩

/-- A turn, if one is taken, reads no byte behind the header. -/
def InHeader (mem : Memory) (s : Scan) : Prop :=
  s.turn mem ≠ none → ∀ i ∈ s.reads mem, i < hdrLen mem

/-- The loop ends, and reads no byte behind the header. -/
def Bounded (mem : Memory) (tcpTotLen : Int) : Prop :=
  ∀ s, start mem tcpTotLen = some s →
    (∃ t, Loop.Exits (Scan.turn mem) s t) ∧ ∀ t, Loop.Head (Scan.turn mem) s t → InHeader mem t

/-- The options, with `slack` bytes that were passed and not counted. A byte is not counted if it
    is an `EOL`, and an option's kind and size are not if the size is bad. At the end of
    the options all bytes were counted, unless the last size is more than what is left, and by
    as much as was not counted. -/
inductive Walk : List UInt8 → (slack : Nat) → Prop where
  | nil : Walk [] 0
  | eol {rest : List UInt8} {slack : Nat} {kind : UInt8} : kind.toNat = tcpoptEol →
      Walk rest (slack + 1) → Walk (kind :: rest) slack
  | nop {rest : List UInt8} {slack : Nat} {kind : UInt8} : kind.toNat = tcpoptNop →
      Walk rest slack → Walk (kind :: rest) slack
  | bad {rest : List UInt8} {slack : Nat} {kind size : UInt8} :
      kind.toNat ≠ tcpoptEol → kind.toNat ≠ tcpoptNop →
      size.toNat < 2 ∨ rest.length + 2 + slack < size.toNat →
      Walk rest (slack + 2) → Walk (kind :: size :: rest) slack
  | option {rest : List UInt8} {slack : Nat} {kind size : UInt8} :
      kind.toNat ≠ tcpoptEol → kind.toNat ≠ tcpoptNop → 2 ≤ size.toNat →
      size.toNat ≤ rest.length + 2 → (kind.toNat = tcpoptWindow → rest ≠ []) →
      Walk (rest.drop (size.toNat - 2)) slack → Walk (kind :: size :: rest) slack
  | last {rest : List UInt8} {slack : Nat} {kind size : UInt8} :
      kind.toNat ≠ tcpoptEol → kind.toNat ≠ tcpoptNop → 0 < slack →
      size.toNat = rest.length + 2 + slack → (kind.toNat = tcpoptWindow → rest ≠ []) →
      Walk (kind :: size :: rest) slack

/-- The bytes of the header behind `ptr`. -/
def left (mem : Memory) (ptr : Nat) : List UInt8 :=
  (List.range (hdrLen mem - ptr)).map fun i => mem (ptr + i)

section Left

variable {mem : Memory} {ptr : Nat}

theorem length_left (mem : Memory) (ptr : Nat) : (left mem ptr).length = hdrLen mem - ptr := by
  simp [left]

theorem left_nil (behind : hdrLen mem ≤ ptr) : left mem ptr = [] := by
  apply List.length_eq_zero_iff.mp
  rw [length_left]
  omega

theorem left_cons (before : ptr < hdrLen mem) : left mem ptr = mem ptr :: left mem (ptr + 1) := by
  obtain ⟨n, more⟩ := Nat.exists_eq_add_of_lt before
  have this : hdrLen mem - ptr = n + 1 := by omega
  have rest : hdrLen mem - (ptr + 1) = n := by omega
  simp [left, this, rest, List.range_succ_eq_map, Function.comp_def, Nat.add_comm,
    Nat.add_left_comm]

theorem drop_left (n : Nat) : (left mem ptr).drop n = left mem (ptr + n) := by
  apply List.ext_getElem
  · simp only [List.length_drop, length_left]
    omega
  · intro i _ _
    simp [left, Nat.add_assoc]

/-- The bytes that are left begin as they are read. -/
theorem of_left_cons {kind : UInt8} {rest : List UInt8} (cons : left mem ptr = kind :: rest) :
    ptr < hdrLen mem ∧ mem ptr = kind ∧ left mem (ptr + 1) = rest := by
  have before : ptr < hdrLen mem := by
    by_contra behind
    rw [left_nil (Nat.le_of_not_lt behind)] at cons
    cases cons
  rw [left_cons before] at cons
  obtain ⟨same, tail⟩ := List.cons.inj cons
  exact ⟨before, same, tail⟩

end Left

section Turn

variable {mem : Memory} {s : Scan}

/-- The loop is not left. -/
structure Scan.Live (s : Scan) : Prop where
  len : 0 < s.len
  drop : s.drop ≠ 0

theorem turn_none (done : s.len ≤ 0) : s.turn mem = none :=
  if_neg fun live => absurd live.1 (by omega)

theorem turn_eol (live : s.Live) (kind : s.opcode mem = tcpoptEol) :
    s.turn mem = some { s with ptr := s.ptr + 1 } := by
  simp [Scan.turn, live.len, live.drop, kind]

theorem turn_nop (live : s.Live) (kind : s.opcode mem = tcpoptNop) :
    s.turn mem = some { s with ptr := s.ptr + 1, len := s.len - 1 } := by
  simp [Scan.turn, live.len, live.drop, kind, tcpoptNop, tcpoptEol]

theorem turn_bad (live : s.Live) (sized : s.Sized mem) (bad : ¬ s.Regular mem) :
    s.turn mem = some { s with ptr := s.ptr + 2 } := by
  simp [Scan.turn, live.len, live.drop, sized.1, sized.2, bad]

theorem turn_option (live : s.Live) (sized : s.Sized mem) (regular : s.Regular mem) :
    s.turn mem = some
      { ptr := s.ptr + 2 + (s.opsize mem - 2), len := s.len - s.opsize mem
        drop := if s.opcode mem = tcpoptTimestamp ∨ s.opcode mem = tcpoptWindow then s.drop else 2
        winScale :=
          if s.opcode mem = tcpoptWindow ∧ (mem (s.ptr + 2)).toNat < 15 then
            1 <<< (mem (s.ptr + 2)).toNat
          else s.winScale } := by
  unfold Scan.turn
  rw [if_pos ⟨live.len, live.drop⟩, if_neg sized.1, if_neg sized.2, if_pos regular]

/-- An option with a good size is passed as a whole. -/
theorem turn_regular (live : s.Live) (sized : s.Sized mem) (regular : s.Regular mem) :
    ∃ t, s.turn mem = some t ∧ t.ptr = s.ptr + s.opsize mem ∧ t.len = s.len - s.opsize mem ∧
      t.drop ≠ 0 := by
  have size := regular.1
  refine ⟨_, turn_option live sized regular, ?_, rfl, ?_⟩
  · simp only
    omega
  · simp only
    split
    · exact live.drop
    · decide

theorem mem_reads_ptr : s.ptr ∈ s.reads mem := by
  unfold Scan.reads
  split
  · split <;> simp
  · simp

theorem mem_reads_size (sized : s.Sized mem) : s.ptr + 1 ∈ s.reads mem := by
  unfold Scan.reads
  rw [if_pos sized]
  split <;> simp

theorem mem_reads_shift (sized : s.Sized mem) (regular : s.Regular mem)
    (window : s.opcode mem = tcpoptWindow) : s.ptr + 2 ∈ s.reads mem := by
  unfold Scan.reads
  rw [if_pos sized, if_pos ⟨regular, window⟩]
  simp

/-- Nothing is read but the kind, the size of what has one, and the shift of a window scale. -/
theorem of_mem_reads {i : Nat} (read : i ∈ s.reads mem) :
    i = s.ptr ∨ s.Sized mem ∧
      (i = s.ptr + 1 ∨ s.Regular mem ∧ s.opcode mem = tcpoptWindow ∧ i = s.ptr + 2) := by
  unfold Scan.reads at read
  split at read
  · rename_i sized
    split at read
    · rename_i window
      simp only [List.mem_cons, List.not_mem_nil, or_false] at read
      obtain at0 | at1 | at2 := read
      · exact .inl at0
      · exact .inr ⟨sized, .inl at1⟩
      · exact .inr ⟨sized, .inr ⟨window.1, window.2, at2⟩⟩
    · simp only [List.mem_cons, List.not_mem_nil, or_false] at read
      obtain at0 | at1 := read
      · exact .inl at0
      · exact .inr ⟨sized, .inl at1⟩
  · simp only [List.mem_cons, List.not_mem_nil, or_false] at read
    exact .inl read

end Turn

/-- What is counted and what was passed agree with where the loop is. -/
structure At (mem : Memory) (s : Scan) (slack : Nat) : Prop where
  ptr : s.ptr ≤ hdrLen mem
  len : s.len = (hdrLen mem - s.ptr : Nat) + slack
  drop : s.drop ≠ 0

section Walks

variable {mem : Memory} {s t : Scan} {slack : Nat}

/-- A turn that is taken and reads only the header. -/
theorem safe_next (taken : s.turn mem = some t) (within : ∀ i ∈ s.reads mem, i < hdrLen mem)
    (rest : Loop.Safe (Scan.turn mem) (InHeader mem) t) :
    Loop.Safe (Scan.turn mem) (InHeader mem) s := .next (fun _ => within) taken rest

theorem safe_done (done : s.len ≤ 0) : Loop.Safe (Scan.turn mem) (InHeader mem) s :=
  .leave (fun taken => absurd (turn_none done) taken) (turn_none done)

/-- The reads of an option whose kind and size, and shift if it is a window scale, are there. -/
theorem reads_within {rest : List UInt8} {kind size : UInt8}
    (begins : left mem s.ptr = kind :: size :: rest)
    (shift : s.Regular mem → kind.toNat = tcpoptWindow → rest ≠ []) :
    ∀ i ∈ s.reads mem, i < hdrLen mem := by
  obtain ⟨_, same, tail⟩ := of_left_cons begins
  obtain ⟨before, _, tail⟩ := of_left_cons tail
  intro i read
  obtain rfl | ⟨_, rfl | ⟨regular, window, rfl⟩⟩ := of_mem_reads read
  · omega
  · exact before
  · have more := shift regular (by rw [← same]; exact window)
    by_contra behind
    exact more (tail.symm.trans (left_nil (Nat.le_of_not_lt behind)))

theorem reads_lone (before : s.ptr < hdrLen mem) (lone : ¬ s.Sized mem) :
    ∀ i ∈ s.reads mem, i < hdrLen mem := by
  intro i read
  obtain rfl | ⟨sized, _⟩ := of_mem_reads read
  · exact before
  · exact absurd sized lone

theorem At.live (here : At mem s slack) (before : s.ptr < hdrLen mem) : s.Live := by
  refine ⟨?_, here.drop⟩
  rw [here.len]
  omega

/-- An option with its size, when both are there. -/
theorem of_left_sized {rest : List UInt8} {kind size : UInt8}
    (begins : left mem s.ptr = kind :: size :: rest) (notEol : kind.toNat ≠ tcpoptEol)
    (notNop : kind.toNat ≠ tcpoptNop) :
    s.ptr + 1 < hdrLen mem ∧ s.Sized mem ∧ s.opsize mem = size.toNat ∧
      rest.length + 2 = hdrLen mem - s.ptr ∧ left mem (s.ptr + 2) = rest := by
  have long := length_left mem s.ptr
  simp only [begins, List.length_cons] at long
  obtain ⟨_, rfl, tail⟩ := of_left_cons begins
  obtain ⟨more, rfl, tail'⟩ := of_left_cons tail
  exact ⟨more, ⟨notEol, notNop⟩, rfl, by omega, tail'⟩

theorem Walk.safe {bytes : List UInt8} (h : Walk bytes slack) (s : Scan)
    (same : left mem s.ptr = bytes) (here : At mem s slack) :
    Loop.Safe (Scan.turn mem) (InHeader mem) s := by
  induction h generalizing s with
  | nil =>
      have none := length_left mem s.ptr
      rw [same, List.length_nil] at none
      apply safe_done
      rw [here.len]
      omega
  | eol kind _ ih =>
      obtain ⟨before, read, tail⟩ := of_left_cons same
      have opcode : s.opcode mem = tcpoptEol := by rw [← kind, ← read, Scan.opcode]
      apply safe_next (turn_eol (here.live before) opcode)
        (reads_lone before fun sized => sized.1 opcode)
      apply ih _ tail
      exact ⟨before, by have := here.len; simp only; omega, here.drop⟩
  | nop kind _ ih =>
      obtain ⟨before, read, tail⟩ := of_left_cons same
      have opcode : s.opcode mem = tcpoptNop := by rw [← kind, ← read, Scan.opcode]
      apply safe_next (turn_nop (here.live before) opcode)
        (reads_lone before fun sized => sized.2 opcode)
      apply ih _ tail
      exact ⟨before, by have := here.len; simp only; omega, here.drop⟩
  | @bad rest slack kind size notEol notNop wrong _ ih =>
      obtain ⟨before, sized, opsize, long, tail⟩ := of_left_sized same notEol notNop
      have bad : ¬ s.Regular mem := by
        have := here.len
        unfold Scan.Regular
        rw [opsize]
        omega
      apply safe_next (turn_bad (here.live (by omega)) sized bad)
        (reads_within same fun regular => absurd regular bad)
      apply ih _ tail
      exact ⟨before, by have := here.len; simp only; omega, here.drop⟩
  | @option rest slack kind size notEol notNop two fits shift _ ih =>
      obtain ⟨before, sized, opsize, long, tail⟩ := of_left_sized same notEol notNop
      have len := here.len
      have regular : s.Regular mem := by
        unfold Scan.Regular
        rw [opsize]
        omega
      obtain ⟨t, taken, ptr, less, drop⟩ := turn_regular (here.live (by omega)) sized regular
      rw [opsize] at ptr less
      apply safe_next taken (reads_within same fun _ => shift)
      apply ih t
      · rw [← tail, drop_left, ptr]
        congr 1
        omega
      · exact ⟨by omega, by omega, drop⟩
  | @last rest slack kind size notEol notNop uncounted exact_ shift =>
      obtain ⟨before, sized, opsize, long, tail⟩ := of_left_sized same notEol notNop
      have len := here.len
      have regular : s.Regular mem := by
        unfold Scan.Regular
        rw [opsize]
        omega
      obtain ⟨t, taken, ptr, less, drop⟩ := turn_regular (here.live (by omega)) sized regular
      rw [opsize] at less
      apply safe_next taken (reads_within same fun _ => shift)
      apply safe_done
      omega

theorem turn_ne_none (live : s.Live) : s.turn mem ≠ none := by
  unfold Scan.turn
  rw [if_pos ⟨live.len, live.drop⟩]
  split
  · simp
  · split
    · simp
    · split <;> simp

/-- What the loop does when it goes on is what a walk does. -/
theorem walk_of_safe (h : Loop.Safe (Scan.turn mem) (InHeader mem) s) (here : At mem s slack) :
    Walk (left mem s.ptr) slack := by
  induction h generalizing slack with
  | @leave s _ done =>
      have counted : s.len ≤ 0 := by
        by_contra more
        exact turn_ne_none ⟨by omega, here.drop⟩ done
      have len := here.len
      obtain rfl : slack = 0 := by omega
      rw [left_nil (by omega)]
      exact .nil
  | @next s t good taken rest ih =>
      have within := good (by simp [taken])
      have before := within _ mem_reads_ptr
      have live := here.live before
      have len := here.len
      by_cases eol : s.opcode mem = tcpoptEol
      · obtain rfl := Option.some.inj ((turn_eol live eol).symm.trans taken)
        rw [left_cons before]
        apply Walk.eol eol
        apply ih
        exact ⟨before, by simp only; omega, here.drop⟩
      · by_cases nop : s.opcode mem = tcpoptNop
        · obtain rfl := Option.some.inj ((turn_nop live nop).symm.trans taken)
          rw [left_cons before]
          apply Walk.nop nop
          apply ih
          exact ⟨before, by simp only; omega, here.drop⟩
        · have sized : s.Sized mem := ⟨eol, nop⟩
          have more := within _ (mem_reads_size sized)
          have long := length_left mem (s.ptr + 2)
          have opsize : s.opsize mem = (mem (s.ptr + 1)).toNat := rfl
          rw [left_cons before, left_cons more]
          by_cases regular : s.Regular mem
          · have shift : s.opcode mem = tcpoptWindow → left mem (s.ptr + 2) ≠ [] := by
              intro window
              rw [left_cons (within _ (mem_reads_shift sized regular window))]
              simp
            obtain ⟨t', taken', ptr, less, drop⟩ := turn_regular live sized regular
            obtain rfl := Option.some.inj (taken'.symm.trans taken)
            obtain ⟨two, counted⟩ := regular
            by_cases fits : s.ptr + s.opsize mem ≤ hdrLen mem
            · apply Walk.option eol nop two (by omega) shift
              have walk := @ih slack ⟨ptr ▸ fits, by omega, drop⟩
              rw [drop_left]
              convert walk using 2
              omega
            · have done : t'.len ≤ 0 := by
                by_contra going
                have behind := rest.here (turn_ne_none ⟨by omega, drop⟩) _ mem_reads_ptr
                omega
              have passed : (mem (s.ptr + 1)).toNat =
                  (left mem (s.ptr + 2)).length + 2 + slack := by omega
              exact .last eol nop (by omega) passed shift
          · obtain rfl := Option.some.inj ((turn_bad live sized regular).symm.trans taken)
            have bad : (mem (s.ptr + 1)).toNat < 2 ∨
                (left mem (s.ptr + 2)).length + 2 + slack < (mem (s.ptr + 1)).toNat := by
              unfold Scan.Regular at regular
              omega
            apply Walk.bad eol nop bad
            apply ih
            exact ⟨more, by simp only; omega, here.drop⟩

end Walks

/-- The loop over the options ends, and reads nothing behind the header, exactly when it is not
    come to, or the options can be walked. -/
theorem options_bounded_iff (mem : Memory) (tcpTotLen : Int) :
    Bounded mem tcpTotLen ↔ (hdrLen mem : Int) < tcpTotLen ∨ Walk (left mem sizeofTcphdr) 0 := by
  have begins : ¬ hdrLen mem < sizeofTcphdr →
      At mem ⟨sizeofTcphdr, (hdrLen mem : Int) - sizeofTcphdr, 1, 0⟩ 0 := by
    intro long
    exact ⟨by simp only; omega, by simp only; omega, Nat.one_ne_zero⟩
  by_cases payload : (hdrLen mem : Int) < tcpTotLen
  · simp [Bounded, start, payload]
  · simp only [Bounded, start, payload, if_false, Option.some.injEq, forall_eq', ← Loop.safe_iff,
      false_or]
    by_cases short : hdrLen mem < sizeofTcphdr
    · have none : left mem sizeofTcphdr = [] := left_nil short.le
      rw [none]
      exact ⟨fun _ => .nil, fun _ => safe_done (by simp only; omega)⟩
    · exact ⟨fun h => walk_of_safe h (begins short), fun h => h.safe _ rfl (begins short)⟩

/-- A header with four bytes of options, and zeros behind it. -/
def zeroOptions : Memory := fun i => if i = 12 then 0x60 else 0

/-- Nothing of an `EOL` is counted, and the loop goes on behind the header. -/
theorem eol_reads_on : ¬ ∀ mem tcpTotLen, Bounded mem tcpTotLen := by
  intro bounded
  have heads := (bounded zeroOptions 0 _ rfl).2
  have behind : Loop.Head (Scan.turn zeroOptions) ⟨20, 4, 1, 0⟩ ⟨24, 4, 1, 0⟩ :=
    .next (.next (.next (.next .start rfl) rfl) rfl) rfl
  exact absurd (heads _ behind (by decide) 24 (by decide)) (by decide)

/-! ## What the loop computes -/

/-- Bytes that are skipped might as well not be there. -/
theorem scanOptions_skip (bytes : List UInt8) (skip len drop winScale : Nat) :
    scanOptions bytes skip len drop winScale =
      scanOptions (bytes.drop skip) 0 len drop winScale := by
  induction skip generalizing bytes with
  | zero => rfl
  | succ skip ih =>
      cases bytes with
      | nil =>
          unfold scanOptions
          rfl
      | cons b rest =>
          rw [List.drop_succ_cons, ← ih rest]
          by_cases none : len = 0
          · unfold scanOptions
            simp [none]
          · rw [scanOptions]
            simp [none]

section Computes

variable {kind size : UInt8} {rest : List UInt8} {len drop winScale : Nat}

theorem scanOptions_eol (more : len ≠ 0) (eol : kind.toNat = tcpoptEol) :
    scanOptions (kind :: rest) 0 len drop winScale = scanOptions rest 0 len drop winScale := by
  rw [scanOptions.eq_def]
  simp [more, eol]

theorem scanOptions_nop (more : len ≠ 0) (nop : kind.toNat = tcpoptNop) :
    scanOptions (kind :: rest) 0 len drop winScale =
      scanOptions rest 0 (len - 1) drop winScale := by
  rw [scanOptions.eq_def]
  simp [more, nop, tcpoptNop, tcpoptEol]

theorem scanOptions_bad (more : len ≠ 0) (notEol : kind.toNat ≠ tcpoptEol)
    (notNop : kind.toNat ≠ tcpoptNop) (bad : size.toNat < 2 ∨ len < size.toNat) :
    scanOptions (kind :: size :: rest) 0 len drop winScale =
      scanOptions rest 0 len drop winScale := by
  rw [scanOptions.eq_def]
  simp only [if_neg more, if_neg notEol, if_neg notNop, if_pos bad]

theorem scanOptions_regular (more : len ≠ 0) (notEol : kind.toNat ≠ tcpoptEol)
    (notNop : kind.toNat ≠ tcpoptNop) (regular : ¬ (size.toNat < 2 ∨ len < size.toNat))
    {shift : UInt8} (read : kind.toNat = tcpoptWindow → rest.head? = some shift) :
    scanOptions (kind :: size :: rest) 0 len drop winScale =
      scanOptions (rest.drop (size.toNat - 2)) 0 (len - size.toNat)
        (if kind.toNat = tcpoptTimestamp ∨ kind.toNat = tcpoptWindow then drop else 2)
        (if kind.toNat = tcpoptWindow ∧ shift.toNat < 15 then 1 <<< shift.toNat
          else winScale) := by
  rw [scanOptions.eq_def, ← scanOptions_skip]
  simp only [if_neg more, if_neg notEol, if_neg notNop, if_neg regular]
  by_cases timestamp : kind.toNat = tcpoptTimestamp
  · have notWindow : kind.toNat ≠ tcpoptWindow := by
      rw [timestamp]
      decide
    rw [if_pos timestamp, if_pos (.inl timestamp), if_neg fun wrong => notWindow wrong.1]
  · by_cases window : kind.toNat = tcpoptWindow
    · obtain ⟨rest', rfl⟩ := List.head?_eq_some_iff.mp (read window)
      rw [if_neg timestamp, if_pos window]
      simp only [window, or_true, if_true, true_and]
    · rw [if_neg timestamp, if_neg window, if_neg (by simp [timestamp, window]),
        if_neg fun wrong => window wrong.1]

/-- A loop that stays in the header computes what the filter takes from it. -/
theorem scanOptions_of_safe {mem : Memory} {s : Scan}
    (h : Loop.Safe (Scan.turn mem) (InHeader mem) s) (dropped : s.drop ≠ 0) :
    ∃ t, Loop.Exits (Scan.turn mem) s t ∧
      scanOptions (left mem s.ptr) 0 s.len.toNat s.drop s.winScale = some (t.drop, t.winScale) := by
  induction h with
  | @leave s _ done =>
      have counted : s.len ≤ 0 := by
        by_contra more
        exact turn_ne_none ⟨by omega, dropped⟩ done
      refine ⟨s, .leave done, ?_⟩
      unfold scanOptions
      rw [if_pos (by omega)]
  | @next s t good taken _ ih =>
      have within := good (by simp [taken])
      have before := within _ mem_reads_ptr
      have live : s.Live := by
        refine ⟨?_, dropped⟩
        by_contra done
        cases (turn_none (by omega)).symm.trans taken
      have more : s.len.toNat ≠ 0 := by
        have := live.len
        omega
      by_cases eol : s.opcode mem = tcpoptEol
      · obtain rfl := Option.some.inj ((turn_eol live eol).symm.trans taken)
        obtain ⟨u, exits, scanned⟩ := ih dropped
        refine ⟨u, .next taken exits, ?_⟩
        rw [left_cons before, scanOptions_eol more eol]
        exact scanned
      · by_cases nop : s.opcode mem = tcpoptNop
        · obtain rfl := Option.some.inj ((turn_nop live nop).symm.trans taken)
          obtain ⟨u, exits, scanned⟩ := ih dropped
          refine ⟨u, .next taken exits, ?_⟩
          have count : s.len.toNat - 1 = (s.len - 1).toNat := by omega
          rw [left_cons before, scanOptions_nop more nop, count]
          exact scanned
        · have sized : s.Sized mem := ⟨eol, nop⟩
          rw [left_cons before, left_cons (within _ (mem_reads_size sized))]
          by_cases regular : s.Regular mem
          · have shift : s.opcode mem = tcpoptWindow →
                (left mem (s.ptr + 2)).head? = some (mem (s.ptr + 2)) := by
              intro window
              rw [left_cons (within _ (mem_reads_shift sized regular window)), List.head?_cons]
            obtain ⟨two, counted⟩ := id regular
            have fits : ¬ ((mem (s.ptr + 1)).toNat < 2 ∨ s.len.toNat < (mem (s.ptr + 1)).toNat) := by
              unfold Scan.opsize at two counted
              omega
            obtain ⟨t', taken', _, _, kept⟩ := turn_regular live sized regular
            obtain rfl := Option.some.inj (taken'.symm.trans taken)
            obtain ⟨u, exits, scanned⟩ := ih kept
            refine ⟨u, .next taken exits, ?_⟩
            obtain rfl := Option.some.inj ((turn_option live sized regular).symm.trans taken)
            have count : s.len.toNat - (mem (s.ptr + 1)).toNat =
                (s.len - (mem (s.ptr + 1)).toNat).toNat := by omega
            rw [scanOptions_regular more eol nop fits shift, drop_left, count]
            exact scanned
          · obtain rfl := Option.some.inj ((turn_bad live sized regular).symm.trans taken)
            obtain ⟨u, exits, scanned⟩ := ih dropped
            have bad : (mem (s.ptr + 1)).toNat < 2 ∨ s.len.toNat < (mem (s.ptr + 1)).toNat := by
              unfold Scan.Regular Scan.opsize at regular
              omega
            refine ⟨u, .next taken exits, ?_⟩
            rw [scanOptions_bad more eol nop bad]
            exact scanned

end Computes

end Aic8800.TcpAck.Options
