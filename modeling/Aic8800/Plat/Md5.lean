import Aic8800.Lib.Blocks
import Aic8800.Lib.Cells
import Mathlib

/-! # The digest of a file of firmware

`md5.c`, which the driver and the loader both have, takes a file in pieces and keeps what fills no
block. What it gives is compared with the digest of the whole file as the algorithm has it: the
file is padded and cut in blocks, and each block goes through a loop of 64 steps.
-/

namespace Aic8800.Plat.Md5

open Lib

abbrev Bytes := List UInt8

/-- `a`, `b`, `c` and `d` -/
abbrev Reg := Fin 4

/-- `unsigned int state[4]` -/
abbrev Words := Reg → UInt32

/-- `MD5_CTX` -/
structure Ctx where
  count0 : UInt32
  count1 : UInt32
  state : Words
  buffer : Bytes

/-! ## The source -/

def F (x y z : UInt32) : UInt32 := (x &&& y) ||| (~~~x &&& z)

def G (x y z : UInt32) : UInt32 := (x &&& z) ||| (y &&& ~~~z)

def H (x y z : UInt32) : UInt32 := x ^^^ y ^^^ z

def I (x y z : UInt32) : UInt32 := y ^^^ (x ||| ~~~z)

/-- `ROTATE_LEFT` -/
def rotateLeft (x n : UInt32) : UInt32 := (x <<< n) ||| (x >>> (32 - n))

/-- Which of the four a line of `MD5Transform` has -/
inductive Round where
  | F
  | G
  | H
  | I
  deriving DecidableEq

def Round.eval : Round → UInt32 → UInt32 → UInt32 → UInt32
  | F => Md5.F
  | G => Md5.G
  | H => Md5.H
  | I => Md5.I

/-- A line of `MD5Transform`, with the words that it names and the place in the block -/
structure Line where
  round : Round
  a : Reg
  b : Reg
  c : Reg
  d : Reg
  x : Nat
  s : UInt32
  ac : UInt32
  deriving DecidableEq

/-- What the line does: all four are assigned to the first. -/
def Line.exec (x : Nat → UInt32) (w : Words) (l : Line) : Words :=
  let a := w l.a + (l.round.eval (w l.b) (w l.c) (w l.d) + x l.x + l.ac)
  let a := rotateLeft a l.s
  Function.update w l.a (a + w l.b)

def FF := Line.mk .F

def GG := Line.mk .G

def HH := Line.mk .H

def II := Line.mk .I

/-- The lines of `MD5Transform` -/
def lines : List Line :=
  let a : Reg := 0
  let b : Reg := 1
  let c : Reg := 2
  let d : Reg := 3
  [FF a b c d 0 7 0xd76aa478, FF d a b c 1 12 0xe8c7b756,
   FF c d a b 2 17 0x242070db, FF b c d a 3 22 0xc1bdceee,
   FF a b c d 4 7 0xf57c0faf, FF d a b c 5 12 0x4787c62a,
   FF c d a b 6 17 0xa8304613, FF b c d a 7 22 0xfd469501,
   FF a b c d 8 7 0x698098d8, FF d a b c 9 12 0x8b44f7af,
   FF c d a b 10 17 0xffff5bb1, FF b c d a 11 22 0x895cd7be,
   FF a b c d 12 7 0x6b901122, FF d a b c 13 12 0xfd987193,
   FF c d a b 14 17 0xa679438e, FF b c d a 15 22 0x49b40821,
   GG a b c d 1 5 0xf61e2562, GG d a b c 6 9 0xc040b340,
   GG c d a b 11 14 0x265e5a51, GG b c d a 0 20 0xe9b6c7aa,
   GG a b c d 5 5 0xd62f105d, GG d a b c 10 9 0x2441453,
   GG c d a b 15 14 0xd8a1e681, GG b c d a 4 20 0xe7d3fbc8,
   GG a b c d 9 5 0x21e1cde6, GG d a b c 14 9 0xc33707d6,
   GG c d a b 3 14 0xf4d50d87, GG b c d a 8 20 0x455a14ed,
   GG a b c d 13 5 0xa9e3e905, GG d a b c 2 9 0xfcefa3f8,
   GG c d a b 7 14 0x676f02d9, GG b c d a 12 20 0x8d2a4c8a,
   HH a b c d 5 4 0xfffa3942, HH d a b c 8 11 0x8771f681,
   HH c d a b 11 16 0x6d9d6122, HH b c d a 14 23 0xfde5380c,
   HH a b c d 1 4 0xa4beea44, HH d a b c 4 11 0x4bdecfa9,
   HH c d a b 7 16 0xf6bb4b60, HH b c d a 10 23 0xbebfbc70,
   HH a b c d 13 4 0x289b7ec6, HH d a b c 0 11 0xeaa127fa,
   HH c d a b 3 16 0xd4ef3085, HH b c d a 6 23 0x4881d05,
   HH a b c d 9 4 0xd9d4d039, HH d a b c 12 11 0xe6db99e5,
   HH c d a b 15 16 0x1fa27cf8, HH b c d a 2 23 0xc4ac5665,
   II a b c d 0 6 0xf4292244, II d a b c 7 10 0x432aff97,
   II c d a b 14 15 0xab9423a7, II b c d a 5 21 0xfc93a039,
   II a b c d 12 6 0x655b59c3, II d a b c 3 10 0x8f0ccc92,
   II c d a b 10 15 0xffeff47d, II b c d a 1 21 0x85845dd1,
   II a b c d 8 6 0x6fa87e4f, II d a b c 15 10 0xfe2ce6e0,
   II c d a b 6 15 0xa3014314, II b c d a 13 21 0x4e0811a1,
   II a b c d 4 6 0xf7537e82, II d a b c 11 10 0xbd3af235,
   II c d a b 2 15 0x2ad7d2bb, II b c d a 9 21 0xeb86d391]

/-- `MD5Encode` -/
def md5Encode (input : List UInt32) : Bytes :=
  input.flatMap fun (w : UInt32) => [(w &&& 0xFF).toUInt8, ((w >>> 8) &&& 0xFF).toUInt8,
    ((w >>> 16) &&& 0xFF).toUInt8, ((w >>> 24) &&& 0xFF).toUInt8]

/-- `MD5Decode` -/
def md5Decode : Bytes → List UInt32
  | b0 :: b1 :: b2 :: b3 :: rest =>
      (b0.toUInt32 ||| (b1.toUInt32 <<< 8) ||| (b2.toUInt32 <<< 16) ||| (b3.toUInt32 <<< 24)) ::
        md5Decode rest
  | _ => []

/-- `x[i]` -/
def wordAt (block : Bytes) (i : Nat) : UInt32 := (md5Decode block).getD i 0

/-- `MD5Transform` -/
def md5Transform (state : Words) (block : Bytes) : Words :=
  state + lines.foldl (Line.exec (wordAt block)) state

/-- `MD5Init`. The buffer is on the stack, and holds what was there. -/
def md5Init (buffer : Bytes) : Ctx where
  count0 := 0
  count1 := 0
  state := ![0x67452301, 0xEFCDAB89, 0x98BADCFE, 0x10325476]
  buffer := buffer

/-- `&input[i]`, of which this many bytes are read -/
def read (input : Bytes) (i n : UInt32) : Option Bytes :=
  if i.toNat + n.toNat ≤ input.length then some ((input.drop i.toNat).take n.toNat) else none

/-- The loop over the blocks of the input. Where `i + 64` wraps around, it may not come to an
    end. -/
def transformAll (input : Bytes) (inputlen : UInt32) :
    Nat → UInt32 → Words → Option (UInt32 × Words)
  | 0, _, _ => none
  | fuel + 1, i, state =>
      if i + 64 ≤ inputlen then do
        let block ← read input i 64
        transformAll input inputlen fuel (i + 64) (md5Transform state block)
      else some (i, state)

/-- `MD5Update` -/
def md5Update (context : Ctx) (input : Bytes) (inputlen : UInt32) : Option Ctx := do
  let index := (context.count0 >>> 3) &&& 0x3F
  let partlen := 64 - index
  let count0 := context.count0 + (inputlen <<< 3)
  let count1 := if count0 < inputlen <<< 3 then context.count1 + 1 else context.count1
  let count1 := count1 + (inputlen >>> 29)
  if inputlen ≥ partlen then
    let buffer ← Cells.copyAt index.toNat (← read input 0 partlen) context.buffer
    let state := md5Transform context.state buffer
    let (i, state) ← transformAll input inputlen (inputlen.toNat / 64 + 1) partlen state
    let buffer ← Cells.copyAt 0 (← read input i (inputlen - i)) buffer
    some ⟨count0, count1, state, buffer⟩
  else
    let buffer ← Cells.copyAt index.toNat (← read input 0 inputlen) context.buffer
    some ⟨count0, count1, context.state, buffer⟩

/-- `PADDING` -/
def padding : Bytes := 0x80 :: List.replicate 63 0

/-- `MD5Final` -/
def md5Final (context : Ctx) : Option Bytes := do
  let index := (context.count0 >>> 3) &&& 0x3F
  let padlen := if index < 56 then 56 - index else 120 - index
  let bits := md5Encode [context.count0, context.count1]
  let context ← md5Update context padding padlen
  let context ← md5Update context bits 8
  some (md5Encode (List.ofFn context.state))

/-! ## The algorithm -/

/-- The constants of the 64 steps -/
def sines : List UInt32 :=
  [0xd76aa478, 0xe8c7b756, 0x242070db, 0xc1bdceee, 0xf57c0faf, 0x4787c62a,
   0xa8304613, 0xfd469501, 0x698098d8, 0x8b44f7af, 0xffff5bb1, 0x895cd7be,
   0x6b901122, 0xfd987193, 0xa679438e, 0x49b40821, 0xf61e2562, 0xc040b340,
   0x265e5a51, 0xe9b6c7aa, 0xd62f105d, 0x2441453, 0xd8a1e681, 0xe7d3fbc8,
   0x21e1cde6, 0xc33707d6, 0xf4d50d87, 0x455a14ed, 0xa9e3e905, 0xfcefa3f8,
   0x676f02d9, 0x8d2a4c8a, 0xfffa3942, 0x8771f681, 0x6d9d6122, 0xfde5380c,
   0xa4beea44, 0x4bdecfa9, 0xf6bb4b60, 0xbebfbc70, 0x289b7ec6, 0xeaa127fa,
   0xd4ef3085, 0x4881d05, 0xd9d4d039, 0xe6db99e5, 0x1fa27cf8, 0xc4ac5665,
   0xf4292244, 0x432aff97, 0xab9423a7, 0xfc93a039, 0x655b59c3, 0x8f0ccc92,
   0xffeff47d, 0x85845dd1, 0x6fa87e4f, 0xfe2ce6e0, 0xa3014314, 0x4e0811a1,
   0xf7537e82, 0xbd3af235, 0x2ad7d2bb, 0xeb86d391]

/-- The steps come in four rounds. -/
def roundOf (i : Nat) : Round :=
  match i / 16 with
  | 0 => .F
  | 1 => .G
  | 2 => .H
  | _ => .I

/-- Which word of the block a step takes -/
def wordOf (i : Nat) : Nat :=
  match roundOf i with
  | .F => i
  | .G => (5 * i + 1) % 16
  | .H => (3 * i + 5) % 16
  | .I => 7 * i % 16

/-- By how much a step rotates -/
def shiftOf (i : Nat) : UInt32 :=
  match roundOf i with
  | .F => [7, 12, 17, 22].getD (i % 4) 0
  | .G => [5, 9, 14, 20].getD (i % 4) 0
  | .H => [4, 11, 16, 23].getD (i % 4) 0
  | .I => [6, 10, 15, 21].getD (i % 4) 0

/-- One step, after which the words change places -/
def step (x : Nat → UInt32) (w : Words) (i : Nat) : Words :=
  ![w 3, w 1 + rotateLeft (w 0 + (roundOf i).eval (w 1) (w 2) (w 3) + x (wordOf i)
    + sines.getD i 0) (shiftOf i), w 1, w 2]

/-- A block goes into the state. -/
def compress (w : Words) (block : Bytes) : Words :=
  w + (List.range 64).foldl (step (wordAt block)) w

/-- The number in this many bytes, the lowest first -/
def littleEndian (n value : Nat) : Bytes :=
  (List.range n).map fun i => UInt8.ofNat (value / 256 ^ i)

/-- A one, zeros up to eight bytes before the end of a block, and how many bits there are -/
def pad (message : Bytes) : Bytes :=
  message ++ 0x80 :: List.replicate ((119 - message.length % 64) % 64) 0 ++
    littleEndian 8 (8 * message.length)

/-- The digest of a whole message -/
def digest (message : Bytes) : Bytes :=
  (List.ofFn (Blocks.absorb 64 compress ![0x67452301, 0xEFCDAB89, 0x98BADCFE, 0x10325476]
    (pad message)).1).flatMap fun w => littleEndian 4 w.toNat

/-! ## The lines are the steps -/

/-- The line of a step names the words where they are after the steps before it. -/
def lineOf (i : Nat) : Line where
  round := roundOf i
  a := 0 - Fin.ofNat 4 i
  b := 1 - Fin.ofNat 4 i
  c := 2 - Fin.ofNat 4 i
  d := 3 - Fin.ofNat 4 i
  x := wordOf i
  s := shiftOf i
  ac := sines.getD i 0

theorem lines_eq : lines = (List.range 64).map lineOf := by decide

theorem ofNat_succ (i : Nat) : Fin.ofNat 4 (i + 1) = Fin.ofNat 4 i + 1 := by
  ext
  simp [Fin.val_add]

/-- A line writes where the step, in whose words everything is one place further, has `b`. -/
theorem exec_lineOf (x : Nat → UInt32) (r : Words) (i : Nat) (k : Reg) :
    (lineOf i).exec x r (k - Fin.ofNat 4 (i + 1)) = step x (fun k => r (k - Fin.ofNat 4 i)) i k := by
  rw [ofNat_succ]
  simp only [Line.exec, lineOf, step]
  generalize Fin.ofNat 4 i = j
  have sum : ∀ a e u v : UInt32, a + (e + u + v) = a + e + u + v := by
    intro a e u v
    rw [UInt32.add_assoc a, UInt32.add_assoc a]
  match k with
  | 0 | 2 | 3 =>
      rw [Function.update_of_ne (by revert j; decide)]
      exact congrArg r (by revert j; decide)
  | 1 =>
      rw [show (1 : Reg) - (j + 1) = 0 - j by revert j; decide, Function.update_self, sum,
        UInt32.add_comm]
      rfl

theorem foldl_exec (x : Nat → UInt32) (w : Words) (n : Nat) (k : Reg) :
    ((List.range n).map lineOf).foldl (Line.exec x) w (k - Fin.ofNat 4 n) =
      (List.range n).foldl (step x) w k := by
  induction n generalizing k with
  | zero => simp
  | succ n ih =>
      rw [List.range_succ, List.map_append, List.foldl_append, List.foldl_append]
      exact (exec_lineOf x _ n k).trans (congrArg (step x · n k) (funext ih))

theorem md5Transform_eq : md5Transform = compress := by
  funext w block k
  have h := foldl_exec (wordAt block) w 64 k
  rw [← lines_eq, show Fin.ofNat 4 64 = 0 from rfl, sub_zero] at h
  exact congrArg (w k + ·) h

/-! ## Pieces -/

/-- The first state -/
abbrev start : Words := ![0x67452301, 0xEFCDAB89, 0x98BADCFE, 0x10325476]

/-- The context has taken this message. -/
structure Taken (context : Ctx) (message : Bytes) : Prop where
  count : context.count0.toNat + 2 ^ 32 * context.count1.toNat = 8 * message.length % 2 ^ 64
  state : context.state = (Blocks.absorb 64 compress start message).1
  size : context.buffer.length = 64
  kept : (Blocks.absorb 64 compress start message).2 <+: context.buffer

theorem read_eq {input : Bytes} {i n : UInt32} (inside : i.toNat + n.toNat ≤ input.length) :
    read input i n = some ((input.drop i.toNat).take n.toNat) := if_pos inside

/-- The loop takes the blocks that are left of the input, and stops behind them. -/
theorem transformAll_eq {input : Bytes} {n : UInt32} (inside : n.toNat ≤ input.length)
    (small : n.toNat + 64 < 2 ^ 32) (fuel : Nat) (i : UInt32) (state : Words)
    (le : i.toNat ≤ n.toNat) (enough : n.toNat - i.toNat < 64 * fuel) :
    ∃ j : UInt32, i.toNat ≤ j.toNat ∧ j.toNat ≤ n.toNat ∧
      transformAll input n fuel i state = some (j, (Blocks.absorb 64 compress state
        ((input.take n.toNat).drop i.toNat)).1) ∧
      (Blocks.absorb 64 compress state ((input.take n.toNat).drop i.toNat)).2 =
        (input.take n.toNat).drop j.toNat := by
  induction fuel generalizing i state with
  | zero => omega
  | succ fuel ih =>
      have block : (64 : UInt32).toNat = 64 := rfl
      have length : ((input.take n.toNat).drop i.toNat).length = n.toNat - i.toNat := by
        rw [List.length_drop, List.length_take, Nat.min_eq_left inside]
      have next : (i + 64).toNat = i.toNat + 64 := by
        rw [UInt32.toNat_add, block]
        omega
      rw [transformAll]
      split
      · rename_i more
        rw [UInt32.le_iff_toNat_le, next] at more
        obtain ⟨j, below, above, run, left⟩ := ih (i + 64) (md5Transform state
          ((input.drop i.toNat).take 64)) (by omega) (by omega)
        have first : ((input.take n.toNat).drop i.toNat).take 64 = (input.drop i.toNat).take 64 := by
          rw [List.drop_take, List.take_take, Nat.min_eq_left (by omega)]
        have rest : ((input.take n.toNat).drop i.toNat).drop 64 =
            (input.take n.toNat).drop (i + 64).toNat := by rw [List.drop_drop, next]
        rw [Blocks.absorb_block (by decide) (by omega), first, rest, ← md5Transform_eq]
        rw [← md5Transform_eq] at run left
        refine ⟨j, by omega, above, ?_, left⟩
        rw [read_eq (by omega)]
        exact run
      · rename_i done
        rw [UInt32.le_iff_toNat_le, next] at done
        rw [Blocks.absorb_short (by omega)]
        exact ⟨i, Nat.le_refl _, le, rfl, rfl⟩

theorem index_eq {context : Ctx} {message : Bytes} (taken : Taken context message) :
    ((context.count0 >>> 3) &&& 0x3F).toNat = message.length % 64 := by
  have count := taken.count
  have low : (0x3F : UInt32).toNat = 2 ^ 6 - 1 := rfl
  have three : (3 : UInt32).toNat % 32 = 3 := rfl
  rw [UInt32.toNat_and, UInt32.toNat_shiftRight, low, Nat.and_two_pow_sub_one_eq_mod, three,
    Nat.shiftRight_eq_div_pow]
  omega

theorem count_eq {c0 c1 n : UInt32} {bits : Nat}
    (count : c0.toNat + 2 ^ 32 * c1.toNat = bits % 2 ^ 64) :
    let low := c0 + (n <<< 3)
    let high := (if low < n <<< 3 then c1 + 1 else c1) + (n >>> 29)
    low.toNat + 2 ^ 32 * high.toNat = (bits + 8 * n.toNat) % 2 ^ 64 := by
  have n_lt := n.toNat_lt
  have c0_lt := c0.toNat_lt
  have c1_lt := c1.toNat_lt
  have shl : (n <<< 3).toNat = 8 * n.toNat % 2 ^ 32 := by
    rw [UInt32.toNat_shiftLeft, show (3 : UInt32).toNat % 32 = 3 from rfl, Nat.shiftLeft_eq,
      Nat.mul_comm]
  have shr : (n >>> 29).toNat = n.toNat / 2 ^ 29 := by
    rw [UInt32.toNat_shiftRight, show (29 : UInt32).toNat % 32 = 29 from rfl,
      Nat.shiftRight_eq_div_pow]
  have one : (1 : UInt32).toNat = 1 := rfl
  intro low high
  have low_eq : low.toNat = (c0.toNat + 8 * n.toNat % 2 ^ 32) % 2 ^ 32 := by
    rw [UInt32.toNat_add, shl]
  have carry : low < n <<< 3 ↔ low.toNat < 8 * n.toNat % 2 ^ 32 := by
    rw [UInt32.lt_iff_toNat_lt, shl]
  have high_eq : high.toNat =
      (c1.toNat + (if low < n <<< 3 then 1 else 0) + n.toNat / 2 ^ 29) % 2 ^ 32 := by
    simp only [high]
    split
    · rw [UInt32.toNat_add, UInt32.toNat_add, shr, one]
      omega
    · rw [UInt32.toNat_add, shr, Nat.add_zero]
  rw [high_eq]
  split
  · rename_i c
    rw [carry] at c
    omega
  · rename_i c
    rw [carry] at c
    omega

/-- A piece that comes behind what the buffer has -/
theorem md5Update_eq {context : Ctx} {k input : Bytes} {n : UInt32}
    (index : ((context.count0 >>> 3) &&& 0x3F).toNat = k.length) (below : k.length < 64)
    (size : context.buffer.length = 64) (kept : k <+: context.buffer)
    (inside : n.toNat ≤ input.length) (small : n.toNat + 64 < 2 ^ 32) :
    ∃ buffer, buffer.length = 64 ∧
      (Blocks.absorb 64 compress context.state (k ++ input.take n.toNat)).2 <+: buffer ∧
      md5Update context input n = some
        ⟨context.count0 + (n <<< 3),
          (if context.count0 + (n <<< 3) < n <<< 3 then context.count1 + 1 else context.count1)
            + (n >>> 29),
          (Blocks.absorb 64 compress context.state (k ++ input.take n.toNat)).1, buffer⟩ := by
  obtain ⟨r, buffer_eq⟩ := kept
  have room : k.length + r.length = 64 := by rw [← List.length_append, buffer_eq, size]
  have piece : (input.take n.toNat).length = n.toNat := by
    rw [List.length_take, Nat.min_eq_left inside]
  have left := Blocks.length_absorb_snd (f := compress) (n := 64) context.state
    (k ++ input.take n.toNat)
  have partlen : ((64 : UInt32) - ((context.count0 >>> 3) &&& 0x3F)).toNat = 64 - k.length := by
    rw [UInt32.toNat_sub_of_le _ _ (by rw [UInt32.le_iff_toNat_le, index]; exact below.le), index]
    rfl
  unfold md5Update
  simp only
  split
  · rename_i full
    rw [ge_iff_le, UInt32.le_iff_toNat_le, partlen] at full
    generalize (64 : UInt32) - ((context.count0 >>> 3) &&& 0x3F) = p at *
    have first : (input.take p.toNat).length = p.toNat := by
      rw [List.length_take, Nat.min_eq_left (by omega)]
    have block : (k ++ input.take n.toNat).take 64 = k ++ input.take p.toNat := by
      rw [List.take_append, List.take_of_length_le below.le, List.take_take, ← partlen,
        Nat.min_eq_left (by omega)]
    have rest : (k ++ input.take n.toNat).drop 64 = (input.take n.toNat).drop p.toNat := by
      rw [List.drop_append, List.drop_eq_nil_of_le below.le, ← partlen, List.nil_append]
    rw [Blocks.absorb_block (by decide) (by rw [List.length_append]; omega), rest, block] at left ⊢
    obtain ⟨j, _, above, run, tail⟩ := transformAll_eq inside small (n.toNat / 64 + 1) p
      (compress context.state (k ++ input.take p.toNat)) (by omega) (by omega)
    have final : read input j (n - j) = some ((input.take n.toNat).drop j.toNat) := by
      have diff : (n - j).toNat = n.toNat - j.toNat :=
        UInt32.toNat_sub_of_le _ _ (by rwa [UInt32.le_iff_toNat_le])
      rw [read_eq (by omega), diff, List.drop_take]
    have copied : Cells.copyAt k.length (input.take p.toNat) context.buffer =
        some (k ++ input.take p.toNat) := by
      rw [← buffer_eq, Cells.copyAt_append rfl (by omega), List.drop_eq_nil_of_le (by omega),
        List.append_nil]
    have length : (k ++ input.take p.toNat).length = 64 := by
      rw [List.length_append, first]
      omega
    have fits := Nat.mod_lt (k ++ input.take n.toNat).length (by decide : 0 < 64)
    rw [tail] at left ⊢
    refine ⟨_, ?_, List.prefix_append _ ((k ++ input.take p.toNat).drop
      ((input.take n.toNat).drop j.toNat).length), ?_⟩
    · rw [List.length_append, List.length_drop (l := k ++ input.take p.toNat), length]
      omega
    · rw [read_eq (by rw [UInt32.toNat_zero]; omega), UInt32.toNat_zero, List.drop_zero]
      simp only [Option.bind_eq_bind, Option.bind_some, index, copied, md5Transform_eq, run, final]
      rw [Cells.copyAt_zero (by omega)]
      rfl
  · rename_i short
    rw [ge_iff_le, UInt32.le_iff_toNat_le, partlen, not_le] at short
    rw [Blocks.absorb_short (by rw [List.length_append]; omega)]
    refine ⟨_, ?_, List.prefix_append _ (r.drop n.toNat), ?_⟩
    · rw [List.length_append, List.length_append, List.length_drop]
      omega
    · rw [read_eq (by rw [UInt32.toNat_zero]; omega), UInt32.toNat_zero, List.drop_zero]
      simp only [Option.bind_eq_bind, Option.bind_some, index]
      rw [← buffer_eq, Cells.copyAt_append rfl (by omega), piece]
      rfl

/-- A piece is taken. -/
theorem md5Update_taken {context : Ctx} {message input : Bytes} {n : UInt32}
    (taken : Taken context message) (inside : n.toNat ≤ input.length)
    (small : n.toNat + 64 < 2 ^ 32) :
    ∃ context', md5Update context input n = some context' ∧
      Taken context' (message ++ input.take n.toNat) := by
  have kept := Blocks.length_absorb_snd (f := compress) (n := 64) start message
  have index := (index_eq taken).trans kept.symm
  have below : (Blocks.absorb 64 compress start message).2.length < 64 := by
    rw [kept]
    exact Nat.mod_lt _ (by decide)
  have bits : 8 * message.length + 8 * n.toNat = 8 * (message ++ input.take n.toNat).length := by
    rw [List.length_append, List.length_take, Nat.min_eq_left inside, Nat.mul_add]
  have count := count_eq (n := n) taken.count
  rw [bits] at count
  have sum := Blocks.absorb_append (f := compress) (n := 64) (by decide) start message
    (input.take n.toNat)
  obtain ⟨buffer, size, front, run⟩ := md5Update_eq index below taken.size taken.kept inside small
  rw [taken.state, ← sum] at run front
  exact ⟨_, run, count, rfl, size, front⟩

/-! ## The end of a message -/

theorem md5Encode_singleton (w : UInt32) : md5Encode [w] = littleEndian 4 w.toNat := by
  have byte : ∀ s : UInt32, s.toNat < 32 →
      ((w >>> s) &&& 0xFF).toUInt8 = UInt8.ofNat (w.toNat / 2 ^ s.toNat) := by
    intro s small
    have low : (0xFF : UInt32).toNat = 2 ^ 8 - 1 := rfl
    apply UInt8.toNat_inj.mp
    rw [UInt32.toNat_toUInt8, UInt32.toNat_and, UInt32.toNat_shiftRight, low,
      Nat.and_two_pow_sub_one_eq_mod, Nat.mod_mod, Nat.shiftRight_eq_div_pow,
      Nat.mod_eq_of_lt small, UInt8.toNat_ofNat']
  have zero : (w &&& 0xFF).toUInt8 = UInt8.ofNat (w.toNat / 2 ^ 0) := by
    have shift := byte 0 (by decide)
    rwa [UInt32.shiftRight_zero] at shift
  exact congr_arg₂ (· :: ·) zero (congr_arg₂ (· :: ·) (byte 8 (by decide))
    (congr_arg₂ (· :: ·) (byte 16 (by decide)) (congrArg ([·]) (byte 24 (by decide)))))

theorem md5Encode_eq (ws : List UInt32) :
    md5Encode ws = ws.flatMap fun w => littleEndian 4 w.toNat := by
  induction ws with
  | nil => rfl
  | cons w ws ih => rw [List.flatMap_cons, ← ih, ← md5Encode_singleton]; rfl

/-- The number of the bits as the two words have it -/
theorem md5Encode_count {low high : UInt32} {bits : Nat}
    (count : low.toNat + 2 ^ 32 * high.toNat = bits % 2 ^ 64) :
    md5Encode [low, high] = littleEndian 8 bits := by
  have low_lt := low.toNat_lt
  have low_eq : low.toNat = bits % 2 ^ 32 := by omega
  have high_eq : high.toNat = bits / 2 ^ 32 % 2 ^ 32 := by omega
  have byte : ∀ n i : Nat, i < 4 →
      UInt8.ofNat (n % 2 ^ 32 / 256 ^ i) = UInt8.ofNat (n / 256 ^ i) := by
    intro n i small
    apply UInt8.toNat_inj.mp
    rw [UInt8.toNat_ofNat', UInt8.toNat_ofNat']
    match i with
    | 0 | 1 | 2 | 3 => omega
  have words : littleEndian 8 bits = littleEndian 4 bits ++ littleEndian 4 (bits / 2 ^ 32) := by
    have split : ∀ i,
        UInt8.ofNat (bits / 256 ^ (4 + i)) = UInt8.ofNat (bits / 2 ^ 32 / 256 ^ i) := by
      intro i
      rw [Nat.div_div_eq_div_mul, Nat.pow_add]
      rfl
    rw [littleEndian, show 8 = 4 + 4 from rfl, List.range_add, List.map_append, List.map_map]
    exact congrArg _ (List.map_congr_left fun i _ => split i)
  have cut : ∀ n, littleEndian 4 (n % 2 ^ 32) = littleEndian 4 n := fun n =>
    List.map_congr_left fun i member => byte n i (List.mem_range.mp member)
  rw [md5Encode_eq, List.flatMap_cons, List.flatMap_singleton, low_eq, high_eq, cut, cut, words]

/-- How much padding there is, its first byte counted -/
def padLength (length : Nat) : Nat := (119 - length % 64) % 64 + 1

theorem take_padding (length : Nat) :
    padding.take (padLength length) = 0x80 :: List.replicate ((119 - length % 64) % 64) 0 := by
  have small : (119 - length % 64) % 64 ≤ 63 := by omega
  rw [padding, padLength, List.take_succ_cons, List.take_replicate, Nat.min_eq_left small]

theorem padlen_eq {context : Ctx} {message : Bytes} (taken : Taken context message) :
    let index := (context.count0 >>> 3) &&& 0x3F
    (if index < 56 then 56 - index else 120 - index).toNat = padLength message.length := by
  have index := index_eq taken
  intro i
  change i.toNat = _ at index
  have below : message.length % 64 < 64 := Nat.mod_lt _ (by decide)
  have low : (56 : UInt32).toNat = 56 := rfl
  have high : (120 : UInt32).toNat = 120 := rfl
  unfold padLength
  split
  · rename_i less
    rw [UInt32.lt_iff_toNat_lt, index, low] at less
    rw [UInt32.toNat_sub_of_le _ _ (by rw [UInt32.le_iff_toNat_le]; omega), index, low]
    omega
  · rename_i more
    rw [UInt32.lt_iff_toNat_lt, index, low] at more
    rw [UInt32.toNat_sub_of_le _ _ (by rw [UInt32.le_iff_toNat_le]; omega), index, high]
    omega

theorem md5Final_eq {context : Ctx} {message : Bytes} (taken : Taken context message) :
    md5Final context = some (digest message) := by
  have padlen := padlen_eq taken
  have few : padLength message.length ≤ 64 := Nat.succ_le_of_lt (Nat.mod_lt _ (by decide))
  have bits := md5Encode_count taken.count
  have whole : (littleEndian 8 (8 * message.length)).take (8 : UInt32).toNat
      = littleEndian 8 (8 * message.length) := List.take_of_length_le (le_of_eq rfl)
  unfold md5Final
  simp only at padlen ⊢
  generalize (if (context.count0 >>> 3) &&& 0x3F < 56 then
    (56 : UInt32) - ((context.count0 >>> 3) &&& 0x3F)
    else (120 : UInt32) - ((context.count0 >>> 3) &&& 0x3F)) = n at padlen ⊢
  obtain ⟨padded, run, taken'⟩ := md5Update_taken taken
    (show n.toNat ≤ padding.length by rw [padlen]; exact few) (by omega)
  rw [padlen, take_padding] at taken'
  obtain ⟨last, run', taken''⟩ := md5Update_taken taken'
    (show (8 : UInt32).toNat ≤ (littleEndian 8 (8 * message.length)).length from le_of_eq rfl)
    (by decide)
  rw [whole] at taken''
  simp only [Option.bind_eq_bind, run, Option.bind_some, bits, run', md5Encode_eq, taken''.state]
  rfl

theorem taken_init {buffer : Bytes} (size : buffer.length = 64) : Taken (md5Init buffer) [] where
  count := rfl
  state := rfl
  size := size
  kept := List.nil_prefix

/-- The pieces of a file, each given with its length -/
def md5Updates (context : Ctx) (pieces : List Bytes) : Option Ctx :=
  pieces.foldlM (fun context piece => md5Update context piece (UInt32.ofNat piece.length)) context

theorem md5Updates_taken {context : Ctx} {message : Bytes} {pieces : List Bytes}
    (taken : Taken context message) (small : ∀ p ∈ pieces, p.length + 64 < 2 ^ 32) :
    ∃ context', md5Updates context pieces = some context' ∧
      Taken context' (message ++ pieces.flatten) := by
  induction pieces generalizing context message with
  | nil => exact ⟨context, rfl, by rwa [List.flatten_nil, List.append_nil]⟩
  | cons p pieces ih =>
      have first := small p List.mem_cons_self
      have length : (UInt32.ofNat p.length).toNat = p.length := by
        rw [UInt32.toNat_ofNat', Nat.mod_eq_of_lt (by omega)]
      obtain ⟨context', run, taken'⟩ := md5Update_taken taken length.le (by rwa [length])
      rw [length, List.take_length] at taken'
      obtain ⟨last, run', taken''⟩ := ih taken' fun q member =>
        small q (List.mem_cons_of_mem _ member)
      refine ⟨last, ?_, ?_⟩
      · rw [md5Updates, List.foldlM_cons, run]
        exact run'
      · rwa [List.flatten_cons, ← List.append_assoc]

/-- In whatever pieces a file comes, what `MD5Final` gives is the digest of the whole file. -/
theorem md5_digest {buffer : Bytes} (size : buffer.length = 64) {pieces : List Bytes}
    (small : ∀ p ∈ pieces, p.length + 64 < 2 ^ 32) :
    (md5Updates (md5Init buffer) pieces).bind md5Final = some (digest pieces.flatten) := by
  obtain ⟨context, run, taken⟩ := md5Updates_taken (taken_init size) small
  rw [run, Option.bind_some, md5Final_eq taken, List.nil_append]

theorem md5_digest_pieces :
    (md5Updates (md5Init (List.replicate 64 0xAA)) [[0x61], [], [0x62, 0x63]]).bind md5Final =
      some [0x90, 0x01, 0x50, 0x98, 0x3C, 0xD2, 0x4F, 0xB0, 0xD6, 0x96, 0x3F, 0x7D, 0x28, 0xE1,
        0x7F, 0x72] := by
  rw [md5_digest (by decide) (by decide)]
  decide +kernel

end Aic8800.Plat.Md5
