import Mathlib.Data.List.Basic

/-! # Streams that are taken in blocks

A stream is folded block by block: each block that it fills goes into the state, and what fills
none is kept for what comes next. In which pieces the stream comes does not matter.
-/

namespace Aic8800.Lib.Blocks

variable {α σ : Type}

/-- Take `k` blocks of `n` from a stream. -/
def take (n : Nat) (f : σ → List α → σ) : Nat → σ → List α → σ × List α
  | 0, s, xs => (s, xs)
  | k + 1, s, xs => take n f k (f s (xs.take n)) (xs.drop n)

/-- Take every block that a stream fills. -/
def absorb (n : Nat) (f : σ → List α → σ) (s : σ) (xs : List α) : σ × List α :=
  take n f (xs.length / n) s xs

variable {n : Nat} {f : σ → List α → σ}

theorem take_snd (k : Nat) (s : σ) (xs : List α) : (take n f k s xs).2 = xs.drop (k * n) := by
  induction k generalizing s xs with
  | zero => simp [take]
  | succ k ih => rw [take, ih, List.drop_drop, Nat.succ_mul, Nat.add_comm]

/-- First some blocks, then the others -/
theorem take_add (j k : Nat) (s : σ) (xs : List α) :
    take n f (j + k) s xs = take n f k (take n f j s xs).1 (take n f j s xs).2 := by
  induction j generalizing s xs with
  | zero => rw [Nat.zero_add, take]
  | succ j ih => rw [Nat.succ_add, take, ih, take]

/-- What comes behind the blocks stays behind them. -/
theorem take_append {k : Nat} {xs : List α} (fits : k * n ≤ xs.length) (s : σ) (ys : List α) :
    take n f k s (xs ++ ys) = ((take n f k s xs).1, (take n f k s xs).2 ++ ys) := by
  induction k generalizing s xs with
  | zero => rfl
  | succ k ih =>
      rw [Nat.succ_mul] at fits
      have rest : k * n ≤ (xs.drop n).length := by rw [List.length_drop]; omega
      rw [take, take, List.take_append_of_le_length (by omega),
        List.drop_append_of_le_length (by omega), ih rest]

/-- What is left fills no block. -/
theorem length_absorb_snd (s : σ) (xs : List α) : (absorb n f s xs).2.length = xs.length % n := by
  rw [absorb, take_snd, List.length_drop, Nat.mod_def, Nat.mul_comm]

/-- A stream that fills no block is kept. -/
theorem absorb_short {xs : List α} (short : xs.length < n) (s : σ) : absorb n f s xs = (s, xs) := by
  rw [absorb, Nat.div_eq_of_lt short, take]

/-- The block at the front goes first. -/
theorem absorb_block {xs : List α} (pos : 0 < n) (full : n ≤ xs.length) (s : σ) :
    absorb n f s xs = absorb n f (f s (xs.take n)) (xs.drop n) := by
  rw [absorb, absorb, List.length_drop, Nat.div_eq_sub_div pos full, take]

/-- A stream may come in two pieces. -/
theorem absorb_append (pos : 0 < n) (s : σ) (xs ys : List α) :
    absorb n f s (xs ++ ys) = absorb n f (absorb n f s xs).1 ((absorb n f s xs).2 ++ ys) := by
  have left : xs.length / n * n ≤ xs.length := Nat.div_mul_le_self ..
  have count : (xs ++ ys).length / n
      = xs.length / n + ((absorb n f s xs).2 ++ ys).length / n := by
    rw [List.length_append, List.length_append, length_absorb_snd,
      show xs.length + ys.length = xs.length % n + ys.length + n * (xs.length / n) by
        have := Nat.mod_add_div xs.length n; omega,
      Nat.add_mul_div_left _ _ pos, Nat.add_comm]
  rw [absorb.eq_1 n f s (xs ++ ys), count, take_add, take_append left]
  rfl

end Aic8800.Lib.Blocks
