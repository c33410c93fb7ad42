import Mathlib

/-! # A ring that keeps the most recent values

The ring has a write index and a count that stops growing when it is full. What was
pushed last is at the slot before the index. To read it, the oldest slot is computed
from the two, and the values are copied in one piece or, across the end, in two.
-/

namespace Aic8800.Lib

structure Recent (α : Type) where
  index : Nat
  count : Nat
  buffer : List α
  deriving DecidableEq

namespace Recent

variable {α : Type}

def write (r : Recent α) (x : α) : Recent α := { r with buffer := r.buffer.set r.index x }

def advance (n : Nat) (r : Recent α) : Recent α := { r with index := (r.index + 1) % n }

def setCount (r : Recent α) (count : Nat) : Recent α := { r with count }

/-- The count after one more value. -/
def grown (n : Nat) (r : Recent α) : Nat := if r.count < n then r.count + 1 else r.count

@[simp] theorem grown_write (n : Nat) (r : Recent α) (x : α) : (r.write x).grown n = r.grown n := rfl

@[simp] theorem grown_advance (n : Nat) (r : Recent α) : (r.advance n).grown n = r.grown n := rfl

def push (n : Nat) (r : Recent α) (x : α) : Recent α :=
  ((r.write x).advance n).setCount (grown n r)

/-- The slot of the oldest value. -/
def start (n : Nat) (r : Recent α) : Nat :=
  if r.index < r.count then r.index + n - r.count else r.index - r.count

/-- The copy of the values, oldest first. -/
def contents (n : Nat) (r : Recent α) : List α :=
  if n < r.start n + r.count then
    r.buffer.drop (r.start n) ++ r.buffer.take (r.count - (n - r.start n))
  else (r.buffer.drop (r.start n)).take r.count

/-- The slot of the value that was pushed `k` values before the last one. -/
def slot (n : Nat) (r : Recent α) (k : Nat) : Nat :=
  if k < r.index then r.index - 1 - k else r.index + n - 1 - k

/-- The ring of size `n` has the last values of `xs`. -/
structure Holds (n : Nat) (r : Recent α) (xs : List α) : Prop where
  size : r.buffer.length = n
  bound : r.index < n
  count : r.count = min n xs.length
  recent : ∀ k < r.count, r.buffer[r.slot n k]? = xs.reverse[k]?

namespace Holds

variable {n : Nat} {r : Recent α} {xs : List α}

theorem new (x : α) (pos : 0 < n) : Holds n ⟨0, 0, List.replicate n x⟩ [] where
  size := List.length_replicate
  bound := pos
  count := (Nat.min_zero n).symm
  recent _ low := absurd low (Nat.not_lt_zero _)

/-- Only what was pushed after the ring was emptied counts. -/
theorem clear (h : Holds n r xs) : Holds n (r.setCount 0) [] where
  size := h.size
  bound := h.bound
  count := (Nat.min_zero n).symm
  recent _ low := absurd low (Nat.not_lt_zero _)

/-- The values move one slot away from the index. -/
theorem slot_advance (bound : r.index < n) {k : Nat} (low : k < n) :
    (r.advance n).slot n k = if k = 0 then r.index else r.slot n (k - 1) := by
  have wrap : (r.index + 1) % n = if r.index + 1 = n then 0 else r.index + 1 := by
    split
    · rename_i last
      rw [last, Nat.mod_self]
    · exact Nat.mod_eq_of_lt (by omega)
  simp only [slot, advance, wrap]
  split_ifs <;> omega

theorem slot_ne_index {k : Nat} (low : k + 1 < n) : r.slot n k ≠ r.index := by
  unfold slot
  split <;> omega

theorem push (h : Holds n r xs) (x : α) : Holds n (r.push n x) (xs ++ [x]) := by
  have bound := h.bound
  have count := h.count
  constructor
  · exact (List.length_set).trans h.size
  · exact Nat.mod_lt _ (Nat.zero_lt_of_lt bound)
  · show grown n r = _
    rw [grown, List.length_append, List.length_singleton]
    split <;> omega
  · intro k low
    have fewer : k < grown n r := low
    have within : k < n := by
      unfold grown at fewer
      split at fewer <;> omega
    have moved : (r.push n x).slot n k = (r.advance n).slot n k := rfl
    have written : (r.push n x).buffer = r.buffer.set r.index x := rfl
    rw [moved, slot_advance bound within, written, List.reverse_append]
    cases k with
    | zero =>
        rw [if_pos rfl, List.getElem?_set_self (h.size ▸ bound)]
        rfl
    | succ k =>
        have older : k < r.count := by
          unfold grown at fewer
          split at fewer <;> omega
        rw [if_neg (Nat.succ_ne_zero k), Nat.add_sub_cancel,
          List.getElem?_set_ne (slot_ne_index within).symm, h.recent k older]
        rfl

/-- Where the copy takes its value at `j` from. -/
theorem getElem?_contents (h : Holds n r xs) {j : Nat} (low : j < r.count) :
    (r.contents n)[j]? = r.buffer[r.slot n (r.count - 1 - j)]? := by
  have bound := h.bound
  have size := h.size
  have count := h.count
  have source : r.slot n (r.count - 1 - j) =
      if n ≤ r.start n + j then r.start n + j - n else r.start n + j := by
    unfold slot start
    split_ifs <;> omega
  have first : r.start n < n := by
    unfold start
    split <;> omega
  rw [source, contents]
  by_cases wraps : n < r.start n + r.count
  · rw [if_pos wraps]
    by_cases past : n ≤ r.start n + j
    · rw [if_pos past, List.getElem?_append_right (by rw [List.length_drop]; omega),
        List.length_drop, List.getElem?_take_of_lt (by omega)]
      congr 1
      omega
    · rw [if_neg past, List.getElem?_append_left (by rw [List.length_drop]; omega),
        List.getElem?_drop]
  · rw [if_neg wraps, if_neg (by omega), List.getElem?_take_of_lt low, List.getElem?_drop]

/-- The copy is the last `n` of the values that were pushed. -/
theorem contents_eq (h : Holds n r xs) : r.contents n = xs.drop (xs.length - n) := by
  have bound := h.bound
  have size := h.size
  have count := h.count
  have length : (r.contents n).length = r.count := by
    unfold contents start
    split_ifs <;> simp only [List.length_append, List.length_drop, List.length_take] <;> omega
  apply List.ext_getElem?
  intro j
  by_cases low : j < r.count
  · rw [h.getElem?_contents low, h.recent _ (by omega), List.getElem?_drop,
      List.getElem?_reverse (by omega)]
    congr 1
    omega
  · rw [List.getElem?_eq_none (by omega), List.getElem?_eq_none (by rw [List.length_drop]; omega)]

end Holds

end Recent

end Aic8800.Lib
