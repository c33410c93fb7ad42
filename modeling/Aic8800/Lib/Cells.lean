import Mathlib.Data.List.Basic

/-! # Arrays that are written within their bounds

A write outside an array has no result. An array that is written from its first cell on holds what
was written, and behind that what it held before. A text in an array ends at its first `zero`, and
is none where the array ends first.
-/

namespace Aic8800.Lib.Cells

variable {α : Type} {a xs ys t : List α} {x zero : α} {i : Nat}

/-- `a[i] = x` -/
def store (a : List α) (i : Nat) (x : α) : Option (List α) :=
  if i < a.length then some (a.set i x) else none

/-- The array with these in its first cells -/
def fill (xs a : List α) : List α := xs ++ a.drop xs.length

@[simp] theorem fill_nil (a : List α) : fill [] a = a := rfl

theorem length_fill (fits : xs.length ≤ a.length) : (fill xs a).length = a.length := by
  unfold fill
  rw [List.length_append, List.length_drop]
  omega

theorem store_fill (x : α) (fits : xs.length ≤ a.length) : store (fill xs a) xs.length x =
    if xs.length < a.length then some (fill (xs ++ [x]) a) else none := by
  unfold store
  rw [length_fill fits]
  split
  · rename_i room
    unfold fill
    rw [List.set_append_right _ _ (Nat.le_refl _), Nat.sub_self, List.drop_eq_getElem_cons room,
      List.set_cons_zero, List.append_assoc, List.length_append, List.length_singleton]
    rfl
  · rfl

theorem head?_fill (some' : xs ≠ []) : (fill xs a).head? = xs.head? := by
  obtain ⟨x, xs, rfl⟩ := List.exists_cons_of_ne_nil some'
  rfl

theorem drop_fill {n : Nat} (fits : xs.length ≤ n) : (fill xs a).drop n = a.drop n := by
  unfold fill
  rw [List.drop_append, List.drop_eq_nil_of_le fits, List.drop_drop, List.nil_append]
  congr 1
  omega

/-- `memcpy(a, xs, n)` -/
def copy (xs a : List α) : Option (List α) :=
  if xs.length ≤ a.length then some (fill xs a) else none

/-- `memcpy(&a[i], xs, n)` -/
def copyAt (i : Nat) (xs a : List α) : Option (List α) :=
  if i + xs.length ≤ a.length then some (a.take i ++ xs ++ a.drop (i + xs.length)) else none

theorem copyAt_append {pre rest : List α} (place : pre.length = i)
    (fits : xs.length ≤ rest.length) :
    copyAt i xs (pre ++ rest) = some (pre ++ xs ++ rest.drop xs.length) := by
  unfold copyAt
  rw [if_pos (by rw [List.length_append]; omega)]
  subst place
  rw [List.take_left, List.drop_append, List.drop_eq_nil_of_le (Nat.le_add_right _ _),
    List.nil_append, Nat.add_sub_cancel_left]

theorem copyAt_zero (fits : xs.length ≤ a.length) :
    copyAt 0 xs a = some (xs ++ a.drop xs.length) :=
  (congrArg (copyAt 0 xs) (List.nil_append a).symm).trans (copyAt_append rfl fits)

theorem copyAt_replicate {pre : List α} {n : Nat} (place : pre.length = i)
    (fits : xs.length ≤ n) :
    copyAt i xs (pre ++ List.replicate n x) =
      some (pre ++ xs ++ List.replicate (n - xs.length) x) := by
  rw [copyAt_append place (by rwa [List.length_replicate]), List.drop_replicate]

theorem copyAt_fits {b : List α} (copied : copyAt i xs a = some b) :
    i + xs.length ≤ a.length ∧ b.length = a.length := by
  unfold copyAt at copied
  split at copied
  · rename_i fits
    obtain rfl := Option.some.inj copied
    refine ⟨fits, ?_⟩
    rw [List.length_append, List.length_append, List.length_take, List.length_drop]
    omega
  · cases copied

/-- What was copied is found where it was copied to. -/
theorem copyAt_read {b : List α} (copied : copyAt i xs a = some b) :
    (b.drop i).take xs.length = xs := by
  unfold copyAt at copied
  split at copied
  · rename_i fits
    obtain rfl := Option.some.inj copied
    have front : (a.take i).length = i := by rw [List.length_take]; omega
    rw [List.append_assoc, List.drop_left' front, List.take_left]
  · cases copied

section Text

variable [DecidableEq α]

/-- The text that begins with the array -/
def text (zero : α) (a : List α) : Option (List α) :=
  if zero ∈ a then some (a.takeWhile (· != zero)) else none

theorem text_append (clean : zero ∉ t) (rest : List α) : text zero (t ++ zero :: rest) = some t := by
  have whole : ∀ x ∈ t, (x != zero) = true := by
    intro x member
    have other : x ≠ zero := fun same => clean (same ▸ member)
    simpa using other
  unfold text
  rw [if_pos (by simp), List.takeWhile_append_of_pos whole]
  simp

theorem text_eq_some : text zero a = some t ↔ zero ∉ t ∧ ∃ rest, a = t ++ zero :: rest := by
  constructor
  · intro same
    have there : zero ∈ a := by
      by_contra absent
      rw [text, if_neg absent] at same
      cases same
    obtain ⟨t', rest, rfl, clean⟩ := List.eq_append_cons_of_mem there
    obtain rfl := Option.some.inj ((text_append clean rest).symm.trans same)
    exact ⟨clean, rest, rfl⟩
  · rintro ⟨clean, rest, rfl⟩
    exact text_append clean rest

/-- What is written in an array is a text if it has no `zero`, and there is one behind it. -/
theorem text_fill : text zero (fill xs a) = some xs ↔ zero ∉ xs ∧ a[xs.length]? = some zero := by
  unfold fill
  rw [text_eq_some]
  simp only [List.append_cancel_left_eq]
  refine and_congr_right fun _ => ?_
  rw [← List.head?_drop]
  cases a.drop xs.length with
  | nil => simp
  | cons y ys => simp

end Text

end Aic8800.Lib.Cells
