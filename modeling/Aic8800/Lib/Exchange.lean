import Mathlib

/-! # Sorting by the exchange of neighbours

A list is gone through again and again, and neighbours that are in the wrong order are exchanged,
until nothing is exchanged any more. What comes first in the end has the greatest key.
-/

namespace Aic8800.Lib.Exchange

variable {α κ : Type} [LinearOrder κ] (key : α → κ)

/-- Go through a list with this at its head, and tell whether something was exchanged. -/
def passFrom : α → List α → List α × Bool
  | x, [] => ([x], false)
  | x, y :: rest =>
      if key x < key y then (y :: (passFrom x rest).1, true)
      else (x :: (passFrom y rest).1, (passFrom y rest).2)

/-- Go through the list until nothing is exchanged. -/
def sort : Nat → List α → Option (List α)
  | _, [] => some []
  | 0, _ :: _ => none
  | fuel + 1, x :: xs =>
      if (passFrom key x xs).2 then sort fuel (passFrom key x xs).1 else some (passFrom key x xs).1

/-- How many pairs are in the wrong order -/
def wrong : List α → Nat
  | [] => 0
  | x :: xs => xs.countP (key x < key ·) + wrong xs

theorem passFrom_perm (x : α) (xs : List α) : (passFrom key x xs).1.Perm (x :: xs) := by
  induction xs generalizing x with
  | nil => exact .refl _
  | cons y rest ih =>
      rw [passFrom]
      split
      · exact ((ih x).cons y).trans (.swap x y rest)
      · exact (ih y).cons x

/-- An exchange leaves fewer pairs in the wrong order. -/
theorem wrong_passFrom (x : α) (xs : List α) :
    wrong key (passFrom key x xs).1 + (if (passFrom key x xs).2 then 1 else 0) ≤
      wrong key (x :: xs) := by
  induction xs generalizing x with
  | nil => exact Nat.le_refl _
  | cons y rest ih =>
      rw [passFrom]
      split
      · rename_i less
        have tail := ih x
        have same := (passFrom_perm key x rest).countP_eq (key y < key ·)
        have last : ¬key y < key x := not_lt.mpr less.le
        simp only [wrong, List.countP_cons, same, less, last] at tail ⊢
        simp only [decide_true, decide_false, if_true, Bool.false_eq_true, if_false] at tail ⊢
        omega
      · have tail := ih y
        have same := (passFrom_perm key y rest).countP_eq (key x < key ·)
        simp only [wrong, same] at tail ⊢
        omega

variable {key}

theorem passFrom_sorted (x : α) (xs : List α) (done : (passFrom key x xs).2 = false) :
    (passFrom key x xs).1 = x :: xs ∧ (x :: xs).Pairwise fun a b => key b ≤ key a := by
  induction xs generalizing x with
  | nil => exact ⟨rfl, List.pairwise_singleton ..⟩
  | cons y rest ih =>
      rw [passFrom] at done ⊢
      split at done
      · cases done
      · rename_i le
        rw [not_lt] at le
        obtain ⟨same, sorted⟩ := ih y done
        rw [if_neg (not_lt.mpr le), same]
        refine ⟨rfl, List.pairwise_cons.mpr ⟨?_, sorted⟩⟩
        intro z member
        rcases List.mem_cons.mp member with rfl | member
        · exact le
        · exact ((List.pairwise_cons.mp sorted).1 z member).trans le

/-- The list is sorted in the end. -/
theorem sort_eq {fuel : Nat} {xs : List α} (enough : wrong key xs < fuel) :
    ∃ ys, sort key fuel xs = some ys ∧ ys.Perm xs ∧ ys.Pairwise fun a b => key b ≤ key a := by
  induction fuel generalizing xs with
  | zero => omega
  | succ fuel ih =>
      cases xs with
      | nil => exact ⟨[], rfl, .refl _, .nil⟩
      | cons x xs =>
          rw [sort]
          have less := wrong_passFrom key x xs
          split
          · rename_i update
            rw [if_pos update] at less
            obtain ⟨ys, run, perm, sorted⟩ :=
              ih (show wrong key (passFrom key x xs).1 < fuel by omega)
            exact ⟨ys, run, perm.trans (passFrom_perm key x xs), sorted⟩
          · rename_i done
            obtain ⟨same, sorted⟩ := passFrom_sorted x xs (Bool.not_eq_true _ ▸ done)
            rw [same]
            exact ⟨_, rfl, .refl _, sorted⟩

theorem wrong_le (xs : List α) : wrong key xs ≤ xs.length * xs.length := by
  induction xs with
  | nil => exact Nat.le_refl _
  | cons x xs ih =>
      have few := List.countP_le_length (p := (key x < key ·)) (l := xs)
      rw [wrong, List.length_cons, Nat.succ_mul, Nat.mul_succ]
      omega

end Aic8800.Lib.Exchange
