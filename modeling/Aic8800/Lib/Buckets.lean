import Mathlib.Algebra.BigOperators.Group.Finset.Basic
import Mathlib.Algebra.Order.BigOperators.Group.Finset

/-! # Buckets

The elements of a collection are kept in numbered lists. What is counted is how many there
are in all, and what is looked for is the highest list that is not empty.
-/

namespace Aic8800.Lib.Buckets

variable {α : Type} {n k : Nat} {l : Nat → List α} {xs : List α} {a : α}

/-- How many elements there are in the first `n` lists. -/
def total (n : Nat) (l : Nat → List α) : Nat := ∑ k ∈ Finset.range n, (l k).length

/-- A list is replaced by another. -/
theorem total_update (inside : k < n) :
    total n (Function.update l k xs) + (l k).length = total n l + xs.length := by
  have member : k ∈ Finset.range n := Finset.mem_range.mpr inside
  have others : ∑ j ∈ (Finset.range n).erase k, (Function.update l k xs j).length =
      ∑ j ∈ (Finset.range n).erase k, (l j).length := by
    apply Finset.sum_congr rfl
    intro j other
    rw [Function.update_of_ne (Finset.ne_of_mem_erase other)]
  unfold total
  rw [← Finset.add_sum_erase _ _ member, ← Finset.add_sum_erase _ _ member, others,
    Function.update_self]
  omega

theorem total_append (inside : k < n) :
    total n (Function.update l k (l k ++ [a])) = total n l + 1 := by
  have moved : total n (Function.update l k (l k ++ [a])) + (l k).length =
      total n l + (l k ++ [a]).length := total_update inside
  rw [List.length_append, List.length_singleton] at moved
  omega

theorem length_le_total (inside : k < n) : (l k).length ≤ total n l :=
  Finset.single_le_sum (f := fun k => (l k).length) (fun _ _ => Nat.zero_le _)
    (Finset.mem_range.mpr inside)

theorem total_eq_zero : total n l = 0 ↔ ∀ k < n, l k = [] := by
  simp [total]

/-- The highest of the lists that are not empty. -/
structure Highest (n : Nat) (l : Nat → List α) (k : Nat) : Prop where
  inside : k < n
  occupied : l k ≠ []
  highest : ∀ j < n, l j ≠ [] → j ≤ k

theorem Highest.unique {j : Nat} (h : Highest n l k) (h' : Highest n l j) : k = j :=
  Nat.le_antisymm (h'.highest k h.inside h.occupied) (h.highest j h'.inside h'.occupied)

end Aic8800.Lib.Buckets
