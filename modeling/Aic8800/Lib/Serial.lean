import Mathlib.Data.Int.ModEq
import Mathlib.Tactic.Ring

/-! # Serial-number arithmetic

A serial number is a position on the integer line of which only the residue
modulo an even ring size is transmitted. Two serial numbers are compared by the
top bit of their difference on the ring. The comparison is not an order on the
ring, but it is the order of the line between positions less than half a ring
apart, and that is the only way it is used.
-/

namespace Aic8800.Lib.Serial

/-- `a` is behind `b`: the difference has the top bit of the ring set. -/
def Less (n a b : Int) : Prop := n ≤ 2 * ((a - b) % n)

instance (n a b : Int) : Decidable (Less n a b) := inferInstanceAs (Decidable (_ ≤ _))

theorem less_mod_left (n a b : Int) : Less n (a % n) b ↔ Less n a b := by
  simp only [Less, Int.emod_sub_emod]

theorem less_mod_right (n a b : Int) : Less n a (b % n) ↔ Less n a b := by
  simp only [Less, Int.sub_emod_emod]

/-- Between positions less than half a ring apart the comparison of residues is
    the order of the line. -/
theorem less_iff_of_close {n a b : Int} (low : -n ≤ 2 * (a - b)) (high : 2 * (a - b) < n) :
    Less n a b ↔ a < b := by
  simp only [Less]
  by_cases ahead : 0 ≤ a - b
  · rw [Int.emod_eq_of_lt ahead (by omega)]
    omega
  · rw [← Int.add_emod_right (a - b) n, Int.emod_eq_of_lt (by omega) (by omega)]
    omega

/-- Residues agree exactly on one position of any stretch shorter than the ring. -/
theorem mod_eq_iff_of_close {n a b : Int} (low : -n < a - b) (high : a - b < n) :
    a % n = b % n ↔ a = b := by
  constructor
  · intro same
    have none : b - a = 0 :=
      Int.eq_zero_of_abs_lt_dvd (Int.ModEq.dvd same) (abs_lt.mpr ⟨by omega, by omega⟩)
    omega
  · rintro rfl
    rfl

/-- The position of residue `x` in the half-open ring centred on `w`. -/
def locate (n w x : Int) : Int := w + ((x - w + n / 2) % n - n / 2)

theorem locate_mod (n w x : Int) : locate n w x % n = x % n := by
  have split : locate n w x = (x - w + n / 2) % n + (w - n / 2) := by
    simp only [locate]
    ring
  rw [split, Int.emod_add_emod]
  congr 1
  ring

theorem locate_range {n : Int} (pos : 0 < n) (w x : Int) :
    w - n / 2 ≤ locate n w x ∧ locate n w x < w + (n - n / 2) := by
  have low := Int.emod_nonneg (x - w + n / 2) (by omega : n ≠ 0)
  have high := Int.emod_lt_of_pos (x - w + n / 2) pos
  simp only [locate]
  omega

end Aic8800.Lib.Serial
