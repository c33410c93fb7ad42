import Mathlib.Data.List.Basic

/-! # Spans that are multiples of a period

Instants are natural numbers and histories are lists with the newest instant
first. A span is near a multiple of a period when it differs from a positive
multiple by at most a tolerance. A history is spaced when it was opened by one
instant that lies near a multiple of the period from every earlier one, and was
then extended by instants that each lie near a multiple from the one before.
-/

namespace Aic8800.Lib.Periodic

/-- `span` is within `tolerance` of a positive multiple of `period`. -/
def Near (period tolerance span : Nat) : Prop :=
  ∃ factor, 0 < factor ∧ span ≤ factor * period + tolerance ∧
    factor * period ≤ span + tolerance

variable {period tolerance span : Nat}

theorem Near.self : Near period tolerance period :=
  ⟨1, by omega, by omega, by omega⟩

theorem Near.of_factor {factor : Nat} (positive : 0 < factor)
    (above : span ≤ factor * period + tolerance) (below : factor * period ≤ span + tolerance) :
    Near period tolerance span :=
  ⟨factor, positive, above, below⟩

theorem natAbs_le_iff {factor : Nat} :
    ((span : Int) - factor * period).natAbs ≤ tolerance ↔
      span ≤ factor * period + tolerance ∧ factor * period ≤ span + tolerance := by
  rw [← Int.natCast_mul]
  omega

/-- The same with the distance as an absolute value -/
theorem near_iff_natAbs :
    Near period tolerance span ↔
      ∃ k : Int, 1 ≤ k ∧ ((span : Int) - k * period).natAbs ≤ tolerance := by
  constructor
  · rintro ⟨factor, positive, close⟩
    exact ⟨factor, by omega, natAbs_le_iff.mpr close⟩
  · rintro ⟨k, positive, close⟩
    obtain ⟨factor, rfl⟩ := Int.eq_ofNat_of_zero_le (Int.le_trans Int.one_nonneg positive)
    exact ⟨factor, by omega, natAbs_le_iff.mp close⟩

/-- A span that is near a multiple is not shorter than the period by more than the tolerance. -/
theorem Near.period_le (near : Near period tolerance span) : period ≤ span + tolerance := by
  obtain ⟨factor, positive, -, below⟩ := near
  exact Nat.le_trans (Nat.le_mul_of_pos_left period positive) below

/-- The multiples next to a span are that of its quotient and the one behind it. A remainder
    that is far from both ends is far from all multiples. -/
theorem not_near (behind : tolerance < span % period) (ahead : span % period + tolerance < period) :
    ¬Near period tolerance span := by
  rintro ⟨factor, -, above, below⟩
  have division := Nat.div_add_mod span period
  rw [Nat.mul_comm] at division
  by_cases small : factor ≤ span / period
  · have whole := Nat.mul_le_mul_right period small
    omega
  · have next : (span / period + 1) * period ≤ factor * period :=
      Nat.mul_le_mul_right period (Nat.not_le.mp small)
    rw [Nat.add_mul, Nat.one_mul] at next
    omega

/-- A tolerance smaller than the period leaves no room for the empty span. -/
theorem Near.pos (near : Near period tolerance span) (small : tolerance < period) :
    0 < span := by
  obtain ⟨factor, positive, _, below⟩ := near
  have whole : period ≤ factor * period := Nat.le_mul_of_pos_left period positive
  omega

/-- The histories built around `period`, newest instant first. -/
inductive Spaced (period tolerance : Nat) : List Nat → Prop where
  | opened {now : Nat} {earlier : List Nat}
      (near : ∀ t ∈ earlier, Near period tolerance (now - t)) :
      Spaced period tolerance (now :: earlier)
  | extended {now last : Nat} {earlier : List Nat}
      (near : Near period tolerance (now - last))
      (before : Spaced period tolerance (last :: earlier)) :
      Spaced period tolerance (now :: last :: earlier)

/-- A history of which the newest instant is `last` grows by an instant near a
    multiple from it. -/
theorem Spaced.extend {history : List Nat} {now last : Nat}
    (before : Spaced period tolerance history) (newest : history.head? = some last)
    (near : Near period tolerance (now - last)) : Spaced period tolerance (now :: history) := by
  cases history with
  | nil => cases newest
  | cons head earlier =>
      obtain rfl := Option.some.inj newest
      exact .extended near before

end Aic8800.Lib.Periodic
