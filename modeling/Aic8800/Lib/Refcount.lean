import Mathlib.Data.List.Nodup
import Mathlib.Logic.Function.Basic

/-! # Reference counts

Holders name a thing each, or something that is no thing at all. The counts are exact
when that of each thing is the number of the holders that name it.
-/

namespace Aic8800.Lib.Refcount

variable {α κ : Type} [DecidableEq κ]

/-- How many of the holders name `k`. -/
def refs (holders : List α) (names : α → κ) (k : κ) : Nat := holders.countP fun a => names a = k

variable {holders : List α} {names : α → κ} {a : α} {c k : κ}

theorem refs_le : refs holders names k ≤ holders.length := List.countP_le_length

@[simp] theorem refs_nil : refs [] names k = 0 := rfl

theorem refs_cons :
    refs (a :: holders) names k = refs holders names k + if names a = k then 1 else 0 := by
  unfold refs
  rw [List.countP_cons]
  simp only [decide_eq_true_eq]

section Update

variable [DecidableEq α]

/-- What one that is no holder names does not count. -/
theorem refs_update_absent (absent : a ∉ holders) :
    refs holders (Function.update names a c) k = refs holders names k := by
  unfold refs
  apply List.countP_congr
  intro b member
  have other : b ≠ a := by
    rintro rfl
    exact absent member
  rw [Function.update_of_ne other]

variable (names) in
/-- When one holder names something else, one name is lost and another gained. -/
theorem refs_update (nodup : holders.Nodup) (member : a ∈ holders) :
    (refs holders (Function.update names a c) k + if names a = k then 1 else 0) =
      refs holders names k + if c = k then 1 else 0 := by
  induction holders with
  | nil => cases member
  | cons b rest ih =>
      obtain ⟨fresh, nodup⟩ := List.nodup_cons.mp nodup
      rw [refs_cons, refs_cons]
      rcases List.mem_cons.mp member with rfl | later
      · rw [refs_update_absent fresh, Function.update_self]
        omega
      · have other : b ≠ a := by
          rintro rfl
          exact fresh later
        rw [Function.update_of_ne other]
        have := ih nodup later
        omega

/-- A holder that names nothing that is counted can come and go. -/
theorem refs_erase (other : names a ≠ k) : refs (holders.erase a) names k = refs holders names k := by
  induction holders with
  | nil => rfl
  | cons b rest ih =>
      by_cases same : b = a
      · subst same
        rw [List.erase_cons_head, refs_cons, if_neg other]
        rfl
      · rw [List.erase_cons_tail (by simpa using same), refs_cons, refs_cons, ih]

end Update

/-- The counts of all things are exact. -/
def Exact (things : κ → Prop) (holders : List α) (names : α → κ) (count : κ → Nat) : Prop :=
  ∀ k, things k → count k = refs holders names k

namespace Exact

variable {things : κ → Prop} {count : κ → Nat}

theorem empty : Exact things [] names fun _ => 0 := fun _ _ => rfl

theorem le (h : Exact things holders names count) (thing : things k) : count k ≤ holders.length := by
  rw [h k thing]
  exact refs_le

/-- The thing that a holder names is counted. -/
theorem pos (h : Exact things holders names count) (member : a ∈ holders) (thing : things (names a)) :
    0 < count (names a) := by
  rw [h _ thing]
  unfold refs
  rw [List.countP_pos_iff]
  exact ⟨a, member, by simp⟩

theorem cons (h : Exact things holders names count) (none : ¬ things (names a)) :
    Exact things (a :: holders) names count := by
  intro k thing
  have other : names a ≠ k := by
    rintro rfl
    exact none thing
  rw [refs_cons, if_neg other]
  exact h k thing

variable [DecidableEq α]

/-- A holder that named no thing names one. -/
theorem link (h : Exact things holders names count) (nodup : holders.Nodup) (member : a ∈ holders)
    (none : ¬ things (names a)) :
    Exact things holders (Function.update names a c) (Function.update count c (count c + 1)) := by
  intro k thing
  have moved := refs_update names (c := c) (k := k) nodup member
  have other : names a ≠ k := by
    rintro rfl
    exact none thing
  rw [if_neg other] at moved
  by_cases same : k = c
  · subst same
    rw [Function.update_self, h k thing]
    simpa using moved.symm
  · rw [Function.update_of_ne same, h k thing]
    simpa [Ne.symm same] using moved.symm

/-- A holder that named a thing names none. -/
theorem unlink (h : Exact things holders names count) (nodup : holders.Nodup) (member : a ∈ holders)
    (none : ¬ things c) :
    Exact things holders (Function.update names a c)
      (Function.update count (names a) (count (names a) - 1)) := by
  intro k thing
  have moved := refs_update names (c := c) (k := k) nodup member
  have other : c ≠ k := by
    rintro rfl
    exact none thing
  rw [if_neg other] at moved
  by_cases same : k = names a
  · subst same
    rw [Function.update_self, h _ thing]
    simp only [if_true] at moved
    omega
  · rw [Function.update_of_ne same, h k thing]
    simpa [Ne.symm same] using moved.symm

theorem erase (h : Exact things holders names count) (none : ¬ things (names a)) :
    Exact things (holders.erase a) names count := by
  intro k thing
  have other : names a ≠ k := by
    rintro rfl
    exact none thing
  rw [refs_erase other]
  exact h k thing

end Exact

end Aic8800.Lib.Refcount
