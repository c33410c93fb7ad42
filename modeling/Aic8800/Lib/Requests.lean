import Mathlib.Data.List.Basic

/-! # Requests and their answers in a trace

A trace has its newest entry first. A request is open as long as no answer to it came after it. One
answer may be to several equal requests.
-/

namespace Aic8800.Lib.Requests

inductive Entry (α : Type) where
  | asked (a : α)
  | answered (a : α)
  deriving DecidableEq

variable {α : Type} {a b : α} {trace : List (Entry α)}

/-- A request that no later answer is to -/
def Open (trace : List (Entry α)) (a : α) : Prop :=
  ∃ newer older, trace = newer ++ .asked a :: older ∧ .answered a ∉ newer

/-- Every request has a later answer. -/
def AllAnswered (trace : List (Entry α)) : Prop :=
  ∀ newer older a, trace = newer ++ .asked a :: older → .answered a ∈ newer

theorem allAnswered_iff : AllAnswered trace ↔ ∀ a, ¬Open trace a := by
  constructor
  · rintro all a ⟨newer, older, split, none'⟩
    exact none' (all newer older a split)
  · intro closed newer older a split
    by_contra none'
    exact closed a ⟨newer, older, split, none'⟩

theorem not_open_nil : ¬Open [] a := by
  rintro ⟨newer, older, split, -⟩
  simp at split

theorem open_asked : Open (.asked b :: trace) a ↔ a = b ∨ Open trace a := by
  constructor
  · rintro ⟨newer, older, split, none'⟩
    cases newer with
    | nil =>
        cases split
        exact .inl rfl
    | cons e newer =>
        obtain ⟨-, split⟩ := List.cons_eq_cons.mp split
        exact .inr ⟨newer, older, split, fun there => none' (List.mem_cons_of_mem _ there)⟩
  · rintro (rfl | ⟨newer, older, rfl, none'⟩)
    · exact ⟨[], trace, rfl, List.not_mem_nil⟩
    · refine ⟨.asked b :: newer, older, rfl, fun there => ?_⟩
      rcases List.mem_cons.mp there with same | there
      · cases same
      · exact none' there

theorem open_answered : Open (.answered b :: trace) a ↔ a ≠ b ∧ Open trace a := by
  constructor
  · rintro ⟨newer, older, split, none'⟩
    cases newer with
    | nil => cases split
    | cons e newer =>
        obtain ⟨rfl, rest⟩ := List.cons_eq_cons.mp split
        refine ⟨?_, newer, older, rest, fun there => none' (List.mem_cons_of_mem _ there)⟩
        rintro rfl
        exact none' List.mem_cons_self
  · rintro ⟨other, newer, older, rfl, none'⟩
    refine ⟨.answered b :: newer, older, rfl, fun there => ?_⟩
    rcases List.mem_cons.mp there with same | there
    · cases same
      exact other rfl
    · exact none' there

end Aic8800.Lib.Requests
