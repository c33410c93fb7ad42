import Mathlib

/-! # Greedy choices

Candidates are gone through in an order, and each is chosen that meets none of those that were
chosen before. No two of the chosen then meet, and each candidate that was not chosen meets one
that came before it.
-/

namespace Aic8800.Lib.Greedy

variable {ε : Type} (meets : ε → ε → Bool)

/-- Go through the candidates, with what has been chosen so far. -/
def pick : List ε → List ε → List ε
  | chosen, [] => chosen
  | chosen, e :: rest =>
      if ∃ g ∈ chosen, meets g e then pick chosen rest else pick (chosen ++ [e]) rest

variable {meets} {chosen es : List ε}

theorem pick_extends (chosen es : List ε) : chosen <+: pick meets chosen es := by
  induction es generalizing chosen with
  | nil => exact List.prefix_rfl
  | cons e rest ih =>
      rw [pick]
      split
      · exact ih chosen
      · exact (List.prefix_append chosen [e]).trans (ih _)

theorem mem_pick {e : ε} (member : e ∈ pick meets chosen es) : e ∈ chosen ∨ e ∈ es := by
  induction es generalizing chosen with
  | nil => exact .inl member
  | cons x rest ih =>
      rw [pick] at member
      split at member
      · exact (ih member).imp_right (List.mem_cons_of_mem x)
      · rcases ih member with old | new
        · rcases List.mem_append.mp old with old | last
          · exact .inl old
          · rw [List.mem_singleton] at last
            exact .inr (last ▸ List.mem_cons_self)
        · exact .inr (List.mem_cons_of_mem x new)

/-- No two of the chosen meet. -/
theorem pick_pairwise (apart : chosen.Pairwise fun a b => ¬meets a b) :
    (pick meets chosen es).Pairwise fun a b => ¬meets a b := by
  induction es generalizing chosen with
  | nil => exact apart
  | cons e rest ih =>
      rw [pick]
      split
      · exact ih apart
      · rename_i none
        refine ih (List.pairwise_append.mpr
          ⟨apart, List.pairwise_singleton .., fun g old x new => ?_⟩)
        obtain rfl := List.mem_singleton.mp new
        exact fun met => none ⟨g, old, met⟩

/-- If the candidates come with falling weights, each is chosen or meets one that is chosen and
    weighs no less. -/
theorem pick_maximal {κ : Type} [Preorder κ] {weight : ε → κ}
    (sorted : es.Pairwise fun a b => weight b ≤ weight a)
    (before : ∀ g ∈ chosen, ∀ e ∈ es, weight e ≤ weight g) {e : ε} (member : e ∈ es) :
    e ∈ pick meets chosen es ∨ ∃ g ∈ pick meets chosen es, meets g e ∧ weight e ≤ weight g := by
  induction es generalizing chosen with
  | nil => cases member
  | cons x rest ih =>
      rw [List.pairwise_cons] at sorted
      rw [pick]
      split
      · rename_i met
        rcases List.mem_cons.mp member with rfl | member
        · obtain ⟨g, old, meet⟩ := met
          exact .inr ⟨g, (pick_extends chosen rest).subset old, meet,
            before g old e List.mem_cons_self⟩
        · refine ih sorted.2 (fun g old e later => ?_) member
          exact before g old e (List.mem_cons_of_mem x later)
      · rcases List.mem_cons.mp member with rfl | member
        · exact .inl ((pick_extends _ rest).subset (List.mem_append_right _ List.mem_cons_self))
        · refine ih sorted.2 (fun g old e later => ?_) member
          rcases List.mem_append.mp old with old | last
          · exact before g old e (List.mem_cons_of_mem x later)
          · rw [List.mem_singleton] at last
            exact last ▸ sorted.1 e later

end Aic8800.Lib.Greedy
