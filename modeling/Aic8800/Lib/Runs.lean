import Mathlib.Data.List.Basic

/-! # Where the parts of a split list begin

A list is split at a separator. Each part is told with its place, as a run of the list that has
no separator in it and one, or an end of the list, at either side.
-/

namespace Aic8800.Lib.Runs

variable {α : Type} {sep x : α} {xs s : List α} {n p : Nat}

/-- The parts, with their places, which are counted from `n` on. -/
def runs [DecidableEq α] (sep : α) : Nat → List α → List (Nat × List α)
  | n, [] => [(n, [])]
  | n, x :: xs =>
      if x = sep then (n, []) :: runs sep (n + 1) xs
      else (runs sep (n + 1) xs).modifyHead fun r => (n, x :: r.2)

/-- A run between two separators. -/
structure IsRun (sep : α) (xs : List α) (p : Nat) (s : List α) : Prop where
  split : ∃ before after, xs = before ++ (s ++ after) ∧ before.length = p ∧
    (∀ y ∈ before.getLast?, y = sep) ∧ ∀ y ∈ after.head?, y = sep
  clean : sep ∉ s

theorem IsRun.nil_iff : IsRun sep [] p s ↔ p = 0 ∧ s = [] := by
  constructor
  · rintro ⟨⟨before, after, split, length, -⟩, -⟩
    obtain ⟨rfl, rest⟩ := List.append_eq_nil_iff.mp split.symm
    obtain ⟨rfl, -⟩ := List.append_eq_nil_iff.mp rest
    exact ⟨length.symm, rfl⟩
  · rintro ⟨rfl, rfl⟩
    exact ⟨⟨[], [], rfl, rfl, nofun, nofun⟩, List.not_mem_nil⟩

/-- Behind a separator begins a run, whatever stands before the separator. -/
theorem IsRun.cons_sep : IsRun sep (sep :: xs) p s ↔
    p = 0 ∧ s = [] ∨ ∃ p', p = p' + 1 ∧ IsRun sep xs p' s := by
  constructor
  · rintro ⟨⟨before, after, split, length, left, right⟩, clean⟩
    cases before with
    | nil =>
        cases s with
        | nil => exact .inl ⟨length.symm, rfl⟩
        | cons y s =>
            obtain ⟨rfl, -⟩ := List.cons_eq_cons.mp split
            exact absurd List.mem_cons_self clean
    | cons y before =>
        obtain ⟨-, rest⟩ := List.cons_eq_cons.mp split
        refine .inr ⟨before.length, length.symm, ⟨before, after, rest, rfl, ?_, right⟩, clean⟩
        intro z last
        exact left z (List.mem_getLast?_cons last)
  · rintro (⟨rfl, rfl⟩ | ⟨p', rfl, ⟨before, after, split, rfl, left, right⟩, clean⟩)
    · refine ⟨⟨[], sep :: xs, rfl, rfl, nofun, fun y first => ?_⟩, List.not_mem_nil⟩
      exact (Option.some.inj first).symm
    · refine ⟨⟨sep :: before, after, by rw [split]; rfl, rfl, fun y last => ?_, right⟩, clean⟩
      cases before with
      | nil => exact (Option.some.inj last).symm
      | cons z before =>
          rw [List.getLast?_cons_cons] at last
          exact left y last

/-- Any other element belongs to the run that begins behind it, or is before it. -/
theorem IsRun.cons_other (other : x ≠ sep) : IsRun sep (x :: xs) p s ↔
    (p = 0 ∧ ∃ s', s = x :: s' ∧ IsRun sep xs 0 s') ∨
      ∃ p', p = p' + 1 ∧ p' ≠ 0 ∧ IsRun sep xs p' s := by
  constructor
  · rintro ⟨⟨before, after, split, length, left, right⟩, clean⟩
    cases before with
    | nil =>
        cases s with
        | nil =>
            rw [List.nil_append, List.nil_append] at split
            exact absurd (right x (split ▸ rfl)) other
        | cons y s =>
            obtain ⟨rfl, rest⟩ := List.cons_eq_cons.mp split
            rw [List.mem_cons, not_or] at clean
            exact .inl ⟨length.symm, s, rfl, ⟨[], after, rest, rfl, nofun, right⟩, clean.2⟩
    | cons y before =>
        obtain ⟨rfl, rest⟩ := List.cons_eq_cons.mp split
        cases before with
        | nil => exact absurd (left x rfl) other
        | cons z before =>
            rw [List.getLast?_cons_cons] at left
            exact .inr ⟨_, length.symm, Nat.succ_ne_zero _,
              ⟨z :: before, after, rest, rfl, left, right⟩, clean⟩
  · rintro (⟨rfl, s', rfl, ⟨before, after, split, length, left, right⟩, clean⟩ |
      ⟨p', rfl, some, ⟨before, after, split, rfl, left, right⟩, clean⟩)
    · obtain rfl := List.eq_nil_of_length_eq_zero length
      refine ⟨⟨[], after, by rw [split]; rfl, rfl, nofun, right⟩, ?_⟩
      rw [List.mem_cons, not_or]
      exact ⟨other.symm, clean⟩
    · refine ⟨⟨x :: before, after, by rw [split]; rfl, rfl, fun y last => ?_, right⟩, clean⟩
      cases before with
      | nil => exact absurd rfl some
      | cons z before =>
          rw [List.getLast?_cons_cons] at last
          exact left y last

section Runs

variable [DecidableEq α]

/-- The first run is where the list begins. -/
theorem runs_head (sep : α) (n : Nat) (xs : List α) :
    ∃ s rest, runs sep n xs = (n, s) :: rest ∧ ∀ r ∈ rest, n < r.1 := by
  induction xs generalizing n with
  | nil => exact ⟨[], [], rfl, nofun⟩
  | cons x xs ih =>
      obtain ⟨s, rest, split, later⟩ := ih (n + 1)
      unfold runs
      split
      · refine ⟨[], runs sep (n + 1) xs, rfl, fun r member => ?_⟩
        rw [split] at member
        rcases List.mem_cons.mp member with rfl | member
        · exact Nat.lt_succ_self n
        · exact Nat.lt_trans (Nat.lt_succ_self n) (later r member)
      · rw [split]
        exact ⟨x :: s, rest, rfl, fun r member => Nat.lt_trans (Nat.lt_succ_self n) (later r member)⟩

/-- Without their places, the runs are the parts. -/
theorem runs_snd (sep : α) (n : Nat) (xs : List α) :
    (runs sep n xs).map Prod.snd = xs.splitOn sep := by
  induction xs generalizing n with
  | nil => rfl
  | cons x xs ih =>
      unfold List.splitOn at *
      rw [runs, List.splitOnP_cons_eq_if_modifyHead]
      by_cases same : x = sep
      · rw [if_pos same, if_pos (beq_iff_eq.mpr same), List.map_cons, ih]
      · obtain ⟨s, rest, split, -⟩ := runs_head sep (n + 1) xs
        rw [if_neg same, if_neg (by simpa using same), ← ih (n + 1), split]
        rfl

theorem mem_runs : (n + p, s) ∈ runs sep n xs ↔ IsRun sep xs p s := by
  induction xs generalizing n p s with
  | nil =>
      rw [IsRun.nil_iff, runs, List.mem_singleton, Prod.mk.injEq,
        Nat.add_eq_left]
  | cons x xs ih =>
      obtain ⟨first, rest, split, later⟩ := runs_head sep (n + 1) xs
      unfold runs
      split
      · rename_i same
        subst same
        rw [IsRun.cons_sep, List.mem_cons, Prod.mk.injEq]
        cases p with
        | zero =>
            constructor
            · rintro (⟨-, rfl⟩ | there)
              · exact .inl ⟨rfl, rfl⟩
              · rw [split] at there
                rcases List.mem_cons.mp there with here | there
                · have place := congrArg Prod.fst here
                  dsimp only at place
                  omega
                · have place := later _ there
                  dsimp only at place
                  omega
            · rintro (⟨-, rfl⟩ | ⟨p', wrong, -⟩)
              · exact .inl ⟨rfl, rfl⟩
              · omega
        | succ p =>
            rw [show n + (p + 1) = n + 1 + p by omega, ih]
            constructor
            · rintro (⟨wrong, -⟩ | there)
              · omega
              · exact .inr ⟨p, rfl, there⟩
            · rintro (⟨wrong, -⟩ | ⟨p', same, there⟩)
              · omega
              · obtain rfl := Nat.succ.inj same
                exact .inr there
      · rename_i other
        rw [IsRun.cons_other other, split]
        have inside : ∀ {s p}, (n + 1 + p, s) ∈ (n + 1, first) :: rest ↔ IsRun sep xs p s := by
          intro s p
          rw [← split]
          exact ih
        cases p with
        | zero =>
            have first' : ∀ s', (n + 1 + 0, s') ∈ (n + 1, first) :: rest ↔ s' = first := by
              intro s'
              constructor
              · intro there
                rcases List.mem_cons.mp there with here | there
                · exact (Prod.mk.inj here).2
                · exact absurd (later _ there) (Nat.lt_irrefl _)
              · rintro rfl
                exact List.mem_cons_self
            constructor
            · intro there
              rcases List.mem_cons.mp there with here | there
              · obtain ⟨-, rfl⟩ := Prod.mk.inj here
                exact .inl ⟨rfl, first, rfl, inside.mp ((first' first).mpr rfl)⟩
              · have place := later _ there
                dsimp only at place
                omega
            · rintro (⟨-, s', rfl, there⟩ | ⟨p', wrong, -⟩)
              · obtain rfl := (first' s').mp (inside.mpr there)
                exact List.mem_cons_self
              · omega
        | succ p =>
            constructor
            · intro there
              rcases List.mem_cons.mp there with here | there
              · have place := congrArg Prod.fst here
                dsimp only at place
                omega
              · have place := later _ there
                dsimp only at place
                refine .inr ⟨p, rfl, by omega, inside.mp ?_⟩
                rw [show n + 1 + p = n + (p + 1) by omega]
                exact List.mem_cons_of_mem _ there
            · rintro (⟨wrong, -⟩ | ⟨p', same, some, there⟩)
              · omega
              · obtain rfl := Nat.succ.inj same
                rcases List.mem_cons.mp (inside.mpr there) with here | there
                · have place := congrArg Prod.fst here
                  dsimp only at place
                  omega
                · rw [show n + 1 + p = n + (p + 1) by omega] at there
                  exact List.mem_cons_of_mem _ there

end Runs

end Aic8800.Lib.Runs
