import Mathlib.Data.Nat.Init

/-! # Loops with a single head

A loop is a function that takes the state at its head to the state at the head one
turn later, or to `none` when the loop is left. Whether it is left at all and what
holds whenever it comes to its head are shown together, by one induction.
-/

namespace Aic8800.Lib.Loop

variable {σ : Type}

/-- The states in which a loop that starts in `s` comes to its head. -/
inductive Head (turn : σ → Option σ) (s : σ) : σ → Prop where
  | start : Head turn s s
  | next {t u : σ} : Head turn s t → turn t = some u → Head turn s u

/-- A loop that starts in the first state is left in the second. -/
inductive Exits (turn : σ → Option σ) : σ → σ → Prop where
  | leave {s : σ} : turn s = none → Exits turn s s
  | next {s t u : σ} : turn s = some t → Exits turn t u → Exits turn s u

/-- The loop is left, and what is `good` holds each time it comes to its head. -/
inductive Safe (turn : σ → Option σ) (good : σ → Prop) : σ → Prop where
  | leave {s : σ} : good s → turn s = none → Safe turn good s
  | next {s t : σ} : good s → turn s = some t → Safe turn good t → Safe turn good s

/-- Take at most `fuel` turns, and leave the loop. -/
def exec (turn : σ → Option σ) : Nat → σ → Option σ
  | 0, _ => none
  | fuel + 1, s =>
      match turn s with
      | none => some s
      | some t => exec turn fuel t

variable {turn : σ → Option σ} {good : σ → Prop} {s t u : σ}

theorem exec_leave (leaves : turn s = none) (fuel : Nat) : exec turn (fuel + 1) s = some s := by
  simp [exec, leaves]

theorem exec_next (taken : turn s = some t) (fuel : Nat) :
    exec turn (fuel + 1) s = exec turn fuel t := by
  simp [exec, taken]

theorem exits_of_exec {fuel : Nat} (left : exec turn fuel s = some t) : Exits turn s t := by
  induction fuel generalizing s with
  | zero => cases left
  | succ fuel ih =>
      unfold exec at left
      split at left
      · rename_i done
        obtain rfl := Option.some.inj left
        exact .leave done
      · rename_i taken
        exact .next taken (ih left)

/-- More turns than are needed make no difference. -/
theorem exec_mono {fuel n : Nat} (left : exec turn fuel s = some t) (more : fuel ≤ n) :
    exec turn n s = some t := by
  induction fuel generalizing s n with
  | zero => cases left
  | succ fuel ih =>
      obtain ⟨n, rfl⟩ := Nat.exists_eq_succ_of_ne_zero (Nat.ne_zero_of_lt more)
      unfold exec at left ⊢
      split at left
      · exact left
      · exact ih left (Nat.le_of_succ_le_succ more)

theorem Head.trans (first : Head turn s t) (second : Head turn t u) : Head turn s u := by
  induction second with
  | start => exact first
  | next _ taken ih => exact ih.next taken

theorem Head.exits (head : Head turn s t) (exits : Exits turn s u) : Exits turn t u := by
  induction head with
  | start => exact exits
  | next _ taken ih =>
      cases ih with
      | leave left => cases left.symm.trans taken
      | next taken' rest =>
          obtain rfl := Option.some.inj (taken.symm.trans taken')
          exact rest

theorem Exits.head (exits : Exits turn s t) : Head turn s t := by
  induction exits with
  | leave => exact .start
  | next taken _ ih => exact (Head.start.next taken).trans ih

theorem Exits.left (exits : Exits turn s t) : turn t = none := by
  induction exits with
  | leave left => exact left
  | next _ _ ih => exact ih

/-- It is left in one state. -/
theorem Exits.unique (exits : Exits turn s t) (exits' : Exits turn s u) : t = u := by
  cases exits.head.exits exits' with
  | leave => rfl
  | next taken => cases exits.left.symm.trans taken

/-- What no turn leads out of, and where the loop goes on, is not left. -/
theorem Exits.not_of_trap {trap : σ → Prop}
    (stays : ∀ s, trap s → ∃ t, turn s = some t ∧ trap t) (inside : trap s) : ¬Exits turn s t := by
  intro exits
  induction exits with
  | leave left =>
      obtain ⟨t, taken, -⟩ := stays _ inside
      cases left.symm.trans taken
  | next taken _ ih =>
      obtain ⟨t, taken', there⟩ := stays _ inside
      obtain rfl := Option.some.inj (taken.symm.trans taken')
      exact ih there

/-- A loop that is left is left after some number of turns. -/
theorem Exits.exec (exits : Exits turn s t) : ∃ fuel, ∀ n ≥ fuel, exec turn n s = some t := by
  induction exits with
  | leave left =>
      refine ⟨1, fun n enough => ?_⟩
      obtain ⟨n, rfl⟩ := Nat.exists_eq_succ_of_ne_zero (Nat.ne_zero_of_lt enough)
      exact exec_leave left n
  | next taken _ ih =>
      obtain ⟨fuel, ends⟩ := ih
      refine ⟨fuel + 1, fun n enough => ?_⟩
      obtain ⟨n, rfl⟩ := Nat.exists_eq_succ_of_ne_zero (Nat.ne_zero_of_lt enough)
      exact (exec_next taken n).trans (ends n (Nat.le_of_succ_le_succ enough))

theorem Safe.here (h : Safe turn good s) : good s := by
  cases h with
  | leave holds _ => exact holds
  | next holds _ _ => exact holds

theorem Safe.head (h : Safe turn good s) (head : Head turn s t) : Safe turn good t := by
  induction head with
  | start => exact h
  | next _ taken ih =>
      cases ih with
      | leave _ left => cases left.symm.trans taken
      | next _ taken' rest =>
          obtain rfl := Option.some.inj (taken.symm.trans taken')
          exact rest

theorem Safe.exits (h : Safe turn good s) : ∃ t, Exits turn s t := by
  induction h with
  | leave _ left => exact ⟨_, .leave left⟩
  | next _ taken _ ih =>
      obtain ⟨t, exits⟩ := ih
      exact ⟨t, .next taken exits⟩

theorem safe_iff :
    Safe turn good s ↔ (∃ t, Exits turn s t) ∧ ∀ t, Head turn s t → good t := by
  constructor
  · intro h
    exact ⟨h.exits, fun t head => (h.head head).here⟩
  · rintro ⟨⟨t, exits⟩, holds⟩
    induction exits with
    | leave left => exact .leave (holds _ .start) left
    | next taken _ ih =>
        apply Safe.next (holds _ .start) taken
        apply ih
        intro u head
        exact holds u ((Head.start.next taken).trans head)

end Aic8800.Lib.Loop
