import Mathlib.Data.List.Basic

/-! # Runs of labelled step functions

A system is a function that takes a state and a label to the next state, or to
`none` when the label is not enabled. A guard restricts which steps a run may
take; the unrestricted runs are those of the guard that is always true.
-/

namespace Aic8800.Lib.Run

variable {σ ℓ : Type} {step : σ → ℓ → Option σ} {guard : σ → ℓ → Prop} {start : σ}

/-- The states reached from `start` by enabled steps that meet the guard. -/
inductive Reachable (step : σ → ℓ → Option σ) (guard : σ → ℓ → Prop) (start : σ) : σ → Prop where
  | init : Reachable step guard start start
  | next {s t : σ} (l : ℓ) : Reachable step guard start s → guard s l → step s l = some t →
      Reachable step guard start t

/-- The guard of a run that is not restricted at all. -/
def Free (_ : σ) (_ : ℓ) : Prop := True

/-- What holds at the start and survives every guarded step holds throughout. -/
theorem Reachable.invariant (good : σ → Prop) (base : good start)
    (keep : ∀ s l t, good s → guard s l → step s l = some t → good t) {s : σ}
    (h : Reachable step guard start s) : good s := by
  induction h with
  | init => exact base
  | next l _ allowed taken ih => exact keep _ l _ ih allowed taken

/-- A step in front of a run -/
theorem Reachable.head {s t u : σ} (l : ℓ) (allowed : guard s l) (taken : step s l = some t)
    (h : Reachable step guard t u) : Reachable step guard s u := by
  induction h with
  | init => exact .next l .init allowed taken
  | next l' _ allowed' taken' ih => exact .next l' ih allowed' taken'

/-- In a run of these steps, each that is come to is of this kind. -/
def Along (step : σ → ℓ → Option σ) (kind : σ → ℓ → Prop) : σ → List ℓ → Prop
  | _, [] => True
  | s, l :: ls => kind s l ∧ ∀ t, step s l = some t → Along step kind t ls

/-- Two kinds of steps make the same runs if they agree where an invariant holds, which the steps
    of the kind keep. -/
theorem along_iff {kind kind' : σ → ℓ → Prop} (good : σ → Prop)
    (agree : ∀ s l, good s → (kind s l ↔ kind' s l))
    (keep : ∀ s l t, good s → kind s l → step s l = some t → good t) (ls : List ℓ) {s : σ}
    (base : good s) : Along step kind s ls ↔ Along step kind' s ls := by
  induction ls generalizing s with
  | nil => exact Iff.rfl
  | cons l ls ih =>
      rw [Along, Along, ← agree s l base]
      refine and_congr_right fun first => ?_
      exact forall_congr' fun t => forall_congr' fun taken => ih (keep s l t base first taken)

/-- Execute a list of labels in order. -/
def exec (step : σ → ℓ → Option σ) : σ → List ℓ → Option σ
  | s, [] => some s
  | s, l :: ls => (step s l).bind (exec step · ls)

/-- Whether every step of an execution meets a decidable guard. -/
def allowed (step : σ → ℓ → Option σ) (guard : σ → ℓ → Bool) : σ → List ℓ → Bool
  | _, [] => true
  | s, l :: ls => guard s l && (step s l).elim true (allowed step guard · ls)

theorem Reachable.exec (labels : List ℓ) {s t : σ} (h : Reachable step Free start s)
    (run : exec step s labels = some t) : Reachable step Free start t := by
  induction labels generalizing s with
  | nil =>
      obtain rfl := Option.some.inj run
      exact h
  | cons l ls ih =>
      obtain ⟨u, taken, rest⟩ := Option.bind_eq_some_iff.mp run
      exact ih (.next l h trivial taken) rest

theorem Reachable.exec_guarded {check : σ → ℓ → Bool} (sound : ∀ s l, check s l = true → guard s l)
    (labels : List ℓ) {s t : σ} (h : Reachable step guard start s)
    (run : Run.exec step s labels = some t) (ok : allowed step check s labels = true) :
    Reachable step guard start t := by
  induction labels generalizing s with
  | nil =>
      obtain rfl := Option.some.inj run
      exact h
  | cons l ls ih =>
      obtain ⟨u, taken, rest⟩ := Option.bind_eq_some_iff.mp run
      simp only [allowed, Bool.and_eq_true, taken, Option.elim_some] at ok
      exact ih (.next l h (sound s l ok.1) taken) rest ok.2

end Aic8800.Lib.Run
