import Mathlib.Data.List.Basic

/-! # Computations that leave a trace

A computation ends with a value or is broken off with an error. On the way it leaves a trace, and
what every event of the trace satisfies is told from the parts of the computation.
-/

namespace Aic8800.Lib

structure Traced (ε τ α : Type) where
  value : Except ε α
  trace : List τ

namespace Traced

variable {ε τ α β σ : Type} {P : τ → Prop} {m : Traced ε τ α} {f : α → Traced ε τ β}

def bind (m : Traced ε τ α) (f : α → Traced ε τ β) : Traced ε τ β :=
  match m.value with
  | .ok x => ⟨(f x).value, m.trace ++ (f x).trace⟩
  | .error e => ⟨.error e, m.trace⟩

instance : Monad (Traced ε τ) where
  pure x := ⟨.ok x, []⟩
  bind := bind

def emit (e : τ) : Traced ε τ Unit := ⟨.ok (), [e]⟩

def fail (e : ε) : Traced ε τ α := ⟨.error e, []⟩

/-- Break off with the error in this case. -/
def failIf (c : Prop) [Decidable c] (e : ε) : Traced ε τ Unit :=
  if c then fail e else pure ()

/-- Every event of the trace satisfies this. -/
def All (P : τ → Prop) (m : Traced ε τ α) : Prop := ∀ e ∈ m.trace, P e

@[simp] theorem value_pure (x : α) : (pure x : Traced ε τ α).value = .ok x := rfl

@[simp] theorem value_emit (e : τ) : (emit e : Traced ε τ Unit).value = .ok () := rfl

@[simp] theorem value_fail {e : ε} {x : α} : (fail e : Traced ε τ α).value = .ok x ↔ False := by
  simp [fail]

@[simp] theorem value_failIf {c : Prop} [Decidable c] {e : ε} {u : Unit} :
    (failIf c e : Traced ε τ Unit).value = .ok u ↔ ¬c := by
  unfold failIf
  split <;> simp [*]

/-- The value comes from the values of both parts. -/
@[simp] theorem value_bind {y : β} :
    (m >>= f).value = .ok y ↔ ∃ x, m.value = .ok x ∧ (f x).value = .ok y := by
  change (bind m f).value = .ok y ↔ _
  unfold bind
  cases m.value with
  | error e => simp
  | ok x => simp

@[simp] theorem value_ite {c : Prop} [Decidable c] {m n : Traced ε τ α} :
    (if c then m else n).value = if c then m.value else n.value :=
  apply_ite Traced.value c m n

@[simp] theorem all_pure (x : α) : (pure x : Traced ε τ α).All P := nofun

@[simp] theorem all_emit {e : τ} : (emit e : Traced ε τ Unit).All P ↔ P e := by
  simp [All, emit]

@[simp] theorem all_fail {e : ε} : (fail e : Traced ε τ α).All P := nofun

@[simp] theorem all_failIf {c : Prop} [Decidable c] {e : ε} :
    (failIf c e : Traced ε τ Unit).All P := by
  unfold failIf
  split <;> exact nofun

/-- The second part counts as far as it is reached. -/
@[simp] theorem all_bind :
    (m >>= f).All P ↔ m.All P ∧ ∀ x, m.value = .ok x → (f x).All P := by
  change (bind m f).All P ↔ _
  unfold bind All
  cases m.value with
  | error e => simp
  | ok x => simp [or_imp, forall_and]

@[simp] theorem all_ite {c : Prop} [Decidable c] {m n : Traced ε τ α} :
    (if c then m else n).All P ↔ if c then m.All P else n.All P := by
  split <;> rfl

/-- A loop none of whose turns breaks off is judged turn by turn, where what a turn leaves
    does not depend on the state it begins with. -/
theorem all_foldlM {turn : σ → α → Traced ε τ σ} {Q : α → Prop} {xs : List α}
    (ends : ∀ s x, ∃ t, (turn s x).value = .ok t)
    (turns : ∀ s x, x ∈ xs → ((turn s x).All P ↔ Q x)) (s : σ) :
    (xs.foldlM turn s).All P ↔ ∀ x ∈ xs, Q x := by
  induction xs generalizing s with
  | nil => simp
  | cons x xs ih =>
      obtain ⟨t, ended⟩ := ends s x
      have rest := ih (fun s y member => turns s y (List.mem_cons_of_mem x member)) t
      rw [List.foldlM_cons, all_bind, turns s x List.mem_cons_self, List.forall_mem_cons, ended]
      simp [rest]

end Traced

end Aic8800.Lib
