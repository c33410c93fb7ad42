import Aic8800.Lib.Run

/-! # Threads over a shared state

A program is run by any number of threads, each at a point of its own code. A
step is an event from outside, which may start a thread, or one atomic action of
one thread, with a choice where the action can end in more than one way. Threads
at the same point with the same data are interchangeable, so a configuration
lists them without names. The invariant rule is that of assertions at program
points: each action establishes the assertion of the point it moves to, and
disturbs no assertion of another thread.
-/

namespace Aic8800.Lib.Threads

open Run

structure Config (σ θ : Type) where
  shared : σ
  threads : List θ
  deriving DecidableEq

inductive Label (ε θ κ : Type) where
  | event (e : ε)
  | run (t : θ) (choice : κ)
  deriving DecidableEq

/-- What an event and an action do, given the other threads: the new shared
    state, with the thread started or the point moved to, if any. -/
structure Program (σ θ ε κ : Type) where
  event : σ → List θ → ε → Option (σ × Option θ)
  action : σ → List θ → θ → κ → Option (σ × Option θ)

variable {σ θ ε κ : Type}

def Program.step [DecidableEq θ] (p : Program σ θ ε κ) (c : Config σ θ) :
    Label ε θ κ → Option (Config σ θ)
  | .event e => (p.event c.shared c.threads e).map fun next =>
      ⟨next.1, next.2.toList ++ c.threads⟩
  | .run t choice =>
      if t ∈ c.threads then
        (p.action c.shared (c.threads.erase t) t choice).map fun next =>
          ⟨next.1, next.2.toList ++ c.threads.erase t⟩
      else none

/-- What a step has to show of the thread that it leads on, if that is known. -/
theorem moves {P : θ → Prop} {t : θ} (h : P t) : ∀ u ∈ some t, P u := by
  intro u same
  obtain rfl := Option.mem_some.mp same
  exact h

/-- What holds of a state and its threads as a whole, and of each thread. -/
structure Proof (σ θ : Type) where
  whole : σ → List θ → Prop
  point : σ → θ → Prop

namespace Proof

def Holds (i : Proof σ θ) (s : σ) (ts : List θ) : Prop := i.whole s ts ∧ ∀ t ∈ ts, i.point s t

/-- The result of a step, when `others` are the threads that did not move. -/
def Keeps (i : Proof σ θ) (others : List θ) (next : σ × Option θ) : Prop :=
  i.whole next.1 (next.2.toList ++ others) ∧ (∀ t ∈ next.2, i.point next.1 t) ∧
    ∀ t ∈ others, i.point next.1 t

theorem Keeps.holds {i : Proof σ θ} {others : List θ} {next : σ × Option θ}
    (h : i.Keeps others next) : i.Holds next.1 (next.2.toList ++ others) := by
  obtain ⟨whole, moved, rest⟩ := h
  refine ⟨whole, fun t member => ?_⟩
  rcases List.mem_append.mp member with new | other
  · exact moved t (Option.mem_toList.mp new)
  · exact rest t other

/-- Two proofs of one program side by side. -/
def and (i j : Proof σ θ) : Proof σ θ :=
  ⟨fun s ts => i.whole s ts ∧ j.whole s ts, fun s t => i.point s t ∧ j.point s t⟩

theorem Holds.left {i j : Proof σ θ} {s : σ} {ts : List θ} (h : (i.and j).Holds s ts) :
    i.Holds s ts := ⟨h.1.1, fun t member => (h.2 t member).1⟩

theorem Holds.right {i j : Proof σ θ} {s : σ} {ts : List θ} (h : (i.and j).Holds s ts) :
    j.Holds s ts := ⟨h.1.2, fun t member => (h.2 t member).2⟩

theorem Keeps.and {i j : Proof σ θ} {others : List θ} {next : σ × Option θ}
    (h : i.Keeps others next) (k : j.Keeps others next) : (i.and j).Keeps others next :=
  ⟨⟨h.1, k.1⟩, fun t new => ⟨h.2.1 t new, k.2.1 t new⟩,
    fun t other => ⟨h.2.2 t other, k.2.2 t other⟩⟩

/-- The rule of assertions at program points. -/
theorem invariant [DecidableEq θ] {p : Program σ θ ε κ}
    {guard : Config σ θ → Label ε θ κ → Prop} {s₀ : σ} (i : Proof σ θ)
    (order : ∀ {s ts us}, List.Perm ts us → i.whole s ts → i.whole s us)
    (base : i.whole s₀ [])
    (event : ∀ c e next, i.Holds c.shared c.threads → guard c (.event e) →
      p.event c.shared c.threads e = some next → i.Keeps c.threads next)
    (action : ∀ c t choice next, i.Holds c.shared (t :: c.threads.erase t) →
      guard c (.run t choice) → p.action c.shared (c.threads.erase t) t choice = some next →
      i.Keeps (c.threads.erase t) next)
    {c : Config σ θ} (h : Reachable p.step guard ⟨s₀, []⟩ c) : i.Holds c.shared c.threads := by
  apply h.invariant fun c => i.Holds c.shared c.threads
  · exact ⟨base, fun t member => by cases member⟩
  · intro c label c' holds allowed taken
    cases label with
    | event e =>
        obtain ⟨next, went, rfl⟩ := Option.map_eq_some_iff.mp taken
        exact (event c e next holds allowed went).holds
    | run t choice =>
        simp only [Program.step] at taken
        split at taken
        · rename_i member
          obtain ⟨next, went, rfl⟩ := Option.map_eq_some_iff.mp taken
          have same := List.perm_cons_erase member
          refine (action c t choice next ⟨order same holds.1, fun u other => ?_⟩ allowed went).holds
          exact holds.2 u (same.mem_iff.mpr other)
        · cases taken

end Proof

end Aic8800.Lib.Threads
