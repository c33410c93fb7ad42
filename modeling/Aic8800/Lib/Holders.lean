import Mathlib.Logic.Function.Basic

/-! # Entries of a table and their holders

The entries of a table are handed out: each that is in use has one holder, and a flag says
that it is in use. An entry in use has the use of some queues, which are its own.
-/

namespace Aic8800.Lib.Holders

variable {η ι κ : Type}

/-- The flags say which entries are held, and nothing is held twice. -/
structure Tracked (valid : ι → Bool) (holds : η → ι → Prop) : Prop where
  exclusive : ∀ {h k i}, holds h i → holds k i → h = k
  held : ∀ i, valid i = true ↔ ∃ h, holds h i

section Tracked

variable {valid : ι → Bool} {holds holds' : η → ι → Prop} {h : η} {i : ι}

theorem Tracked.valid_of_holds (t : Tracked valid holds) (mine : holds h i) : valid i = true :=
  (t.held i).mpr ⟨h, mine⟩

/-- Nothing holds an entry that is not in use. -/
theorem Tracked.not_holds (t : Tracked valid holds) (free : valid i = false) : ¬ holds h i := by
  intro mine
  cases free.symm.trans (t.valid_of_holds mine)

theorem Tracked.congr (t : Tracked valid holds) (same : ∀ k j, holds' k j ↔ holds k j) :
    Tracked valid holds' where
  exclusive := fun a b => t.exclusive ((same ..).mp a) ((same ..).mp b)
  held := fun j => (t.held j).trans (exists_congr fun k => (same k j).symm)

variable [DecidableEq ι]

/-- An entry that is not in use is handed out. -/
theorem Tracked.take (t : Tracked valid holds) (free : valid i = false)
    (now : ∀ k j, holds' k j ↔ holds k j ∨ k = h ∧ j = i) :
    Tracked (Function.update valid i true) holds' := by
  constructor
  · intro k l j first second
    rcases (now k j).mp first with before | ⟨rfl, rfl⟩
    · rcases (now l j).mp second with before' | ⟨_, rfl⟩
      · exact t.exclusive before before'
      · exact absurd before (t.not_holds free)
    · rcases (now l j).mp second with before' | ⟨rfl, _⟩
      · exact absurd before' (t.not_holds free)
      · rfl
  · intro j
    by_cases same : j = i
    · subst same
      rw [Function.update_self]
      exact ⟨fun _ => ⟨h, (now h j).mpr (.inr ⟨rfl, rfl⟩)⟩, fun _ => rfl⟩
    · rw [Function.update_of_ne same, t.held]
      apply exists_congr
      intro k
      rw [now]
      simp [same]

/-- The holder of an entry gives it back. -/
theorem Tracked.drop (t : Tracked valid holds) (mine : holds h i)
    (now : ∀ k j, holds' k j ↔ holds k j ∧ ¬ (k = h ∧ j = i)) :
    Tracked (Function.update valid i false) holds' := by
  constructor
  · intro k l j first second
    exact t.exclusive ((now k j).mp first).1 ((now l j).mp second).1
  · intro j
    by_cases same : j = i
    · subst same
      rw [Function.update_self]
      refine ⟨fun wrong => (by cases wrong), ?_⟩
      rintro ⟨k, still⟩
      obtain ⟨before, other⟩ := (now k j).mp still
      exact absurd ⟨t.exclusive before mine, rfl⟩ other
    · rw [Function.update_of_ne same, t.held]
      apply exists_congr
      intro k
      rw [now]
      simp [same]

end Tracked

/-- A queue has been given to an entry exactly when the entry is in use and the queue is its own. -/
def Leased (valid : ι → Bool) (queues : ι → List κ) (lease : κ → Option ι) : Prop :=
  ∀ q i, lease q = some i ↔ valid i = true ∧ q ∈ queues i

section Leased

variable {valid : ι → Bool} {queues queues' : ι → List κ} {lease lease' : κ → Option ι} {i : ι}
  {q : κ}

/-- A queue that no entry in use calls its own is not given to any. -/
theorem Leased.unused (l : Leased valid queues lease)
    (alone : ∀ j, valid j = true → q ∉ queues j) : lease q = none := by
  cases given : lease q with
  | none => rfl
  | some j =>
      obtain ⟨used, own⟩ := (l q j).mp given
      exact absurd own (alone j used)

variable [DecidableEq ι] [DecidableEq κ]

/-- An entry that is handed out is given its queues, which nothing else used. -/
theorem Leased.take (l : Leased valid queues lease) (free : valid i = false)
    (others : ∀ j, j ≠ i → queues' j = queues j) (unused : ∀ q ∈ queues' i, lease q = none)
    (now : ∀ q, lease' q = if q ∈ queues' i then some i else lease q) :
    Leased (Function.update valid i true) queues' lease' := by
  intro q j
  rw [now]
  by_cases same : j = i
  · subst same
    rw [Function.update_self]
    by_cases own : q ∈ queues' j
    · simp [own]
    · simp [own, l q j, free]
  · rw [Function.update_of_ne same, others j same]
    by_cases own : q ∈ queues' i
    · have apart : ¬ (valid j = true ∧ q ∈ queues j) := by
        rw [← l q j, unused q own]
        simp
      simp [own, apart, Ne.symm same]
    · rw [if_neg own]
      exact l q j

/-- An entry that is given back gives back its queues. -/
theorem Leased.drop (l : Leased valid queues lease) (used : valid i = true)
    (now : ∀ q, lease' q = if q ∈ queues i then none else lease q) :
    Leased (Function.update valid i false) queues lease' := by
  intro q j
  rw [now]
  by_cases same : j = i
  · subst same
    rw [Function.update_self]
    by_cases own : q ∈ queues j
    · simp [own]
    · simp [own, l q j]
  · rw [Function.update_of_ne same]
    by_cases own : q ∈ queues i
    · simp only [own, if_true, reduceCtorEq, false_iff, not_and]
      intro used' own'
      -- one that uses the queue too would be the same
      cases ((l q j).mpr ⟨used', own'⟩).symm.trans ((l q i).mpr ⟨used, own⟩)
      exact same rfl
    · rw [if_neg own]
      exact l q j

end Leased

end Aic8800.Lib.Holders
