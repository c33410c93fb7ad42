import Mathlib.Data.Fintype.Card
import Mathlib.Data.List.Nodup
import Mathlib.Logic.Function.Basic

/-! # A pool of slots for keys

A slot is first given to a caller and put to use for a key by a later action of
that caller. The pool counts the slots that are taken in either way and
remembers at most one slot that is free. The slots of a sound pool are told
apart: none is given twice, and no key has two.
-/

namespace Aic8800.Lib

variable {ι κ : Type}

structure Pool (ι κ : Type) where
  key : ι → Option κ
  given : List ι
  count : Int
  cache : Option ι

namespace Pool

def taken [DecidableEq ι] (p : Pool ι κ) (i : ι) : Bool := (p.key i).isSome || p.given.contains i

/-- A slot that was in use is free again. -/
def release [DecidableEq ι] (p : Pool ι κ) (i : ι) : Pool ι κ :=
  { p with key := Function.update p.key i none, count := p.count - 1, cache := some i }

def give (p : Pool ι κ) (i : ι) : Pool ι κ :=
  { p with given := i :: p.given, count := p.count + 1, cache := none }

/-- A slot that was given is put to use. -/
def use [DecidableEq ι] (p : Pool ι κ) (i : ι) (k : κ) : Pool ι κ :=
  { p with key := Function.update p.key i (some k), given := p.given.erase i }

/-- A slot that was given is not put to use after all, and is counted all the same. -/
def forget [DecidableEq ι] (p : Pool ι κ) (i : ι) : Pool ι κ := { p with given := p.given.erase i }

variable [DecidableEq ι]

theorem taken_iff {p : Pool ι κ} {i : ι} : p.taken i = true ↔ p.key i ≠ none ∨ i ∈ p.given := by
  simp [taken, Option.isSome_iff_ne_none]

theorem free_iff {p : Pool ι κ} {i : ι} : p.taken i = false ↔ p.key i = none ∧ i ∉ p.given := by
  simp [taken]

variable [Fintype ι]

structure Sound (p : Pool ι κ) : Prop where
  counted : p.count = (Finset.univ.filter fun i => p.taken i = true).card
  cached : ∀ i, p.cache = some i → p.taken i = false
  once : p.given.Nodup
  unused : ∀ i ∈ p.given, p.key i = none
  keys : ∀ i j k, p.key i = some k → p.key j = some k → i = j

variable {p : Pool ι κ} {i : ι} {k : κ}

namespace Sound

/-- The count stays within the number of slots. -/
theorem bounded (h : p.Sound) : 0 ≤ p.count ∧ p.count ≤ Fintype.card ι := by
  have few := Finset.card_le_univ (Finset.univ.filter fun i => p.taken i = true)
  rw [h.counted]
  omega

theorem perm {q : Pool ι κ} (h : p.Sound) (key : q.key = p.key) (count : q.count = p.count)
    (cache : q.cache = p.cache) (given : q.given.Perm p.given) : q.Sound := by
  have taken : ∀ i, q.taken i = p.taken i := by
    intro i
    simp only [Pool.taken, key, given.contains_eq]
  constructor
  · simp only [count, taken, h.counted]
  · intro i cached
    rw [taken]
    exact h.cached i (cache ▸ cached)
  · exact given.nodup_iff.mpr h.once
  · intro i member
    rw [key]
    exact h.unused i (given.mem_iff.mp member)
  · rw [key]
    exact h.keys

theorem release (h : p.Sound) (used : p.key i ≠ none) : (p.release i).Sound := by
  have fresh : i ∉ p.given := fun member => used (h.unused i member)
  have taken : (Finset.univ.filter fun j => (p.release i).taken j = true) =
      (Finset.univ.filter fun j => p.taken j = true).erase i := by
    ext j
    simp only [Finset.mem_filter, Finset.mem_univ, true_and, Finset.mem_erase, taken_iff]
    by_cases same : j = i
    · subst same
      simp [Pool.release, fresh]
    · simp [Pool.release, same]
  have before : i ∈ Finset.univ.filter fun j => p.taken j = true := by
    simp only [Finset.mem_filter, Finset.mem_univ, true_and, taken_iff]
    exact .inl used
  have some := Finset.card_pos.mpr ⟨i, before⟩
  constructor
  · rw [taken, Finset.card_erase_of_mem before]
    have counted := h.counted
    simp only [Pool.release]
    omega
  · intro j cached
    obtain rfl := Option.some.inj cached
    exact free_iff.mpr ⟨Function.update_self .., fresh⟩
  · exact h.once
  · intro j member
    have other : j ≠ i := fun same => fresh (same ▸ member)
    exact (Function.update_of_ne other ..).trans (h.unused j member)
  · intro a b k left right
    have used : ∀ c, (p.release i).key c = Option.some k → p.key c = Option.some k := by
      intro c holds
      by_cases same : c = i
      · subst same
        simp [Pool.release] at holds
      · simpa [Pool.release, same] using holds
    exact h.keys a b k (used a left) (used b right)

theorem give (h : p.Sound) (free : p.taken i = false) : (p.give i).Sound := by
  obtain ⟨unused, fresh⟩ := free_iff.mp free
  have taken : (Finset.univ.filter fun j => (p.give i).taken j = true) =
      insert i (Finset.univ.filter fun j => p.taken j = true) := by
    ext j
    simp only [Finset.mem_filter, Finset.mem_univ, true_and, Finset.mem_insert, taken_iff,
      Pool.give, List.mem_cons]
    tauto
  constructor
  · rw [taken, Finset.card_insert_of_notMem (by simp [free])]
    have counted := h.counted
    simp only [Pool.give]
    omega
  · intro j cached
    cases cached
  · exact List.nodup_cons.mpr ⟨fresh, h.once⟩
  · intro j member
    cases List.mem_cons.mp member with
    | inl here => exact here ▸ unused
    | inr other => exact h.unused j other
  · exact h.keys

/-- A slot is given to one caller only if it was free. -/
theorem give_iff (h : p.Sound) : (p.give i).Sound ↔ p.taken i = false := by
  refine ⟨fun after => free_iff.mpr ⟨?_, ?_⟩, h.give⟩
  · exact after.unused i List.mem_cons_self
  · exact (List.nodup_cons.mp after.once).1

theorem use (h : p.Sound) (mine : i ∈ p.given) (fresh : ∀ j, p.key j ≠ some k) :
    (p.use i k).Sound := by
  have gone : i ∉ p.given.erase i := h.once.not_mem_erase
  have taken : ∀ j, (p.use i k).taken j = p.taken j := by
    intro j
    by_cases same : j = i
    · subst same
      simp [Pool.taken, Pool.use, mine]
    · simp [Pool.taken, Pool.use, same, List.mem_erase_of_ne same]
  have keyed : ∀ j, (p.use i k).key j = if j = i then some k else p.key j := by
    intro j
    simp only [Pool.use, Function.update_apply]
  constructor
  · simp only [taken]
    exact h.counted
  · intro j cached
    rw [taken]
    exact h.cached j cached
  · exact h.once.erase i
  · intro j member
    have other : j ≠ i := fun same => gone (same ▸ member)
    rw [keyed, if_neg other]
    exact h.unused j (List.mem_of_mem_erase member)
  · intro a b k' left right
    rw [keyed] at left right
    split at left
    · rename_i here
      split at right
      · rename_i there
        exact here.trans there.symm
      · exact absurd right (Option.some.inj left ▸ fresh b)
    · split at right
      · exact absurd left (Option.some.inj right ▸ fresh a)
      · exact h.keys a b k' left right

/-- A given slot is put to use only for a key that has none. -/
theorem use_iff (h : p.Sound) (mine : i ∈ p.given) :
    (p.use i k).Sound ↔ ∀ j, p.key j ≠ some k := by
  refine ⟨fun after j held => ?_, h.use mine⟩
  have other : j ≠ i := by
    intro same
    have unused := h.unused i mine
    rw [← same, held] at unused
    cases unused
  have here : (p.use i k).key i = some k := Function.update_self ..
  have there : (p.use i k).key j = some k := (Function.update_of_ne other ..).trans held
  exact other (after.keys j i k there here)

/-- The count of a forgotten slot is never taken back. -/
theorem forget (h : p.Sound) (mine : i ∈ p.given) : ¬ (p.forget i).Sound := by
  intro after
  have gone : (p.forget i).taken i = false :=
    free_iff.mpr ⟨h.unused i mine, h.once.not_mem_erase⟩
  have fewer : (Finset.univ.filter fun j => (p.forget i).taken j = true).card <
      (Finset.univ.filter fun j => p.taken j = true).card := by
    apply Finset.card_lt_card
    rw [Finset.ssubset_iff_of_subset]
    · refine ⟨i, ?_, ?_⟩
      · simp only [Finset.mem_filter, Finset.mem_univ, true_and, taken_iff]
        exact .inr mine
      · simp [gone]
    · intro j member
      simp only [Finset.mem_filter, Finset.mem_univ, true_and, taken_iff] at member ⊢
      exact member.imp_right List.mem_of_mem_erase
  have same : (p.forget i).count = p.count := rfl
  have before := h.counted
  have later := after.counted
  omega

end Sound

end Pool

end Aic8800.Lib
