import Mathlib.Data.List.Chain
import Mathlib.Data.List.Nodup
import Mathlib.Logic.Function.Basic
import Mathlib.Logic.Function.Iterate

/-! # Doubly linked rings

A list whose head is a node like those that it holds: the nodes and the head form a ring. What
such a ring holds is told by the links alone.
-/

namespace Aic8800.Lib.Rings

structure Links (α : Type) where
  next : α → α
  prev : α → α

variable {α : Type}

/-- One node comes right before the other. -/
def Links.Joined (l : Links α) (a b : α) : Prop := l.next a = b ∧ l.prev b = a

/-- From the head the links lead over these nodes, and back to the head. -/
structure Ring (l : Links α) (head : α) (xs : List α) : Prop where
  nodup : (head :: xs).Nodup
  chain : (head :: (xs ++ [head])).IsChain l.Joined

/-- Nodes stay joined if neither link between them changes. -/
theorem chain_congr {l l' : Links α} {xs : List α} (h : xs.IsChain l.Joined)
    (next : ∀ x ∈ xs.dropLast, l'.next x = l.next x)
    (prev : ∀ x ∈ xs.tail, l'.prev x = l.prev x) : xs.IsChain l'.Joined := by
  induction xs with
  | nil => exact .nil
  | cons x xs ih =>
      cases xs with
      | nil => exact .singleton x
      | cons y ys =>
          rw [List.isChain_cons_cons] at h ⊢
          refine ⟨⟨?_, ?_⟩, ih h.2 ?_ ?_⟩
          · rw [next x List.mem_cons_self, h.1.1]
          · rw [prev y List.mem_cons_self, h.1.2]
          · exact fun z member => next z (List.mem_cons_of_mem _ member)
          · exact fun z member => prev z (List.mem_cons_of_mem _ member)

/-- Following the links, one comes to the end of a chain. -/
theorem iterate_next {l : Links α} {x y : α} {xs : List α}
    (h : (x :: (xs ++ [y])).IsChain l.Joined) : l.next^[xs.length] (l.next x) = y := by
  induction xs generalizing x with
  | nil =>
      rw [List.nil_append, List.isChain_cons_cons] at h
      exact h.1.1
  | cons z xs ih =>
      rw [List.cons_append, List.isChain_cons_cons] at h
      rw [h.1.1, List.length_cons, Function.iterate_succ_apply]
      exact ih h.2

section Move

variable {l l' : Links α} {source target : α} {as bs cs : List α}

/-- The links of two rings, after the nodes `as` at the front of one have been moved to the end
    of the other. -/
structure Moved (l l' : Links α) (source target : α) (as bs cs : List α) : Prop where
  some : as ≠ []
  next : ∀ x, x ≠ source → x ∉ as.getLast? → x ∉ (target :: cs).getLast? → l'.next x = l.next x
  prev : ∀ x, x ≠ target → x ∉ as.head? → x ∉ (bs ++ [source]).head? → l'.prev x = l.prev x
  left : ∀ x ∈ (bs ++ [source]).head?, l'.Joined source x
  inner : ∀ x ∈ (target :: cs).getLast?, ∀ y ∈ as.head?, l'.Joined x y
  right : ∀ x ∈ as.getLast?, l'.Joined x target

theorem not_mem_getLast? {xs : List α} {x : α} (nodup : xs.Nodup) (member : x ∈ xs.dropLast) :
    x ∉ xs.getLast? := by
  intro last
  obtain ⟨some, rfl⟩ := List.mem_getLast?_eq_getLast last
  rw [← List.dropLast_append_getLast some, List.nodup_append] at nodup
  exact nodup.2.2 _ member _ (List.mem_singleton_self _) rfl

theorem not_mem_head? {xs : List α} {x : α} (nodup : xs.Nodup) (member : x ∈ xs.tail) :
    x ∉ xs.head? := by
  intro first
  cases xs with
  | nil => cases member
  | cons y ys =>
      obtain rfl : y = x := Option.some.inj first
      exact (List.nodup_cons.mp nodup).1 member

variable (moved : Moved l l' source target as bs cs) (from_ : Ring l source (as ++ bs))
  (to_ : Ring l target cs) (apart : (source :: (as ++ bs)).Disjoint (target :: cs))
include moved from_ to_ apart

/-- What is left of the first ring. -/
theorem Moved.ring_left : Ring l' source bs := by
  have parts := from_.nodup
  simp only [List.nodup_cons, List.nodup_append, List.mem_append, not_or] at parts
  obtain ⟨⟨notAs, notBs⟩, nodupAs, nodupBs, between⟩ := parts
  have last : (bs ++ [source]).Nodup := by
    rw [List.nodup_append]
    refine ⟨nodupBs, List.nodup_singleton _, ?_⟩
    rintro x member y head rfl
    exact notBs (List.mem_singleton.mp head ▸ member)
  refine ⟨List.nodup_cons.mpr ⟨notBs, nodupBs⟩, ?_⟩
  have chain := from_.chain
  rw [List.append_assoc, ← List.cons_append, List.isChain_append] at chain
  rw [← List.singleton_append, List.isChain_append]
  refine ⟨.singleton _, chain_congr chain.2.1 ?_ ?_, ?_⟩
  · intro x member
    rw [List.dropLast_concat] at member
    apply moved.next
    · rintro rfl
      exact notBs member
    · intro there
      exact between x (List.mem_of_getLast? there) x member rfl
    · intro there
      exact apart (List.mem_cons_of_mem _ (List.mem_append_right _ member))
        (List.mem_of_getLast? there)
  · intro x member
    have inside := List.mem_of_mem_tail member
    apply moved.prev
    · rintro rfl
      rcases List.mem_append.mp inside with there | there
      · exact apart (List.mem_cons_of_mem _ (List.mem_append_right _ there)) List.mem_cons_self
      · exact apart (List.mem_singleton.mp there ▸ List.mem_cons_self) List.mem_cons_self
    · intro there
      rcases List.mem_append.mp inside with inside | inside
      · exact between x (List.mem_of_mem_head? there) x inside rfl
      · exact notAs (List.mem_singleton.mp inside ▸ List.mem_of_mem_head? there)
    · exact not_mem_head? last member
  · intro x head
    obtain rfl : source = x := Option.some.inj head
    exact moved.left

/-- What the second ring holds then. -/
theorem Moved.ring_right : Ring l' target (cs ++ as) := by
  have parts := from_.nodup
  simp only [List.nodup_cons, List.nodup_append, List.mem_append, not_or] at parts
  obtain ⟨⟨notAs, notBs⟩, nodupAs, nodupBs, between⟩ := parts
  have far : ∀ x ∈ as, x ∉ target :: cs := fun x member =>
    apart (List.mem_cons_of_mem _ (List.mem_append_left _ member))
  constructor
  · rw [← List.cons_append, List.nodup_append]
    refine ⟨to_.nodup, nodupAs, ?_⟩
    rintro x there y here rfl
    exact far x here there
  · have chain := to_.chain
    have moving := from_.chain
    rw [← List.cons_append, List.isChain_append] at chain
    rw [List.append_assoc, ← List.cons_append, List.isChain_append, ← List.singleton_append,
      List.isChain_append] at moving
    rw [List.append_assoc, ← List.cons_append, List.isChain_append, List.isChain_append]
    refine ⟨chain_congr chain.1 ?_ ?_, ⟨chain_congr moving.1.2.1 ?_ ?_, .singleton _, ?_⟩, ?_⟩
    · intro x member
      have there := List.dropLast_subset _ member
      apply moved.next
      · rintro rfl
        exact apart List.mem_cons_self there
      · intro last
        exact far x (List.mem_of_getLast? last) there
      · exact not_mem_getLast? to_.nodup member
    · intro x member
      have there : x ∈ target :: cs := List.mem_cons_of_mem _ member
      apply moved.prev
      · rintro rfl
        exact (List.nodup_cons.mp to_.nodup).1 member
      · intro first
        exact far x (List.mem_of_mem_head? first) there
      · intro first
        rcases List.mem_append.mp (List.mem_of_mem_head? first) with here | here
        · exact apart (List.mem_cons_of_mem _ (List.mem_append_right _ here)) there
        · exact apart (List.mem_singleton.mp here ▸ List.mem_cons_self) there
    · intro x member
      have here := List.dropLast_subset _ member
      apply moved.next
      · rintro rfl
        exact notAs here
      · exact not_mem_getLast? nodupAs member
      · intro last
        exact far x here (List.mem_of_getLast? last)
    · intro x member
      have here := List.mem_of_mem_tail member
      apply moved.prev
      · rintro rfl
        exact far x here List.mem_cons_self
      · exact not_mem_head? nodupAs member
      · intro first
        rcases List.mem_append.mp (List.mem_of_mem_head? first) with there | there
        · exact between x here x there rfl
        · exact notAs (List.mem_singleton.mp there ▸ here)
    · intro x last y head
      obtain rfl : target = y := Option.some.inj head
      exact moved.right x last
    · intro x last y first
      rw [List.head?_append_of_ne_nil _ moved.some] at first
      exact moved.inner x last y first

end Move

end Aic8800.Lib.Rings
