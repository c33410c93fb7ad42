import Mathlib.Data.List.Perm.Basic
import Mathlib.Data.List.Nodup

/-! # A ledger of things that are handed out

Things are numbered as they are issued, and settled one by one, each in some way.
The ledger accounts for what is held when everything that was issued is held once or
settled once.
-/

namespace Aic8800.Lib

/-- How many things were issued, and which are settled, with the way they were. -/
structure Ledger (ω : Type) where
  issued : Nat
  settled : List (Nat × ω)

namespace Ledger

variable {ω : Type} {l : Ledger ω} {held other : List Nat} {n : Nat}

def empty : Ledger ω := ⟨0, []⟩

def issue (l : Ledger ω) : Ledger ω := { l with issued := l.issued + 1 }

def settle (l : Ledger ω) (n : Nat) (way : ω) : Ledger ω := { l with settled := l.settled ++ [(n, way)] }

/-- Issue several things at once. -/
def issues (l : Ledger ω) (count : Nat) : Ledger ω := { l with issued := l.issued + count }

/-- Settle several things at once, each in its way. -/
def settles (l : Ledger ω) (ways : List (Nat × ω)) : Ledger ω :=
  { l with settled := l.settled ++ ways }

@[simp] theorem issue_issued (l : Ledger ω) : l.issue.issued = l.issued + 1 := rfl

@[simp] theorem issue_settled (l : Ledger ω) : l.issue.settled = l.settled := rfl

@[simp] theorem settle_issued (l : Ledger ω) (n : Nat) (way : ω) : (l.settle n way).issued = l.issued := rfl

def Accounts (l : Ledger ω) (held : List Nat) : Prop :=
  (held ++ l.settled.map Prod.fst).Perm (List.range l.issued)

namespace Accounts

theorem empty : (Ledger.empty : Ledger ω).Accounts [] := List.Perm.refl _

theorem perm (h : l.Accounts held) (same : held.Perm other) : l.Accounts other :=
  (same.symm.append_right _).trans h

theorem issue (h : l.Accounts held) : l.issue.Accounts (l.issued :: held) := by
  have more : (l.issued :: (held ++ l.settled.map Prod.fst)).Perm (l.issued :: List.range l.issued) :=
    h.cons _
  have range : (l.issued :: List.range l.issued).Perm (List.range (l.issued + 1)) := by
    rw [List.range_succ]
    exact (List.perm_append_singleton _ _).symm
  exact more.trans range

theorem settle (h : l.Accounts (n :: held)) (way : ω) : (l.settle n way).Accounts held := by
  have moved : (held ++ (l.settled ++ [(n, way)]).map Prod.fst).Perm
      (n :: held ++ l.settled.map Prod.fst) := by
    rw [List.map_append, ← List.append_assoc]
    exact List.perm_append_singleton _ _
  exact moved.trans h

theorem issues (h : l.Accounts held) (count : Nat) :
    (l.issues count).Accounts (List.range' l.issued count ++ held) := by
  induction count with
  | zero => exact h
  | succ count ih =>
      have last : (List.range' l.issued (count + 1) ++ held).Perm
          ((l.issued + count) :: (List.range' l.issued count ++ held)) := by
        rw [List.range'_concat, Nat.one_mul, List.append_assoc]
        exact List.perm_middle
      exact ih.issue.perm last.symm

theorem settles {ways : List (Nat × ω)} (h : l.Accounts (ways.map Prod.fst ++ held)) :
    (l.settles ways).Accounts held := by
  have moved : (held ++ (l.settled ++ ways).map Prod.fst).Perm
      (ways.map Prod.fst ++ held ++ l.settled.map Prod.fst) := by
    rw [List.map_append, List.append_assoc, ← List.append_assoc]
    exact List.perm_append_comm
  exact moved.trans h

theorem lt_issued (h : l.Accounts held) (member : n ∈ held) : n < l.issued := by
  have inside : n ∈ List.range l.issued := h.subset (List.mem_append_left _ member)
  exact List.mem_range.mp inside

theorem length (h : l.Accounts held) : held.length + l.settled.length = l.issued := by
  have same := List.Perm.length_eq h
  rw [List.length_append, List.length_map, List.length_range] at same
  exact same

/-- Nothing is settled twice, or held twice, or held after it was settled. -/
theorem nodup (h : l.Accounts held) : (held ++ l.settled.map Prod.fst).Nodup :=
  h.nodup_iff.mpr List.nodup_range

theorem held_or_settled (h : l.Accounts held) :
    n < l.issued ↔ n ∈ held ∨ n ∈ l.settled.map Prod.fst := by
  have same : n ∈ held ++ l.settled.map Prod.fst ↔ n ∈ List.range l.issued := List.Perm.mem_iff h
  rw [← List.mem_range, ← same, List.mem_append]

end Accounts

end Ledger

end Aic8800.Lib
