import Aic8800.Lib.Cells
import Mathlib.Data.List.Basic

/-! # Pointers into a text

A pointer is told by the memory from where it points to on, up to the end of the object. Reading on
behind the end has no result. The functions here stop at `zero` at the latest, and read a text
`t ++ zero :: rest` as the operations on lists do that have the same effect on `t`.
-/

namespace Aic8800.Lib.Texts

variable {α : Type} {p : α → Bool} {zero sep : α} {t s a xs lit : List α}

/-- `while (p(*s)) s++`, with what was passed -/
def span (p : α → Bool) : List α → Option (List α × List α)
  | [] => none
  | x :: s =>
      if p x then
        match span p s with
        | none => none
        | some (passed, s) => some (x :: passed, s)
      else some ([], x :: s)

/-- `while (p(*s)) s++` -/
def skip (p : α → Bool) (s : List α) : Option (List α) := (span p s).map Prod.snd

/-- `while (p(*s)) a[i++] = *s++` -/
def load (p : α → Bool) (a : List α) (i : Nat) : List α → Option (List α × List α)
  | [] => none
  | x :: s =>
      if p x then
        match Cells.store a i x with
        | none => none
        | some a => load p a (i + 1) s
      else some (a, x :: s)

@[simp] theorem span_text (stops : p zero = false) (t rest : List α) :
    span p (t ++ zero :: rest) = some (t.takeWhile p, t.dropWhile p ++ zero :: rest) := by
  induction t with
  | nil => simp [span, stops]
  | cons x t ih =>
      rw [List.cons_append, span]
      cases inside : p x with
      | true => simp [ih, inside]
      | false => simp [inside]

theorem skip_text (stops : p zero = false) (t rest : List α) :
    skip p (t ++ zero :: rest) = some (t.dropWhile p ++ zero :: rest) := by
  rw [skip, span_text stops]
  rfl

theorem load_fill (stops : p zero = false) (xs t rest : List α) (fits : xs.length ≤ a.length) :
    load p (Cells.fill xs a) xs.length (t ++ zero :: rest) =
      if xs.length + (t.takeWhile p).length ≤ a.length then
        some (Cells.fill (xs ++ t.takeWhile p) a, t.dropWhile p ++ zero :: rest)
      else none := by
  induction t generalizing xs with
  | nil => simp [load, stops, fits]
  | cons x t ih =>
      rw [List.cons_append, load]
      cases inside : p x with
      | false => simp [inside, fits]
      | true =>
          rw [if_pos rfl, Cells.store_fill x fits]
          by_cases room : xs.length < a.length
          · rw [if_pos room]
            have longer : (xs ++ [x]).length = xs.length + 1 := List.length_append
            have next := ih (xs ++ [x]) (longer ▸ room : (xs ++ [x]).length ≤ a.length)
            rw [longer] at next
            simp only [next, List.takeWhile_cons_of_pos inside, List.dropWhile_cons_of_pos inside,
              List.append_assoc, List.singleton_append, List.length_cons]
            rw [Nat.add_right_comm, Nat.add_assoc]
          · rw [if_neg room, if_neg]
            rw [List.takeWhile_cons_of_pos inside, List.length_cons]
            omega

/-- An array takes what is in front of the stop, if that is no longer than it. -/
theorem load_text (stops : p zero = false) (a t rest : List α) :
    load p a 0 (t ++ zero :: rest) =
      if (t.takeWhile p).length ≤ a.length then
        some (Cells.fill (t.takeWhile p) a, t.dropWhile p ++ zero :: rest)
      else none := by
  have whole := load_fill (a := a) stops [] t rest (Nat.zero_le _)
  simpa using whole

/-- Neither the end of a line nor that of a text is in it. -/
def Plain (sep zero : α) (l : List α) : Prop := ∀ x ∈ l, x ≠ sep ∧ x ≠ zero

variable {l rest : List α}

theorem Plain.not_mem (plain : Plain sep zero l) : zero ∉ l := fun there => (plain zero there).2 rfl

/-- A line ends where it is first ended. -/
theorem Plain.unique {l' rest' : List α} {x y : α} (plain : Plain sep zero l)
    (plain' : Plain sep zero l') (ends : x = sep ∨ x = zero) (ends' : y = sep ∨ y = zero)
    (same : l ++ x :: rest = l' ++ y :: rest') : l = l' ∧ x = y ∧ rest = rest' := by
  induction l generalizing l' with
  | nil =>
      cases l' with
      | nil =>
          obtain ⟨rfl, rfl⟩ := List.cons_eq_cons.mp same
          exact ⟨rfl, rfl, rfl⟩
      | cons c l' =>
          obtain ⟨rfl, -⟩ := List.cons_eq_cons.mp same
          obtain ⟨goes, inside⟩ := plain' x List.mem_cons_self
          exact absurd ends (not_or.mpr ⟨goes, inside⟩)
  | cons c l ih =>
      cases l' with
      | nil =>
          obtain ⟨rfl, -⟩ := List.cons_eq_cons.mp same
          obtain ⟨goes, inside⟩ := plain c List.mem_cons_self
          exact absurd ends' (not_or.mpr ⟨goes, inside⟩)
      | cons c' l' =>
          obtain ⟨rfl, tails⟩ := List.cons_eq_cons.mp same
          obtain ⟨rfl, behind⟩ := ih (List.forall_mem_cons.mp plain).2
            (List.forall_mem_cons.mp plain').2 tails
          exact ⟨rfl, behind⟩

section Compare

variable [DecidableEq α]

/-- `strncmp(s, lit, n) == 0`, where `n` is the length of `lit` -/
def startsWith : List α → List α → Option Bool
  | [], _ => some true
  | _ :: _, [] => none
  | c :: lit, x :: s => if c = x then startsWith lit s else some false

theorem startsWith_text (clean : zero ∉ lit) (t rest : List α) :
    startsWith lit (t ++ zero :: rest) = some (lit.isPrefixOf t) := by
  induction lit generalizing t with
  | nil => simp [startsWith]
  | cons c lit ih =>
      obtain ⟨other, clean⟩ := List.ne_and_not_mem_of_not_mem_cons clean
      cases t with
      | nil => simp [startsWith, other.symm]
      | cons x t =>
          rw [List.cons_append, startsWith, ih clean, List.isPrefixOf]
          by_cases same : c = x
          · simp [same]
          · simp [same]

theorem startsWith_of_le (fits : lit.length ≤ s.length) :
    startsWith lit s = some (lit.isPrefixOf s) := by
  induction lit generalizing s with
  | nil => simp [startsWith]
  | cons c lit ih =>
      cases s with
      | nil => simp at fits
      | cons x s =>
          rw [startsWith, ih (by simpa using fits), List.isPrefixOf]
          by_cases same : c = x
          · simp [same]
          · simp [same]

/-- What a text begins with does not depend on the zeros behind it. -/
theorem isPrefixOf_zeros (clean : zero ∉ lit) (t : List α) (n : Nat) :
    lit.isPrefixOf (t ++ List.replicate n zero) = lit.isPrefixOf t := by
  induction lit generalizing t with
  | nil => simp
  | cons c lit ih =>
      obtain ⟨other, clean⟩ := List.ne_and_not_mem_of_not_mem_cons clean
      cases t with
      | nil => cases n <;> simp [List.isPrefixOf, List.replicate_succ, other.symm]
      | cons x t => simp [List.isPrefixOf, ih clean]

/-! ## Lines -/

/-- `strsep(&s, sep)`: the line, ended by `zero`, and what is left in `s` -/
def strsep (sep zero : α) : List α → Option (List α × Option (List α))
  | [] => none
  | x :: s =>
      if x = sep then some (zero :: s, some s)
      else if x = zero then some (x :: s, none)
      else
        match strsep sep zero s with
        | none => none
        | some (line, next) => some (x :: line, next)

theorem strsep_sep (plain : Plain sep zero l) (rest : List α) :
    strsep sep zero (l ++ sep :: rest) = some (l ++ zero :: rest, some rest) := by
  induction l with
  | nil => simp [strsep]
  | cons x l ih =>
      obtain ⟨⟨goes, inside⟩, plain⟩ := List.forall_mem_cons.mp plain
      rw [List.cons_append, strsep, if_neg goes, if_neg inside, ih plain]
      rfl

theorem strsep_zero (other : zero ≠ sep) (plain : Plain sep zero l) (rest : List α) :
    strsep sep zero (l ++ zero :: rest) = some (l ++ zero :: rest, none) := by
  induction l with
  | nil => simp [strsep, other]
  | cons x l ih =>
      obtain ⟨⟨goes, inside⟩, plain⟩ := List.forall_mem_cons.mp plain
      rw [List.cons_append, strsep, if_neg goes, if_neg inside, ih plain]

/-- A line that is found is ended, and ended inside the memory. -/
theorem strsep_eq_some {line : List α} {next : Option (List α)}
    (found : strsep sep zero s = some (line, next)) :
    ∃ l rest, Plain sep zero l ∧ line = l ++ zero :: rest ∧
      (s = l ++ sep :: rest ∧ next = some rest ∨ s = l ++ zero :: rest ∧ next = none) := by
  induction s generalizing line next with
  | nil => cases found
  | cons x s ih =>
      rw [strsep] at found
      split at found
      · rename_i same
        cases found
        exact ⟨[], s, List.forall_mem_nil _, rfl, .inl ⟨same ▸ rfl, rfl⟩⟩
      · rename_i goes
        split at found
        · rename_i same
          cases found
          exact ⟨[], s, List.forall_mem_nil _, same ▸ rfl, .inr ⟨same ▸ rfl, rfl⟩⟩
        · rename_i inside
          split at found
          · cases found
          · rename_i behind
            cases found
            obtain ⟨l, rest, plain, rfl, ends⟩ := ih behind
            refine ⟨x :: l, rest, List.forall_mem_cons.mpr ⟨⟨goes, inside⟩, plain⟩, rfl, ?_⟩
            rcases ends with ⟨rfl, rfl⟩ | ⟨rfl, rfl⟩
            · exact .inl ⟨rfl, rfl⟩
            · exact .inr ⟨rfl, rfl⟩

theorem strsep_shorter {line next : List α} (found : strsep sep zero s = some (line, some next)) :
    next.length < s.length := by
  obtain ⟨l, rest, -, -, ⟨rfl, same⟩ | ⟨-, none'⟩⟩ := strsep_eq_some found
  · cases same
    simp
    omega
  · cases none'

end Compare

end Aic8800.Lib.Texts
