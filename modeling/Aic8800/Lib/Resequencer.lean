import Mathlib.Data.List.Sort
import Mathlib.Data.List.TakeWhile
import Mathlib.Tactic.Linarith

/-! # Resequencing buffers on the integer line

A resequencing buffer turns positions that arrive out of order into an
increasing stream. It holds back what lies ahead of the next expected position,
releases runs without a gap, and gives up on a gap when a position arrives too
far ahead or when it is told to expire. Nothing here knows about rings, frames
or timers: positions are unwrapped integers.
-/

namespace Aic8800.Lib.Resequencer

/-- The first position from `x` on that is missing from an increasing list. -/
def advance (x : Int) : List Int → Int
  | [] => x
  | p :: ps => advance (if p = x then x + 1 else x) ps

theorem le_advance (x : Int) (ps : List Int) : x ≤ advance x ps := by
  induction ps generalizing x with
  | nil => exact le_refl x
  | cons p ps ih =>
      simp only [advance]
      split
      · have := ih (x + 1)
        omega
      · exact ih x

theorem advance_of_ahead {x : Int} {ps : List Int} (ahead : ∀ p ∈ ps, x < p) :
    advance x ps = x := by
  induction ps with
  | nil => rfl
  | cons p ps ih =>
      have first := ahead p (by simp)
      simp only [advance, if_neg (by omega : p ≠ x)]
      exact ih fun q member => ahead q (by simp [member])

/-- Every position the search passed over is in the list. -/
theorem mem_of_lt_advance {x y : Int} {ps : List Int} (low : x ≤ y) (high : y < advance x ps) :
    y ∈ ps := by
  induction ps generalizing x with
  | nil =>
      simp only [advance] at high
      omega
  | cons p ps ih =>
      simp only [advance] at high
      split at high
      · by_cases here : y = p
        · simp [here]
        · exact List.mem_cons_of_mem _ (ih (x := x + 1) (by omega) high)
      · exact List.mem_cons_of_mem _ (ih low high)

theorem advance_le {x m : Int} {ps : List Int} (low : x ≤ m) (below : ∀ p ∈ ps, p < m) :
    advance x ps ≤ m := by
  by_cases moved : x < advance x ps
  · have reached : advance x ps - 1 ∈ ps := mem_of_lt_advance (x := x) (by omega) (by omega)
    have := below _ reached
    omega
  · omega

theorem advance_notMem {x : Int} {ps : List Int} (sorted : ps.Pairwise (· < ·)) :
    advance x ps ∉ ps := by
  induction ps generalizing x with
  | nil => simp
  | cons p ps ih =>
      obtain ⟨first, rest⟩ := List.pairwise_cons.mp sorted
      simp only [advance, List.mem_cons, not_or]
      refine ⟨?_, ih rest⟩
      split
      · have := le_advance (x + 1) ps
        omega
      · by_cases ahead : x < p
        · rw [advance_of_ahead fun q member => lt_trans ahead (first q member)]
          omega
        · have := le_advance x ps
          omega

theorem lt_of_mem_dropWhile {a q : Int} {ps : List Int} (sorted : ps.Pairwise (· < ·))
    (member : q ∈ ps.dropWhile (· ≤ a)) : a < q := by
  induction ps with
  | nil => simp at member
  | cons p ps ih =>
      obtain ⟨first, rest⟩ := List.pairwise_cons.mp sorted
      by_cases passed : p ≤ a
      · rw [List.dropWhile_cons_of_pos (by simpa using passed)] at member
        exact ih rest member
      · rw [List.dropWhile_cons_of_neg (by simpa using passed)] at member
        rcases List.mem_cons.mp member with rfl | later
        · omega
        · have := first q later
          omega

/-- Insert a position into an increasing list. -/
def place (p : Int) (ps : List Int) : List Int := ps.orderedInsert (· ≤ ·) p

theorem place_nil (p : Int) : place p [] = [p] := rfl

theorem place_cons_of_lt {p q : Int} (qs : List Int) (h : q < p) :
    place p (q :: qs) = q :: place p qs :=
  List.orderedInsert_of_not_le _ qs (by omega)

theorem place_cons_of_gt {p q : Int} (qs : List Int) (h : p < q) :
    place p (q :: qs) = p :: q :: qs :=
  List.orderedInsert_cons_of_le _ qs (by omega)

@[simp] theorem mem_place {p q : Int} {ps : List Int} : q ∈ place p ps ↔ q = p ∨ q ∈ ps :=
  List.mem_orderedInsert _

theorem place_sorted {p : Int} {ps : List Int} (sorted : ps.Pairwise (· < ·)) (new : p ∉ ps) :
    (place p ps).Pairwise (· < ·) := by
  have weak : (place p ps).Pairwise (· ≤ ·) :=
    List.Pairwise.orderedInsert p ps (sorted.imp le_of_lt)
  have distinct : (place p ps).Nodup :=
    (List.perm_orderedInsert _ p ps).nodup_iff.mpr
      (List.nodup_cons.mpr ⟨new, sorted.imp fun h => ne_of_lt h⟩)
  exact (weak.and distinct).imp fun h => lt_of_le_of_ne h.1 h.2

theorem place_append {p : Int} {front : List Int} (back : List Int)
    (behind : ∀ q ∈ front, q < p) : place p (front ++ back) = front ++ place p back := by
  induction front with
  | nil => rfl
  | cons q front ih =>
      rw [List.cons_append, place_cons_of_lt _ (behind q (by simp)),
        ih fun r member => behind r (by simp [member]), List.cons_append]

/-- Inserting a position keeps neighbours within `k`, given that it is itself
    within `k` of some position below it and of every position above it. -/
theorem place_spaced {k p : Int} {ps : List Int} (sorted : ps.Pairwise (· < ·)) (new : p ∉ ps)
    (spaced : ps.IsChain (fun a b => b - a ≤ k)) (above : ∀ q ∈ ps, p < q → q - p ≤ k)
    (below : ps ≠ [] → ∃ q ∈ ps, p - q ≤ k) :
    (place p ps).IsChain (fun a b => b - a ≤ k) := by
  induction ps with
  | nil => exact .singleton p
  | cons q qs ih =>
      obtain ⟨ahead, rest⟩ := List.pairwise_cons.mp sorted
      obtain ⟨differ, absent⟩ := not_or.mp (List.mem_cons.not.mp new)
      by_cases before : p < q
      · rw [place_cons_of_gt _ before]
        exact .cons_cons (above q (by simp) before) spaced
      rw [place_cons_of_lt _ (by omega)]
      cases qs with
      | nil =>
          obtain ⟨r, member, near⟩ := below (by simp)
          rw [place_nil]
          exact .cons_cons (by simp_all) (.singleton p)
      | cons r rs =>
          obtain ⟨gap, tail⟩ := List.isChain_cons_cons.mp spaced
          have step := ahead r (by simp)
          have inner := ih rest absent tail (fun s member => above s (by simp [member])) (by
            intro _
            obtain ⟨s, member, near⟩ := below (by simp)
            rcases List.mem_cons.mp member with rfl | later
            · exact ⟨r, by simp, by omega⟩
            · exact ⟨s, later, near⟩)
          by_cases next : p < r
          · rw [place_cons_of_gt _ next] at inner ⊢
            exact .cons_cons (by omega) inner
          · have apart : r ≠ p := fun same => absent (by simp [same])
            rw [place_cons_of_lt _ (by omega)] at inner ⊢
            exact .cons_cons gap inner

/-- A buffer holds back positions strictly ahead of the next expected one, and
    less than `w` ahead of it. -/
structure Buffer (w : Int) where
  start : Int
  held : List Int
  sorted : held.Pairwise (· < ·)
  ahead : ∀ p ∈ held, start < p ∧ p < start + w

namespace Buffer

variable {w : Int}

/-- A buffer that waits for `x` and holds nothing. -/
def empty (w x : Int) : Buffer w := ⟨x, [], .nil, by simp⟩

/-- Move the start to the first gap from `x` on and keep what lies beyond it. -/
def sweep (x : Int) (ps : List Int) (sorted : ps.Pairwise (· < ·)) (below : ∀ p ∈ ps, p < x + w) :
    Buffer w where
  start := advance x ps
  held := ps.dropWhile (· ≤ advance x ps)
  sorted := sorted.sublist (List.dropWhile_sublist _)
  ahead p member := by
    have inside := below p ((List.dropWhile_sublist _).mem member)
    have onward := le_advance x ps
    exact ⟨lt_of_mem_dropWhile sorted member, by omega⟩

theorem length_lt_of_between {x y : Int} {ps : List Int} (sorted : ps.Pairwise (· < ·))
    (between : ∀ p ∈ ps, x < p ∧ p < y) (room : x < y) : (ps.length : Int) < y - x := by
  induction ps generalizing x with
  | nil => simpa using room
  | cons p ps ih =>
      obtain ⟨ahead, rest⟩ := List.pairwise_cons.mp sorted
      have first := between p (by simp)
      have shorter := ih rest (fun q member => ⟨ahead q member, (between q (by simp [member])).2⟩)
        first.2
      simp only [List.length_cons, Nat.cast_add, Nat.cast_one]
      omega

/-- A buffer of width `w` holds less than `w` positions. -/
theorem length_lt (b : Buffer w) (width : 0 < w) : (b.held.length : Int) < w := by
  have := length_lt_of_between b.sorted b.ahead (by omega)
  omega

/-- What a sweep lets go, in increasing order. -/
def swept (x : Int) (ps : List Int) : List Int := ps.takeWhile (· ≤ advance x ps)

theorem swept_append_held (x : Int) (ps : List Int) (sorted : ps.Pairwise (· < ·))
    (below : ∀ p ∈ ps, p < x + w) : swept x ps ++ (sweep x ps sorted below).held = ps :=
  List.takeWhile_append_dropWhile

theorem lt_start_of_mem_swept {x p : Int} {ps : List Int} (sorted : ps.Pairwise (· < ·))
    (member : p ∈ swept x ps) : p < advance x ps := by
  have bound : p ≤ advance x ps := by simpa using List.mem_takeWhile_imp member
  have distinct : p ≠ advance x ps := fun same =>
    advance_notMem sorted (same ▸ (List.takeWhile_sublist _).mem member)
  omega

/-- Where the start goes before the sweep when position `p` arrives. -/
def target (b : Buffer w) (p : Int) : Int := max b.start (p - (w - 1))

theorem below_target (b : Buffer w) (p : Int) :
    ∀ q ∈ place p b.held, q < b.target p + w := by
  intro q member
  simp only [target]
  rcases mem_place.mp member with rfl | held
  · omega
  · have := b.ahead q held
    omega

theorem place_start {b : Buffer w} : place b.start b.held = b.start :: b.held := by
  cases held : b.held with
  | nil => rfl
  | cons p ps => exact place_cons_of_gt ps (b.ahead p (by simp [held])).1

/-- A position that is the start may be counted before the sweep. -/
theorem advance_past_start (b : Buffer w) (p : Int) (width : 0 < w) :
    advance (if p = b.start then b.start + 1 else b.target p) (place p b.held)
      = advance (b.target p) (place p b.held) := by
  split
  · rename_i same
    subst same
    simp [place_start, advance, target,
      max_eq_left (by omega : b.start - (w - 1) ≤ b.start)]
  · rfl

/-- Take in a position that is neither behind the start nor already held. -/
def accept (b : Buffer w) (p : Int) (new : p ∉ b.held) : Buffer w :=
  sweep (b.target p) (place p b.held) (place_sorted b.sorted new) (b.below_target p)

def accepted (b : Buffer w) (p : Int) : List Int := swept (b.target p) (place p b.held)

theorem below_first {b : Buffer w} {p : Int} {ps : List Int} (h : b.held = p :: ps) :
    ∀ q ∈ p :: ps, q < p + w := by
  intro q member
  have first := b.ahead p (by simp [h])
  have bound := b.ahead q (h ▸ member)
  omega

/-- Give up on the gap before the first held position. -/
def expire (b : Buffer w) : Buffer w :=
  match h : b.held with
  | [] => b
  | p :: ps => sweep p (p :: ps) (h ▸ b.sorted) (below_first h)

def expired (b : Buffer w) : List Int :=
  match b.held with
  | [] => []
  | p :: ps => swept p (p :: ps)

theorem expire_nil {b : Buffer w} (h : b.held = []) : b.expire = b ∧ b.expired = [] := by
  constructor
  · unfold expire
    split
    · rfl
    · rename_i held
      simp [h] at held
  · simp [expired, h]

theorem expire_cons {b : Buffer w} {p : Int} {ps : List Int} (h : b.held = p :: ps) :
    b.expire = sweep p (p :: ps) (h ▸ b.sorted) (below_first h) ∧
      b.expired = swept p (p :: ps) := by
  constructor
  · unfold expire
    split
    · rename_i held
      simp [h] at held
    · rename_i q qs held
      obtain ⟨rfl, rfl⟩ := List.cons.inj (h.symm.trans held)
      rfl
  · simp [expired, h]

theorem accepted_append_held {b : Buffer w} {p : Int} (new : p ∉ b.held) :
    b.accepted p ++ (b.accept p new).held = place p b.held :=
  swept_append_held _ _ _ (b.below_target p)

theorem expired_append_held (b : Buffer w) : b.expired ++ b.expire.held = b.held := by
  cases held : b.held with
  | nil =>
      obtain ⟨same, none⟩ := expire_nil held
      rw [same, none, held]
      rfl
  | cons p ps =>
      obtain ⟨same, released⟩ := expire_cons held
      rw [same, released]
      exact swept_append_held _ _ _ (below_first held)

theorem accept_start {b : Buffer w} {p : Int} (new : p ∉ b.held) (width : 0 < w) :
    b.start ≤ (b.accept p new).start ∧ (b.accept p new).start ≤ b.target p + w := by
  have onward := le_advance (b.target p) (place p b.held)
  have short := advance_le (by omega : b.target p ≤ b.target p + w) (b.below_target p)
  have aimed := le_max_left b.start (p - (w - 1))
  simp only [accept, sweep]
  simp only [target] at onward short ⊢
  omega

theorem expire_start (b : Buffer w) (width : 0 < w) :
    b.start ≤ b.expire.start ∧ b.expire.start < b.start + w + w := by
  cases held : b.held with
  | nil =>
      rw [(expire_nil held).1]
      omega
  | cons p ps =>
      have first := b.ahead p (by simp [held])
      have onward := le_advance p (p :: ps)
      have short := advance_le (by omega : p ≤ p + w) (below_first held)
      rw [(expire_cons held).1]
      simp only [sweep]
      omega

end Buffer

/-- What the past of a buffer looks like: the stream it has released so far,
    followed by what it still holds, increases in steps of at most `k`, and the
    start has not left its last position behind. -/
structure History {w : Int} (k : Int) (b : Buffer w) (out : List Int) : Prop where
  sorted : (out ++ b.held).Pairwise (· < ·)
  behind : ∀ p ∈ out, p < b.start
  spaced : (out ++ b.held).IsChain (fun p q => q - p ≤ k)
  near : out ++ b.held ≠ [] → ∃ p ∈ out ++ b.held, b.start ≤ p + 1

namespace History

variable {w k : Int} {b : Buffer w} {out : List Int}

theorem empty (w k x : Int) : History k (Buffer.empty w x) [] :=
  ⟨.nil, by simp, .nil, by simp [Buffer.empty]⟩

/-- A sweep only moves the boundary between what is released and what is held. -/
private theorem sweep {x : Int} {ps : List Int} (sorted : ps.Pairwise (· < ·))
    (below : ∀ p ∈ ps, p < x + w) (all : (out ++ ps).Pairwise (· < ·))
    (spaced : (out ++ ps).IsChain (fun p q => q - p ≤ k)) (behind : ∀ p ∈ out, p < x)
    (reached : ∃ p ∈ ps, x ≤ p) :
    History k (Buffer.sweep x ps sorted below) (out ++ Buffer.swept x ps) := by
  have whole : out ++ Buffer.swept x ps ++ (Buffer.sweep x ps sorted below).held = out ++ ps := by
    rw [List.append_assoc, Buffer.swept_append_held]
  constructor
  · rw [whole]
    exact all
  · intro p member
    rcases List.mem_append.mp member with old | new
    · exact lt_of_lt_of_le (behind p old) (le_advance x ps)
    · exact Buffer.lt_start_of_mem_swept sorted new
  · rw [whole]
    exact spaced
  · intro _
    rw [whole]
    by_cases moved : x < advance x ps
    · have reached : advance x ps - 1 ∈ ps := mem_of_lt_advance (x := x) (by omega) (by omega)
      exact ⟨_, List.mem_append_right _ reached, by simp [Buffer.sweep]⟩
    · obtain ⟨p, member, bound⟩ := reached
      refine ⟨p, List.mem_append_right _ member, ?_⟩
      simp only [Buffer.sweep]
      omega

/-- A position not behind the start keeps the released stream increasing, in
    steps of at most `k` when it is less than `k` ahead of the start. -/
theorem accept (past : History k b out) {p : Int} (new : p ∉ b.held) (low : b.start ≤ p)
    (high : p < b.start + k) (width : 0 < w) (narrow : w ≤ k) :
    History k (b.accept p new) (out ++ b.accepted p) := by
  have behind : ∀ q ∈ out, q < p := fun q member => lt_of_lt_of_le (past.behind q member) low
  have fresh : p ∉ out ++ b.held := by
    rw [List.mem_append, not_or]
    exact ⟨fun member => lt_irrefl p (behind p member), new⟩
  have joined := place_append b.held behind
  apply sweep
  · rw [← joined]
    exact place_sorted past.sorted fresh
  · rw [← joined]
    apply place_spaced past.sorted fresh past.spaced
    · intro q member later
      rcases List.mem_append.mp member with released | held
      · have := behind q released
        omega
      · have := b.ahead q held
        omega
    · intro nonempty
      obtain ⟨q, member, near⟩ := past.near nonempty
      exact ⟨q, member, by omega⟩
  · intro q member
    have := past.behind q member
    simp only [Buffer.target]
    omega
  · exact ⟨p, mem_place.mpr (.inl rfl), by simp only [Buffer.target]; omega⟩

theorem expire (past : History k b out) : History k b.expire (out ++ b.expired) := by
  cases held : b.held with
  | nil =>
      obtain ⟨same, none⟩ := Buffer.expire_nil held
      rw [same, none, List.append_nil]
      exact past
  | cons p ps =>
      obtain ⟨same, released⟩ := Buffer.expire_cons held
      rw [same, released]
      refine sweep _ _ (held ▸ past.sorted) (held ▸ past.spaced) ?_ ⟨p, by simp, le_refl p⟩
      intro q member
      have first := b.ahead p (by simp [held])
      exact lt_trans (past.behind q member) first.1

end History

end Aic8800.Lib.Resequencer
