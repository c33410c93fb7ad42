import Aic8800.Lib.Exchange
import Aic8800.Lib.Greedy
import Aic8800.Mu.Formed

/-! # The group that a station sends in

`rwnx_mu_group_sta_select` counts, for each access point, the users of every group that have sent
enough, and what they have sent. The groups with two such users are gone through from the one that
sent most; one that is selected takes its users away from the other groups. This is the greedy
choice of groups that share no station.
-/

namespace Aic8800.Mu

open Lib

/-- `RWNX_MU_GROUP_MIN_TRAFFIC` -/
def minTraffic : Int32 := 50

/-- The three arrays; `order` has its first `cnt` entries. -/
structure Stats where
  nbUsers : Nat → Int
  traffic : Nat → Int32
  order : List Nat

/-- The body of the inner loop of the first pass -/
def Stats.count (st : Stats) (traffic : Int32) (id : Nat) : Option Stats :=
  let nbUsers := Function.update st.nbUsers id (st.nbUsers id + 1)
  let traffic := Function.update st.traffic id (st.traffic id + traffic)
  if nbUsers id = 2 then
    if st.order.length < nxMuGroupMax + 1 then some ⟨nbUsers, traffic, st.order ++ [id]⟩ else none
  else some ⟨nbUsers, traffic, st.order⟩

variable {Sta : Type} [DecidableEq Sta]

/-- Whether a station is listed in its groups -/
def GroupInfo.sending (info : GroupInfo) : Bool := info.cnt ≠ 0 && minTraffic ≤ info.traffic

/-- The body of the loop over the stations -/
def MuInfo.gather (mu : MuInfo Sta) (st : Stats) (sta : Sta) : Option (MuInfo Sta × Stats) := do
  let info := mu.info sta
  let mu := mu.onInfo sta fun info => { info with traffic := 0, group := 0 }
  if info.sending then
    let st ← (groupIds info.map).foldlM (fun st id => st.count info.traffic id) st
    some (mu, st)
  else some (mu, st)

/-- A station is given its group, and is no longer a user of the others. -/
def assignUser (id : Nat) (s : MuInfo Sta × (Nat → Int)) (j : Fin 2) : MuInfo Sta × (Nat → Int) :=
  match (s.1.groups id).users j with
  | none => s
  | some sta =>
      (s.1.onInfo sta fun info => { info with group := id },
        (groupIds (s.1.info sta).map).foldl (fun nbUsers tmp =>
          if id ≠ tmp then Function.update nbUsers tmp (nbUsers tmp - 1) else nbUsers) s.2)

/-- The body of the last loop -/
def assignGroup (s : MuInfo Sta × (Nat → Int)) (id : Nat) : MuInfo Sta × (Nat → Int) :=
  if s.2 id < 2 then s else (List.finRange 2).foldl (assignUser id) s

namespace MuInfo

variable (mu : MuInfo Sta)

/-- One access point: `order` is that of the ones before it, and is passed on. -/
def selectVif (order : List Nat) (stas : List Sta) : Option (MuInfo Sta × List Nat) := do
  let (mu, st) ← stas.foldlM (fun s sta => gather s.1 s.2 sta) (mu, ⟨0, 0, order⟩)
  let order ← Exchange.sort (fun id => (st.traffic id).toInt)
    (st.order.length * st.order.length + 1) st.order
  some ((order.foldl assignGroup (mu, st.nbUsers)).1, order)

/-- `rwnx_mu_group_sta_select`, with the stations of the access points, and whether it is time -/
def staSelect (vifs : List (List Sta)) (due : Bool) : Option (MuInfo Sta) :=
  if mu.groupCnt = 0 ∨ due = false then some mu
  else (vifs.foldlM (fun s stas => selectVif s.1 s.2 stas) (mu, [])).map (·.1)

end MuInfo

/-! ## The statistics -/

/-- A station that is listed in a group, with its traffic -/
abbrev Entry := Int32 × Nat

/-- What one access point lists -/
def MuInfo.entries (mu : MuInfo Sta) (stas : List Sta) : List Entry :=
  (stas.filter fun s => (mu.info s).sending).flatMap fun s =>
    (groupIds (mu.info s).map).map fun id => ((mu.info s).traffic, id)

/-- How many users of a group are listed -/
def users (es : List Entry) (id : Nat) : Nat := es.countP (·.2 = id)

/-- What they have sent together, as an `int` -/
def weight (es : List Entry) (id : Nat) : Int32 := ((es.filter (·.2 = id)).map Prod.fst).sum

/-- The statistics of these entries, behind the groups of the access points before -/
structure Tallied (old : List Nat) (es : List Entry) (st : Stats) : Prop where
  nbUsers : ∀ id, st.nbUsers id = users es id
  traffic : ∀ id, st.traffic id = weight es id
  order : ∃ new : List Nat, st.order = old ++ new ∧ new.Nodup ∧ ∀ id, id ∈ new ↔ 2 ≤ users es id

theorem users_append (es : List Entry) (t : Int32) (x id : Nat) :
    users (es ++ [(t, x)]) id = users es id + if id = x then 1 else 0 := by
  rw [users, List.countP_append, List.countP_singleton, users]
  by_cases same : id = x
  · simp [same]
  · simp [same, Ne.symm same]

theorem weight_append (es : List Entry) (t : Int32) (x id : Nat) :
    weight (es ++ [(t, x)]) id = weight es id + if id = x then t else 0 := by
  rw [weight, List.filter_append, List.map_append, List.sum_append, weight]
  congr 1
  by_cases same : id = x
  · simp [same]
  · simp [same, Ne.symm same]

/-- There is room in `order` for the groups with two users. -/
def Room (old : List Nat) (es : List Entry) : Prop :=
  ∀ new : List Nat, new.Nodup → (∀ id ∈ new, 2 ≤ users es id) → (old ++ new).length ≤ nxMuGroupMax

theorem Room.of_append {old : List Nat} {es es' : List Entry} (room : Room old (es ++ es')) :
    Room old es := by
  intro new nodup two
  refine room new nodup fun id member => (two id member).trans ?_
  rw [users, users, List.countP_append]
  exact Nat.le_add_right _ _

/-- One more entry is counted, and there is room for a group in `order`. -/
theorem count_tallied {old : List Nat} {es : List Entry} {st : Stats} (tallied : Tallied old es st)
    (t : Int32) {x : Nat} (room : Room old (es ++ [(t, x)])) :
    ∃ st', st.count t x = some st' ∧ Tallied old (es ++ [(t, x)]) st' := by
  obtain ⟨new, order, nodup, mem⟩ := tallied.order
  have nbUsers : ∀ id, Function.update st.nbUsers x (st.nbUsers x + 1) id =
      users (es ++ [(t, x)]) id := by
    intro id
    rw [users_append, Function.update_apply]
    split
    · rename_i same
      rw [same, tallied.nbUsers]
      rfl
    · rw [tallied.nbUsers]
      rfl
  have traffic : ∀ id, Function.update st.traffic x (st.traffic x + t) id =
      weight (es ++ [(t, x)]) id := by
    intro id
    rw [weight_append, Function.update_apply]
    split
    · rename_i same
      rw [same, tallied.traffic]
    · rw [tallied.traffic, Int32.add_zero]
  have here := users_append es t x x
  rw [if_pos rfl] at here
  rw [Stats.count]
  split
  · rename_i second
    rw [nbUsers x] at second
    have absent : x ∉ new := by
      rw [mem]
      omega
    have nodup' : (new ++ [x]).Nodup := List.nodup_append.mpr ⟨nodup, List.nodup_singleton x,
      fun y old z last => by
        rintro rfl
        exact absent (List.mem_singleton.mp last ▸ old)⟩
    have mem' : ∀ id, id ∈ new ++ [x] ↔ 2 ≤ users (es ++ [(t, x)]) id := by
      intro id
      rw [List.mem_append, List.mem_singleton, mem, users_append]
      split
      · rename_i same
        subst same
        simp only [or_true, true_iff]
        omega
      · rename_i other
        simp only [other, or_false, Nat.add_zero]
    have fits := room (new ++ [x]) nodup' fun id member => (mem' id).mp member
    rw [List.length_append, List.length_append, List.length_singleton] at fits
    rw [if_pos (by rw [order, List.length_append]; omega)]
    refine ⟨_, rfl, nbUsers, traffic, new ++ [x], ?_, nodup', mem'⟩
    rw [order, List.append_assoc]
  · rename_i other
    rw [nbUsers x] at other
    refine ⟨_, rfl, nbUsers, traffic, new, order, nodup, fun id => ?_⟩
    rw [mem, users_append]
    split
    · rename_i same
      subst same
      omega
    · rw [Nat.add_zero]

theorem counts_tallied (ids : List Nat) {old : List Nat} {es : List Entry} {st : Stats}
    (tallied : Tallied old es st) (t : Int32) (room : Room old (es ++ ids.map (t, ·))) :
    ∃ st', ids.foldlM (fun st id => st.count t id) st = some st' ∧
      Tallied old (es ++ ids.map (t, ·)) st' := by
  induction ids generalizing es st with
  | nil => exact ⟨st, rfl, by rwa [List.map_nil, List.append_nil]⟩
  | cons x ids ih =>
      rw [List.map_cons, List.append_cons] at room ⊢
      obtain ⟨st₁, run, tallied₁⟩ := count_tallied tallied t room.of_append
      obtain ⟨st', run', tallied'⟩ := ih tallied₁ room
      refine ⟨st', ?_, tallied'⟩
      rw [List.foldlM_cons, run]
      exact run'

/-- Nothing has changed but what the stations know. -/
def Informed (mu mu' : MuInfo Sta) : Prop := mu' = { mu with info := mu'.info }

omit [DecidableEq Sta] in
theorem Informed.trans {mu mu' mu'' : MuInfo Sta} (h : Informed mu mu') (h' : Informed mu' mu'') :
    Informed mu mu'' :=
  Eq.trans h' (congrArg (fun m : MuInfo Sta => { m with info := mu''.info }) h)

omit [DecidableEq Sta] in
theorem Informed.groups {mu mu' : MuInfo Sta} (h : Informed mu mu') : mu'.groups = mu.groups :=
  (congrArg MuInfo.groups (show mu' = { mu with info := mu'.info } from h) : _)

/-- The counters of these stations begin anew. -/
def MuInfo.cleared (mu : MuInfo Sta) (stas : List Sta) : MuInfo Sta :=
  stas.foldl (fun mu sta => mu.onInfo sta fun info => { info with traffic := 0, group := 0 }) mu

theorem cleared_info (mu : MuInfo Sta) (stas : List Sta) (s : Sta) :
    (mu.cleared stas).info s =
      if s ∈ stas then { mu.info s with traffic := 0, group := 0 } else mu.info s := by
  induction stas generalizing mu with
  | nil => simp [MuInfo.cleared]
  | cons x rest ih =>
      have step : mu.cleared (x :: rest) =
        (mu.onInfo x fun info => { info with traffic := 0, group := 0 }).cleared rest := rfl
      rw [step, ih]
      by_cases same : s = x
      · subst same
        simp
      · simp [same]

omit [DecidableEq Sta] in
theorem entries_congr {mu mu' : MuInfo Sta} {stas : List Sta}
    (same : ∀ s ∈ stas, mu'.info s = mu.info s) : mu'.entries stas = mu.entries stas := by
  rw [MuInfo.entries, MuInfo.entries, List.filter_congr fun s member => by rw [same s member]]
  refine List.flatMap_congr fun s member => ?_
  rw [same s (List.mem_filter.mp member).1]

omit [DecidableEq Sta] in
theorem entries_cons (mu : MuInfo Sta) (s : Sta) (rest : List Sta) :
    mu.entries (s :: rest) = (if (mu.info s).sending then
      (groupIds (mu.info s).map).map ((mu.info s).traffic, ·) else []) ++ mu.entries rest := by
  rw [MuInfo.entries, List.filter_cons]
  split
  · exact List.flatMap_cons
  · rfl

theorem gather_tallied (stas : List Sta) {mu : MuInfo Sta} (nodup : stas.Nodup) {old : List Nat}
    {es : List Entry} {st : Stats} (tallied : Tallied old es st)
    (room : Room old (es ++ mu.entries stas)) :
    ∃ st', stas.foldlM (fun s sta => MuInfo.gather s.1 s.2 sta) (mu, st) =
        some (mu.cleared stas, st') ∧ Tallied old (es ++ mu.entries stas) st' := by
  induction stas generalizing mu es st with
  | nil =>
      exact ⟨st, rfl, by rwa [MuInfo.entries, List.filter_nil, List.flatMap_nil, List.append_nil]⟩
  | cons s rest ih =>
      rw [List.nodup_cons] at nodup
      have same : ∀ t ∈ rest,
          (mu.onInfo s fun info => { info with traffic := 0, group := 0 }).info t = mu.info t := by
        intro t member
        rw [MuInfo.onInfo_info, if_neg fun eq : t = s => nodup.1 (eq ▸ member)]
      have later := entries_congr same
      rw [entries_cons, ← List.append_assoc, ← later] at room ⊢
      obtain ⟨st₁, run, tallied₁⟩ : ∃ st₁, mu.gather st s =
          some (mu.onInfo s fun info => { info with traffic := 0, group := 0 }, st₁) ∧
            Tallied old (es ++ if (mu.info s).sending then
              (groupIds (mu.info s).map).map ((mu.info s).traffic, ·) else []) st₁ := by
        rw [MuInfo.gather]
        split
        · rename_i sending
          rw [if_pos sending] at room
          obtain ⟨st₁, run, tallied₁⟩ := counts_tallied _ tallied _ room.of_append
          exact ⟨st₁, Option.bind_eq_some_iff.mpr ⟨st₁, run, rfl⟩, tallied₁⟩
        · exact ⟨st, rfl, by rwa [List.append_nil]⟩
      obtain ⟨st', run', tallied'⟩ := ih nodup.2 tallied₁ room
      refine ⟨st', ?_, tallied'⟩
      rw [List.foldlM_cons]
      exact Option.bind_eq_some_iff.mpr ⟨_, run, run'⟩

/-! ## The groups are given -/

/-- Whether a user of the one group has the other -/
def MuInfo.shares (mu : MuInfo Sta) (g id : Nat) : Bool :=
  (List.finRange 2).any fun j => ((mu.groups g).users j).any fun s => id ∈ groupIds (mu.info s).map

omit [DecidableEq Sta] in
theorem shares_pair {mu : MuInfo Sta} {g id : Nat} {a b : Sta}
    (users : (mu.groups g).users = ![some a, some b]) :
    mu.shares g id = true ↔ id ∈ groupIds (mu.info a).map ∨ id ∈ groupIds (mu.info b).map := by
  have list : List.finRange 2 = [0, 1] := rfl
  simp [MuInfo.shares, list, users]

theorem foldl_take {ids : List Nat} (nodup : ids.Nodup) (id : Nat) (nb : Nat → Int) (x : Nat) :
    ids.foldl (fun nb tmp => if id ≠ tmp then Function.update nb tmp (nb tmp - 1) else nb) nb x =
      nb x - if x ∈ ids ∧ x ≠ id then 1 else 0 := by
  induction ids generalizing nb with
  | nil => simp
  | cons y ys ih =>
      rw [List.nodup_cons] at nodup
      rw [List.foldl_cons, ih nodup.2]
      by_cases same : x = y
      · subst same
        by_cases own : x = id
        · simp [own]
        · simp [nodup.1, own, Ne.symm own]
      · by_cases own : id = y
        · simp [own, same]
        · simp [own, same]

/-- The two users of a group get it, and the other groups lose them. -/
theorem assignGroup_pair {mu : MuInfo Sta} {nb : Nat → Int} {g : Nat} {a b : Sta}
    (ne : a ≠ b) (two : 2 ≤ nb g) (users : (mu.groups g).users = ![some a, some b]) :
    ∃ mu' nb', assignGroup (mu, nb) g = (mu', nb') ∧ Informed mu mu' ∧
      (∀ s, mu'.info s = if s = a ∨ s = b then { mu.info s with group := g } else mu.info s) ∧
      (∀ id, nb' id ≤ nb id) ∧
      ∀ id, id ≠ g → (nb' id = nb id ↔ mu.shares g id = false) := by
  have list : List.finRange 2 = [0, 1] := rfl
  have first : (mu.groups g).users 0 = some a := by rw [users]; rfl
  have second : (mu.groups g).users 1 = some b := by rw [users]; rfl
  have map : ((mu.onInfo a fun info => { info with group := g }).info b).map = (mu.info b).map := by
    rw [MuInfo.onInfo_info]
    split
    · rename_i same
      rw [same]
    · rfl
  have run : assignGroup (mu, nb) g =
      ((mu.onInfo a fun info => { info with group := g }).onInfo b
          fun info => { info with group := g },
        (groupIds (mu.info b).map).foldl (fun nb tmp =>
          if g ≠ tmp then Function.update nb tmp (nb tmp - 1) else nb)
          ((groupIds (mu.info a).map).foldl (fun nb tmp =>
            if g ≠ tmp then Function.update nb tmp (nb tmp - 1) else nb) nb)) := by
    simp only [assignGroup, list, List.foldl_cons, List.foldl_nil, assignUser, first, second,
      MuInfo.onInfo_groups, if_neg (not_lt.mpr two), map]
  refine ⟨_, _, run, rfl, fun s => ?_, fun id => ?_, fun id other => ?_⟩
  · simp only [MuInfo.onInfo_info]
    by_cases last : s = b
    · subst last
      simp [ne.symm]
    · by_cases same : s = a
      · simp [same, ne]
      · simp [same, last]
  · rw [foldl_take (nodup_groupIds _), foldl_take (nodup_groupIds _)]
    split <;> split <;> omega
  · rw [foldl_take (nodup_groupIds _), foldl_take (nodup_groupIds _), ← Bool.not_eq_true,
      shares_pair users, not_or]
    by_cases left : id ∈ groupIds (mu.info a).map
    · by_cases right : id ∈ groupIds (mu.info b).map
      · simp [left, right, other]
        omega
      · simp [left, right, other]
    · by_cases right : id ∈ groupIds (mu.info b).map
      · simp [left, right, other]
      · simp [left, right, other]

/-- The station is in the group. -/
def MuInfo.User (mu : MuInfo Sta) (s : Sta) (g : Nat) : Prop :=
  (mu.groups g).users ⟨0, Nat.zero_lt_two⟩ = some s ∨
    (mu.groups g).users ⟨1, Nat.one_lt_two⟩ = some s

omit [DecidableEq Sta] in
theorem MuInfo.user_iff {mu : MuInfo Sta} {s : Sta} {g : Nat} :
    mu.User s g ↔ (mu.groups g).users 0 = some s ∨ (mu.groups g).users 1 = some s := Iff.rfl

omit [DecidableEq Sta] in
theorem user_pair {mu : MuInfo Sta} {g : Nat} {a b : Sta}
    (users : (mu.groups g).users = ![some a, some b]) (s : Sta) : mu.User s g ↔ s = a ∨ s = b := by
  rw [MuInfo.User, users]
  simp [eq_comm]

/-- After some of the groups have been gone through: what the others have left, and what the
    stations have been given -/
structure Assigned (mu : MuInfo Sta) (count : Nat → Nat) (chosen : List Nat)
    (s : MuInfo Sta × (Nat → Int)) : Prop where
  informed : Informed mu s.1
  le : ∀ id, s.2 id ≤ count id
  left : ∀ id, id ∉ chosen → (s.2 id = count id ↔ ∀ g ∈ chosen, mu.shares g id = false)
  given : ∀ g ∈ chosen, ∀ t, mu.User t g → s.1.info t = { mu.info t with group := g }
  rest : ∀ t, (∀ g ∈ chosen, ¬mu.User t g) → s.1.info t = mu.info t

/-- What is used of the groups: those with two listed users have these, and no group has more. -/
structure Counted (mu : MuInfo Sta) (count : Nat → Nat) : Prop where
  most : ∀ id, count id ≤ 2
  pair : ∀ id, count id = 2 → ∃ a b, a ≠ b ∧ (mu.groups id).users = ![some a, some b] ∧
    id ∈ groupIds (mu.info a).map ∧ id ∈ groupIds (mu.info b).map

omit [DecidableEq Sta] in
theorem shares_of_user {mu : MuInfo Sta} {t : Sta} {g id : Nat} (user : mu.User t g)
    (own : id ∈ groupIds (mu.info t).map) : mu.shares g id = true := by
  have list : List.finRange 2 = [0, 1] := rfl
  rcases MuInfo.user_iff.mp user with user | user
  · simp [MuInfo.shares, list, user, own]
  · simp [MuInfo.shares, list, user, own]

omit [DecidableEq Sta] in
theorem Assigned.map {mu : MuInfo Sta} {count : Nat → Nat} {chosen : List Nat}
    {s : MuInfo Sta × (Nat → Int)} (assigned : Assigned mu count chosen s) (t : Sta) :
    (s.1.info t).map = (mu.info t).map := by
  by_cases user : ∃ g ∈ chosen, mu.User t g
  · obtain ⟨g, member, user⟩ := user
    rw [assigned.given g member t user]
  · rw [assigned.rest t fun g member own => user ⟨g, member, own⟩]

/-- One more group is selected. -/
theorem Assigned.select {mu : MuInfo Sta} {count : Nat → Nat} (counted : Counted mu count)
    {chosen : List Nat} {s : MuInfo Sta × (Nat → Int)} (assigned : Assigned mu count chosen s)
    {id : Nat} (two : 2 ≤ s.2 id) (free : ∀ g ∈ chosen, mu.shares g id = false)
    (whole : count id = 2) : Assigned mu count (chosen ++ [id]) (assignGroup s id) := by
  obtain ⟨a, b, ne, users, own, own'⟩ := counted.pair id whole
  have users' : (s.1.groups id).users = ![some a, some b] := by rw [assigned.informed.groups, users]
  have apart : ∀ g ∈ chosen, ∀ t, mu.User t g → ¬(t = a ∨ t = b) := by
    intro g member t user same
    have met : mu.shares g id = true := by
      rcases same with rfl | rfl
      · exact shares_of_user user own
      · exact shares_of_user user own'
    rw [free g member] at met
    cases met
  have shares : ∀ x, s.1.shares id x = mu.shares id x := by
    intro x
    simp only [MuInfo.shares, assigned.informed.groups, assigned.map]
  obtain ⟨mu', nb', run, informed, info, less, same⟩ := assignGroup_pair ne two users'
  rw [run]
  refine ⟨assigned.informed.trans informed, fun x => (less x).trans (assigned.le x), fun x out => ?_,
    fun g member t user => ?_, fun t none => ?_⟩
  · rw [List.mem_append, List.mem_singleton, not_or] at out
    have before := assigned.left x out.1
    have le := assigned.le x
    have step := less x
    have here := same x out.2
    rw [shares] at here
    constructor
    · intro kept g member
      rcases List.mem_append.mp member with old | last
      · exact before.mp (by simp only at kept ⊢; omega) g old
      · rw [List.mem_singleton.mp last]
        exact here.mp (by simp only at kept ⊢; omega)
    · intro free'
      have first := before.mpr fun g member => free' g (List.mem_append_left _ member)
      have second := here.mpr (free' id (List.mem_append_right _ (List.mem_singleton_self id)))
      simp only at first ⊢
      omega
  · simp only [info]
    rcases List.mem_append.mp member with old | last
    · rw [if_neg (apart g old t user)]
      exact assigned.given g old t user
    · obtain rfl := List.mem_singleton.mp last
      have one := (user_pair users t).mp user
      rw [if_pos one, assigned.rest t fun h old used => apart h old t used one]
  · simp only [info]
    have out : ¬(t = a ∨ t = b) := fun one =>
      none id (List.mem_append_right _ (List.mem_singleton_self id)) ((user_pair users t).mpr one)
    rw [if_neg out]
    exact assigned.rest t fun g old => none g (List.mem_append_left _ old)

theorem assign_pick {mu : MuInfo Sta} {count : Nat → Nat} (counted : Counted mu count)
    (order : List Nat) (nodup : order.Nodup) {chosen : List Nat} {s : MuInfo Sta × (Nat → Int)}
    (fresh : ∀ id ∈ order, id ∉ chosen) (full : ∀ id ∈ chosen, count id = 2)
    (assigned : Assigned mu count chosen s) :
    Assigned mu count (Greedy.pick mu.shares chosen
      (order.filter fun id => count id = 2)) (order.foldl assignGroup s) := by
  induction order generalizing chosen s with
  | nil => exact assigned
  | cons id rest ih =>
      rw [List.nodup_cons] at nodup
      have out := fresh id List.mem_cons_self
      have later : ∀ g ∈ rest, g ∉ chosen := fun g member => fresh g (List.mem_cons_of_mem id member)
      obtain ⟨mu₁, nb⟩ := s
      have le := assigned.le id
      have most := counted.most id
      rw [List.foldl_cons, List.filter_cons]
      by_cases two : 2 ≤ nb id
      · have whole : count id = 2 := by
          simp only at le
          omega
        have free := (assigned.left id out).mp (by simp only at le ⊢; omega)
        have alone : ¬∃ g ∈ chosen, mu.shares g id = true := by
          rintro ⟨g, member, met⟩
          rw [free g member] at met
          cases met
        rw [if_pos (by simpa using whole), Greedy.pick, if_neg alone]
        refine ih nodup.2 (fun g member => ?_) (fun g member => ?_)
          (assigned.select counted two free whole)
        · rw [List.mem_append, List.mem_singleton, not_or]
          exact ⟨later g member, fun same => nodup.1 (same ▸ member)⟩
        · rcases List.mem_append.mp member with old | last
          · exact full g old
          · rwa [List.mem_singleton.mp last]
      · have stay : assignGroup (mu₁, nb) id = (mu₁, nb) := if_pos (not_le.mp two)
        rw [stay]
        split
        · rename_i whole
          rw [decide_eq_true_eq] at whole
          have met : ∃ g ∈ chosen, mu.shares g id = true := by
            by_contra none
            have free := (assigned.left id out).mpr fun g member =>
              Bool.eq_false_iff.mpr fun met => none ⟨g, member, met⟩
            simp only at free
            omega
          rw [Greedy.pick, if_pos met]
          exact ih nodup.2 later full assigned
        · exact ih nodup.2 later full assigned

/-! ## One access point -/

/-- The stations that are listed in a group -/
def MuInfo.listed (mu : MuInfo Sta) (stas : List Sta) (id : Nat) : List Sta :=
  stas.filter fun s => (mu.info s).sending && decide (id ∈ groupIds (mu.info s).map)

omit [DecidableEq Sta] in
theorem filter_entries (mu : MuInfo Sta) (stas : List Sta) (id : Nat) :
    (mu.entries stas).filter (·.2 = id) =
      (mu.listed stas id).map fun s => ((mu.info s).traffic, id) := by
  have own : ∀ (ids : List Nat) (t : Int32), ids.Nodup →
      (ids.map fun id => (t, id)).filter (·.2 = id) = if id ∈ ids then [(t, id)] else [] := by
    intro ids t nodup
    induction ids with
    | nil => rfl
    | cons x rest ih =>
        rw [List.nodup_cons] at nodup
        rw [List.map_cons, List.filter_cons, ih nodup.2]
        by_cases same : x = id
        · subst same
          simp [nodup.1]
        · simp [same, Ne.symm same]
  induction stas with
  | nil => rfl
  | cons s rest ih =>
      rw [entries_cons, List.filter_append, ih, MuInfo.listed, MuInfo.listed, List.filter_cons]
      by_cases sending : (mu.info s).sending = true
      · rw [if_pos sending, own _ _ (nodup_groupIds _)]
        by_cases member : id ∈ groupIds (mu.info s).map
        · simp [sending, member]
        · simp [sending, member]
      · simp [sending]

omit [DecidableEq Sta] in
theorem users_entries (mu : MuInfo Sta) (stas : List Sta) (id : Nat) :
    users (mu.entries stas) id = (mu.listed stas id).length := by
  rw [users, List.countP_eq_length_filter, filter_entries, List.length_map]

omit [DecidableEq Sta] in
theorem weight_entries (mu : MuInfo Sta) (stas : List Sta) (id : Nat) :
    weight (mu.entries stas) id = ((mu.listed stas id).map fun s => (mu.info s).traffic).sum := by
  rw [weight, filter_entries, List.map_map]
  rfl

/-- The group has two users, and both are stations of the access point that have sent enough. -/
structure Candidate (mu : MuInfo Sta) (stas : List Sta) (id : Nat) : Prop where
  range : 0 < id ∧ id ≤ nxMuGroupMax
  two : (mu.groups id).userCnt = 2
  here : ∀ s, mu.User s id → s ∈ stas ∧ (mu.info s).sending = true

/-- What the users of a group have sent, as an `int` -/
def MuInfo.load (mu : MuInfo Sta) (id : Nat) : Int32 :=
  (((mu.groups id).users ⟨0, Nat.zero_lt_two⟩).elim 0 fun s => (mu.info s).traffic) +
    ((mu.groups id).users ⟨1, Nat.one_lt_two⟩).elim 0 fun s => (mu.info s).traffic

omit [DecidableEq Sta] in
theorem MuInfo.load_eq (mu : MuInfo Sta) (id : Nat) :
    mu.load id = (((mu.groups id).users 0).elim 0 fun s => (mu.info s).traffic) +
      ((mu.groups id).users 1).elim 0 fun s => (mu.info s).traffic := rfl

/-- All groups are paired. -/
def AllPaired (mu : MuInfo Sta) : Prop :=
  ∀ id, 0 < id → id ≤ nxMuGroupMax → Paired mu (fun _ => True) id

section

variable {mu : MuInfo Sta} {stas : List Sta} {id : Nat}

omit [DecidableEq Sta] in
theorem mem_listed {s : Sta} : s ∈ mu.listed stas id ↔
    s ∈ stas ∧ (mu.info s).sending = true ∧ id ∈ groupIds (mu.info s).map := by
  rw [MuInfo.listed, List.mem_filter, Bool.and_eq_true, decide_eq_true_eq]

omit [DecidableEq Sta] in
theorem AllPaired.pair (paired : AllPaired mu) {s : Sta} (own : id ∈ groupIds (mu.info s).map) :
    ∃ a b, a ≠ b ∧ (mu.groups id).userCnt = 2 ∧ (mu.groups id).users = ![some a, some b] ∧
      ∀ t, id ∈ groupIds (mu.info t).map ↔ t = a ∨ t = b := by
  obtain ⟨range, has⟩ := mem_groupIds.mp own
  cases paired id range.1 range.2 with
  | free _ nobody => exact absurd has (nobody s trivial)
  | pair ne _ two users has =>
      refine ⟨_, _, ne, two, users, fun t => ?_⟩
      rw [mem_groupIds]
      exact (and_iff_right range).trans (has t trivial)

omit [DecidableEq Sta] in
/-- The listed stations of a group with two users are among these. -/
theorem listed_pair {a b : Sta} (nodup : stas.Nodup) (ne : a ≠ b)
    (two : (mu.groups id).userCnt = 2) (users : (mu.groups id).users = ![some a, some b])
    (own : ∀ t, id ∈ groupIds (mu.info t).map ↔ t = a ∨ t = b) :
    (mu.listed stas id).length ≤ 2 ∧ ((mu.listed stas id).length = 2 ↔ Candidate mu stas id) ∧
      (Candidate mu stas id → (mu.listed stas id).Perm [a, b]) := by
  have pair : [a, b].Nodup := by simp [ne]
  have inside : mu.listed stas id ⊆ [a, b] := fun s member => by
    have one := (own s).mp (mem_listed.mp member).2.2
    simpa using one
  have once : (mu.listed stas id).Nodup := nodup.filter _
  have sub := once.subperm inside
  have range : 0 < id ∧ id ≤ nxMuGroupMax := (mem_groupIds.mp ((own a).mpr (.inl rfl))).1
  have full : Candidate mu stas id → (mu.listed stas id).Perm [a, b] := by
    intro cand
    refine (List.perm_ext_iff_of_nodup once pair).mpr fun s => ⟨fun member => inside member, ?_⟩
    intro member
    have one : s = a ∨ s = b := by simpa using member
    obtain ⟨here, sending⟩ := cand.here s ((user_pair users s).mpr one)
    exact mem_listed.mpr ⟨here, sending, (own s).mpr one⟩
  refine ⟨sub.length_le, ⟨fun whole => ?_, fun cand => (full cand).length_eq⟩, full⟩
  have perm := sub.perm_of_length_le (by rw [whole]; rfl)
  refine ⟨range, two, fun s user => ?_⟩
  have one := (user_pair users s).mp user
  have member : s ∈ mu.listed stas id := perm.mem_iff.mpr (by simpa using one)
  exact ⟨(mem_listed.mp member).1, (mem_listed.mp member).2.1⟩

omit [DecidableEq Sta] in
theorem Candidate.pair (paired : AllPaired mu) (cand : Candidate mu stas id) :
    ∃ a b, a ≠ b ∧ (mu.groups id).users = ![some a, some b] ∧
      ∀ t, id ∈ groupIds (mu.info t).map ↔ t = a ∨ t = b := by
  cases paired id cand.range.1 cand.range.2 with
  | free zero _ =>
      rw [cand.two] at zero
      cases zero
  | pair ne _ _ users has =>
      refine ⟨_, _, ne, users, fun t => ?_⟩
      rw [mem_groupIds]
      exact (and_iff_right cand.range).trans (has t trivial)

omit [DecidableEq Sta] in
/-- A group has at most two listed stations, and it has two if its users are. -/
theorem listed_length (paired : AllPaired mu) (nodup : stas.Nodup) :
    (mu.listed stas id).length ≤ 2 ∧ ((mu.listed stas id).length = 2 ↔ Candidate mu stas id) := by
  by_cases some : ∃ s, id ∈ groupIds (mu.info s).map
  · obtain ⟨s, own⟩ := some
    obtain ⟨a, b, ne, two, users, own⟩ := paired.pair own
    obtain ⟨le, iff, -⟩ := listed_pair nodup ne two users own
    exact ⟨le, iff⟩
  · have none : mu.listed stas id = [] :=
      List.eq_nil_iff_forall_not_mem.mpr fun s member => some ⟨s, (mem_listed.mp member).2.2⟩
    rw [none]
    refine ⟨Nat.zero_le 2, fun h => absurd h (by simp), fun cand => ?_⟩
    obtain ⟨a, b, _, _, own⟩ := cand.pair paired
    exact absurd ⟨a, (own a).mpr (.inl rfl)⟩ some

omit [DecidableEq Sta] in
theorem counted_entries (paired : AllPaired mu) (nodup : stas.Nodup) :
    Counted mu (users (mu.entries stas)) where
  most id := by
    rw [users_entries]
    exact (listed_length paired nodup).1
  pair id two := by
    rw [users_entries, (listed_length paired nodup).2] at two
    obtain ⟨a, b, ne, users, own⟩ := two.pair paired
    exact ⟨a, b, ne, users, (own a).mpr (.inl rfl), (own b).mpr (.inr rfl)⟩

omit [DecidableEq Sta] in
theorem weight_load (paired : AllPaired mu) (nodup : stas.Nodup) (cand : Candidate mu stas id) :
    weight (mu.entries stas) id = mu.load id := by
  obtain ⟨a, b, ne, users, own⟩ := cand.pair paired
  have perm := (listed_pair nodup ne cand.two users own).2.2 cand
  rw [weight_entries, MuInfo.load_eq, users, List.sum_eq_foldr, (perm.map _).foldr_op_eq]
  simp

/-- What is known of the groups of other access points -/
structure Earlier (mu : MuInfo Sta) (old : List Nat) (stas : List Sta) : Prop where
  nodup : old.Nodup
  range : ∀ id ∈ old, 0 < id ∧ id ≤ nxMuGroupMax
  apart : ∀ id ∈ old, ∀ s ∈ stas, id ∉ groupIds (mu.info s).map

/-- How the groups of an access point are selected -/
structure Selected (mu mu' : MuInfo Sta) (stas : List Sta) (chosen : List Nat) : Prop where
  candidate : ∀ g ∈ chosen, Candidate mu stas g
  apart : chosen.Pairwise fun g g' => ∀ s, mu.User s g → ¬mu.User s g'
  greedy : ∀ id, Candidate mu stas id → id ∈ chosen ∨
    ∃ g ∈ chosen, mu.load id ≤ mu.load g ∧ ∃ s, mu.User s g ∧ mu.User s id
  given : ∀ g ∈ chosen, ∀ s, mu.User s g → mu'.info s = { mu.info s with traffic := 0, group := g }
  rest : ∀ s ∈ stas, (∀ g ∈ chosen, ¬mu.User s g) →
    mu'.info s = { mu.info s with traffic := 0, group := 0 }

omit [DecidableEq Sta] in
theorem Earlier.fresh {old : List Nat} (earlier : Earlier mu old stas)
    (two : 2 ≤ users (mu.entries stas) id) : id ∉ old ∧ 0 < id ∧ id ≤ nxMuGroupMax := by
  rw [users_entries] at two
  obtain ⟨s, member⟩ := List.exists_mem_of_length_pos (lt_of_lt_of_le Nat.zero_lt_two two)
  obtain ⟨here, -, own⟩ := mem_listed.mp member
  exact ⟨fun old => earlier.apart id old s here own, (mem_groupIds.mp own).1⟩

omit [DecidableEq Sta] in
theorem Earlier.append {old new : List Nat} (earlier : Earlier mu old stas) (nodup : new.Nodup)
    (two : ∀ id ∈ new, 2 ≤ users (mu.entries stas) id) :
    (old ++ new).Nodup ∧ ∀ id ∈ old ++ new, 0 < id ∧ id ≤ nxMuGroupMax := by
  refine ⟨List.nodup_append.mpr ⟨earlier.nodup, nodup, ?_⟩, fun id member => ?_⟩
  · rintro x first _ second rfl
    exact (earlier.fresh (two x second)).1 first
  · rcases List.mem_append.mp member with first | second
    · exact earlier.range id first
    · exact (earlier.fresh (two id second)).2

omit [DecidableEq Sta] in
theorem Earlier.room {old : List Nat} (earlier : Earlier mu old stas) :
    Room old (mu.entries stas) := by
  intro new nodup two
  obtain ⟨nodup, range⟩ := earlier.append nodup two
  have sub : old ++ new ⊆ List.range' 1 nxMuGroupMax := fun id member =>
    range_groups.mpr (range id member)
  have le := (nodup.subperm sub).length_le
  rwa [List.length_range'] at le

theorem cleared_informed (mu : MuInfo Sta) (stas : List Sta) : Informed mu (mu.cleared stas) := by
  induction stas generalizing mu with
  | nil => rfl
  | cons s rest ih =>
      have first : Informed mu (mu.onInfo s fun info => { info with traffic := 0, group := 0 }) :=
        rfl
      exact first.trans (ih _)

theorem cleared_map (mu : MuInfo Sta) (stas : List Sta) (s : Sta) :
    ((mu.cleared stas).info s).map = (mu.info s).map := by
  rw [cleared_info]
  split
  · rfl
  · rfl

omit [DecidableEq Sta] in
theorem Counted.congr {mu' : MuInfo Sta} {count : Nat → Nat} (counted : Counted mu count)
    (groups : mu'.groups = mu.groups) (map : ∀ s, (mu'.info s).map = (mu.info s).map) :
    Counted mu' count where
  most := counted.most
  pair id two := by
    obtain ⟨a, b, ne, users, first, second⟩ := counted.pair id two
    refine ⟨a, b, ne, groups ▸ users, ?_, ?_⟩
    · rwa [map]
    · rwa [map]

omit [DecidableEq Sta] in
theorem shares_congr {mu' : MuInfo Sta} (groups : mu'.groups = mu.groups)
    (map : ∀ s, (mu'.info s).map = (mu.info s).map) (g id : Nat) :
    mu'.shares g id = mu.shares g id := by
  simp only [MuInfo.shares, groups, map]

omit [DecidableEq Sta] in
theorem user_of_shares {g : Nat} (paired : AllPaired mu) (cand : Candidate mu stas id) :
    mu.shares g id = true ↔ ∃ s, mu.User s g ∧ mu.User s id := by
  obtain ⟨a, b, ne, users, own⟩ := cand.pair paired
  constructor
  · intro shares
    simp only [MuInfo.shares, List.any_eq_true, Option.any_eq_true, decide_eq_true_eq] at shares
    obtain ⟨j, -, s, user, has⟩ := shares
    refine ⟨s, ?_, (user_pair users s).mpr ((own s).mp has)⟩
    match j with
    | 0 => exact .inl user
    | 1 => exact .inr user
  · rintro ⟨s, first, second⟩
    exact shares_of_user first ((own s).mpr ((user_pair users s).mp second))

/-- One access point has its groups selected. -/
theorem selectVif_selected (paired : AllPaired mu) (nodup : stas.Nodup) {old : List Nat}
    (earlier : Earlier mu old stas) :
    ∃ mu' order chosen, mu.selectVif old stas = some (mu', order) ∧ Selected mu mu' stas chosen ∧
      Informed mu mu' ∧ (∀ s, s ∉ stas → mu'.info s = mu.info s) ∧
      order.Nodup ∧ ∀ id ∈ order, id ∈ old ∨ Candidate mu stas id := by
  have start : Tallied old [] ⟨0, 0, old⟩ := by
    refine ⟨fun id => rfl, fun id => rfl, [], (List.append_nil old).symm, List.nodup_nil,
      fun id => ?_⟩
    simp [users]
  obtain ⟨st, gathered, tallied⟩ := gather_tallied stas nodup start (by
    rw [List.nil_append]
    exact earlier.room)
  rw [List.nil_append] at tallied
  obtain ⟨new, appended, once, two⟩ := tallied.order
  obtain ⟨distinct, -⟩ := earlier.append once fun id => (two id).mp
  obtain ⟨order, sort, perm, sorted⟩ := Exchange.sort_eq
    (Nat.lt_succ_of_le (Exchange.wrong_le st.order) :
      Exchange.wrong (fun id => (st.traffic id).toInt) st.order < _)
  have order_nodup : order.Nodup := perm.nodup_iff.mpr (appended ▸ distinct)
  have cand : ∀ id, users (mu.entries stas) id = 2 ↔ Candidate mu stas id := fun id => by
    rw [users_entries]
    exact (listed_length paired nodup).2
  have groups := (cleared_informed mu stas).groups
  have counted := (counted_entries paired nodup).congr groups (cleared_map mu stas)
  have assigned := assign_pick counted order order_nodup
    (s := (mu.cleared stas, st.nbUsers)) (fun _ _ => List.not_mem_nil)
    (fun _ member => absurd member List.not_mem_nil)
    ⟨rfl, fun id => le_of_eq (tallied.nbUsers id), fun id _ => by simp [tallied.nbUsers],
      fun _ member => absurd member List.not_mem_nil, fun _ _ => rfl⟩
  have same : (mu.cleared stas).shares = mu.shares := by
    funext g id
    exact shares_congr groups (cleared_map mu stas) g id
  rw [same] at assigned
  set chosen := Greedy.pick mu.shares []
    (order.filter fun id => users (mu.entries stas) id = 2) with picked
  have candidate : ∀ g ∈ chosen, Candidate mu stas g := by
    intro g member
    rcases Greedy.mem_pick member with absent | member
    · cases absent
    · exact (cand g).mp (by simpa using (List.mem_filter.mp member).2)
  have user : ∀ g s, (mu.cleared stas).User s g ↔ mu.User s g := fun g s => by
    rw [MuInfo.User, MuInfo.User, groups]
  refine ⟨(order.foldl assignGroup (mu.cleared stas, st.nbUsers)).1, order, chosen, ?_,
    ⟨candidate, ?_, fun id c => ?_, fun g member s use => ?_,
    fun s here out => ?_⟩, ?_, fun s out => ?_, order_nodup, fun id member => ?_⟩
  · rw [MuInfo.selectVif]
    refine Option.bind_eq_some_iff.mpr ⟨_, gathered, ?_⟩
    exact Option.bind_eq_some_iff.mpr ⟨_, sort, rfl⟩
  · refine (Greedy.pick_pairwise List.Pairwise.nil).imp_of_mem ?_
    intro g g' first second apart s use use'
    exact apart ((user_of_shares paired (candidate g' second)).mpr ⟨s, use, use'⟩)
  · have inside : id ∈ order.filter fun id => users (mu.entries stas) id = 2 := by
      have two' := (cand id).mpr c
      rw [List.mem_filter, perm.mem_iff, appended, List.mem_append, two, two']
      exact ⟨.inr (Nat.le_refl 2), by simp⟩
    have greedy : id ∈ chosen ∨ ∃ g ∈ chosen, mu.shares g id = true ∧
        (st.traffic id).toInt ≤ (st.traffic g).toInt :=
      Greedy.pick_maximal (sorted.filter _) (fun _ member => absurd member List.not_mem_nil) inside
    rcases greedy with taken | lost
    · exact .inl taken
    · obtain ⟨g, member, meet, le⟩ := lost
      rw [← Int32.le_iff_toInt_le, tallied.traffic, tallied.traffic, weight_load paired nodup c,
        weight_load paired nodup (candidate g member)] at le
      exact .inr ⟨g, member, le, (user_of_shares paired c).mp meet⟩
  · rw [assigned.given g member s ((user g s).mpr use), cleared_info,
      if_pos ((candidate g member).here s use).1]
  · rw [assigned.rest s fun g member use => out g member ((user g s).mp use), cleared_info,
      if_pos here]
  · exact (cleared_informed mu stas).trans assigned.informed
  · rw [assigned.rest s fun g member use =>
      out ((candidate g member).here s ((user g s).mp use)).1, cleared_info, if_neg out]
  · rw [perm.mem_iff, appended, List.mem_append] at member
    refine member.imp_right fun member => (cand id).mp ?_
    have most := (counted_entries paired nodup).most id
    have least := (two id).mp member
    omega

end

/-! ## All access points -/

section

variable {mu mu' : MuInfo Sta}

omit [DecidableEq Sta] in
theorem AllPaired.congr (paired : AllPaired mu) (groups : mu'.groups = mu.groups)
    (map : ∀ s, (mu'.info s).map = (mu.info s).map) : AllPaired mu' := by
  intro id pos le
  have has : ∀ s, mu'.Has s id ↔ mu.Has s id := fun s => by rw [MuInfo.Has, MuInfo.Has, map]
  cases paired id pos le with
  | free zero nobody =>
      exact .free (groups ▸ zero) fun s who own => nobody s who ((has s).mp own)
  | pair ne inside two users own =>
      exact .pair ne inside (groups ▸ two) (groups ▸ users) fun s who => (has s).trans (own s who)

omit [DecidableEq Sta] in
theorem Selected.map {stas : List Sta} {chosen : List Nat} (selected : Selected mu mu' stas chosen)
    (others : ∀ s, s ∉ stas → mu'.info s = mu.info s) (s : Sta) :
    (mu'.info s).map = (mu.info s).map := by
  by_cases here : s ∈ stas
  · by_cases used : ∃ g ∈ chosen, mu.User s g
    · obtain ⟨g, member, use⟩ := used
      rw [selected.given g member s use]
    · rw [selected.rest s here fun g member use => used ⟨g, member, use⟩]
  · rw [others s here]

omit [DecidableEq Sta] in
theorem Candidate.congr {stas : List Sta} {id : Nat} (groups : mu'.groups = mu.groups)
    (info : ∀ s ∈ stas, mu'.info s = mu.info s) (cand : Candidate mu stas id) :
    Candidate mu' stas id where
  range := cand.range
  two := groups ▸ cand.two
  here s user := by
    rw [MuInfo.User, groups] at user
    obtain ⟨here, sending⟩ := cand.here s user
    exact ⟨here, (info s here) ▸ sending⟩

omit [DecidableEq Sta] in
theorem Candidate.load_congr {stas : List Sta} {id : Nat} (cand : Candidate mu stas id)
    (groups : mu'.groups = mu.groups) (info : ∀ s ∈ stas, mu'.info s = mu.info s) :
    mu'.load id = mu.load id := by
  have side : ∀ i : Fin 2, (∀ s, (mu.groups id).users i = some s → mu.User s id) →
      (((mu.groups id).users i).elim 0 fun s => (mu'.info s).traffic) =
        ((mu.groups id).users i).elim 0 fun s => (mu.info s).traffic := by
    intro i user
    cases taken : (mu.groups id).users i with
    | none => rfl
    | some s => exact congrArg GroupInfo.traffic (info s (cand.here s (user s taken)).1)
  rw [MuInfo.load_eq, MuInfo.load_eq, groups, side 0 fun s taken => .inl taken,
    side 1 fun s taken => .inr taken]

omit [DecidableEq Sta] in
/-- What is selected does not depend on other stations. -/
theorem Selected.congr {mu₁ mu₂ : MuInfo Sta} {stas : List Sta} {chosen : List Nat}
    (selected : Selected mu₁ mu₂ stas chosen) (groups : mu₁.groups = mu.groups)
    (before : ∀ s ∈ stas, mu₁.info s = mu.info s) (after : ∀ s ∈ stas, mu'.info s = mu₂.info s) :
    Selected mu mu' stas chosen := by
  have user : ∀ g s, mu₁.User s g ↔ mu.User s g := fun g s => by
    rw [MuInfo.User, MuInfo.User, groups]
  have cand : ∀ {id}, Candidate mu₁ stas id ↔ Candidate mu stas id := fun {id} =>
    ⟨Candidate.congr groups.symm fun s here => (before s here).symm, Candidate.congr groups before⟩
  refine ⟨fun g member => cand.mp (selected.candidate g member), ?_, fun id c => ?_,
    fun g member s use => ?_, fun s here out => ?_⟩
  · exact selected.apart.imp fun apart s use use' =>
      apart s ((user _ s).mpr use) ((user _ s).mpr use')
  · refine (selected.greedy id (cand.mpr c)).imp_right ?_
    rintro ⟨g, member, le, s, use, use'⟩
    rw [c.load_congr groups before,
      (cand.mp (selected.candidate g member)).load_congr groups before] at le
    exact ⟨g, member, le, s, (user g s).mp use, (user id s).mp use'⟩
  · have use' := (user g s).mpr use
    have here := ((selected.candidate g member).here s use').1
    rw [after s here, selected.given g member s use', before s here]
  · rw [after s here, selected.rest s here fun g member use => out g member ((user g s).mp use),
      before s here]

theorem selectVifs_selected (vifs : List (List Sta)) (paired : AllPaired mu)
    (nodup : vifs.flatten.Nodup) {old : List Nat} (earlier : Earlier mu old vifs.flatten) :
    ∃ mu' order, vifs.foldlM (fun s stas => MuInfo.selectVif s.1 s.2 stas) (mu, old) =
        some (mu', order) ∧ Informed mu mu' ∧
      (∀ s, s ∉ vifs.flatten → mu'.info s = mu.info s) ∧
      ∀ stas ∈ vifs, ∃ chosen, Selected mu mu' stas chosen := by
  induction vifs generalizing mu old with
  | nil => exact ⟨mu, old, rfl, rfl, fun _ _ => rfl, fun _ member => absurd member List.not_mem_nil⟩
  | cons stas rest ih =>
      rw [List.flatten_cons] at nodup earlier
      obtain ⟨nodup₁, nodup₂, disjoint⟩ := List.nodup_append.mp nodup
      obtain ⟨mu₁, order₁, chosen, run, selected, informed, others, once, from_here⟩ :=
        selectVif_selected paired nodup₁ (show Earlier mu old stas from
          ⟨earlier.nodup, earlier.range, fun id member s here =>
            earlier.apart id member s (List.mem_append_left _ here)⟩)
      have map := selected.map others
      have apart : ∀ s ∈ rest.flatten, s ∉ stas := fun s later here => disjoint s here s later rfl
      have earlier' : Earlier mu₁ order₁ rest.flatten := by
        refine ⟨once, fun id member => ?_, fun id member s later own => ?_⟩
        · rcases from_here id member with before | cand
          · exact earlier.range id before
          · exact cand.range
        · rw [map] at own
          rcases from_here id member with before | cand
          · exact earlier.apart id before s (List.mem_append_right _ later) own
          · obtain ⟨a, b, -, users, has⟩ := cand.pair paired
            exact apart s later (cand.here s ((user_pair users s).mpr ((has s).mp own))).1
      obtain ⟨mu', order, run', informed', others', all⟩ :=
        ih (paired.congr informed.groups map) nodup₂ earlier'
      refine ⟨mu', order, ?_, informed.trans informed', fun s out => ?_, fun t member => ?_⟩
      · rw [List.foldlM_cons]
        exact Option.bind_eq_some_iff.mpr ⟨_, run, run'⟩
      · rw [List.flatten_cons, List.mem_append, not_or] at out
        rw [others' s out.2, others s out.1]
      · rcases List.mem_cons.mp member with rfl | later
        · refine ⟨chosen, selected.congr rfl (fun _ _ => rfl) fun s here => ?_⟩
          exact others' s fun later => disjoint s here s later rfl
        · obtain ⟨chosen', selected'⟩ := all t later
          refine ⟨chosen', selected'.congr informed.groups (fun s here => ?_) fun _ _ => rfl⟩
          exact others s (apart s (List.mem_flatten_of_mem later here))

/-- The selection goes through with the arrays it has, and chooses in each access point groups
    that share no station, greedily by what their users have sent. -/
theorem staSelect_selected (formed : Formed mu) (some : mu.groupCnt ≠ 0) {vifs : List (List Sta)}
    (nodup : vifs.flatten.Nodup) :
    ∃ mu', mu.staSelect vifs true = Option.some mu' ∧ Informed mu mu' ∧
      (∀ s, s ∉ vifs.flatten → mu'.info s = mu.info s) ∧
      ∀ stas ∈ vifs, ∃ chosen, Selected mu mu' stas chosen := by
  have none : Earlier mu [] vifs.flatten :=
    ⟨List.nodup_nil, fun _ member => absurd member List.not_mem_nil,
      fun _ member => absurd member List.not_mem_nil⟩
  obtain ⟨mu', order, run, rest⟩ := selectVifs_selected vifs formed.paired nodup none
  refine ⟨mu', ?_, rest⟩
  rw [MuInfo.staSelect, if_neg (by simp [some]), run]
  rfl

end

end Aic8800.Mu
