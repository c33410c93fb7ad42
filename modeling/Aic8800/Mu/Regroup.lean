import Aic8800.Mu.Formed

/-! # New groups

`rwnx_mu_group_work` makes a pair of every two stations that were active, the last active first. A
new pair takes the group that was not used for the longest time, and each pair that it comes by
counts as used. What it may create is counted twice, so that there are 31 new groups at most; this
is enough for all pairs of eight stations.
-/

namespace Aic8800.Mu

variable {Sta : Type} [DecidableEq Sta] {mu mu' : MuInfo Sta}

/-- No group without users names one. -/
def Clean (mu : MuInfo Sta) : Prop :=
  ∀ id, 0 < id → id ≤ nxMuGroupMax → (mu.groups id).userCnt = 0 →
    (mu.groups id).users = fun _ => none

/-- The count of every station is that of its groups. -/
structure Exact (mu : MuInfo Sta) : Prop where
  clean : Clean mu
  slack : ∀ s, mu.slack s = 0

/-- One pair has been come by: its group is at the head now, and it is one that had the pair or the
    one that was at the end. -/
structure Created (mu mu' : MuInfo Sta) (a b : Sta) (id : Nat) : Prop extends Kept mu mu' where
  formed : Formed mu'
  activeGroups : mu'.activeGroups = id :: mu.activeGroups.erase id
  first : mu'.Has a id
  second : mu'.Has b id
  others : ∀ s g, g ∈ mu.activeGroups.dropLast → mu.Has s g → mu'.Has s g
  gained : ∀ s, s ≠ a → s ≠ b → ∀ g, mu'.Has s g → mu.Has s g
  exact : Exact mu → Exact mu'
  quiet : ∀ s, (mu'.info s).update = false →
    (mu.info s).update = false ∧ (mu'.info s).map = (mu.info s).map

omit [DecidableEq Sta] in
theorem Formed.getLast (formed : Formed mu) : ∃ id, mu.activeGroups.getLast? = some id ∧
    (0 < id ∧ id ≤ nxMuGroupMax) ∧ ∀ g ∈ mu.activeGroups.dropLast, g ≠ id := by
  have nodup : mu.activeGroups.Nodup := formed.groups.nodup_iff.mpr List.nodup_range'
  have some : mu.activeGroups ≠ [] := fun none => by
    have length := formed.groups.length_eq
    rw [none, List.length_range'] at length
    cases length
  refine ⟨_, List.getLast?_eq_some_getLast some,
    (mem_activeGroups formed).mp (List.getLast_mem some), fun g member same => ?_⟩
  rw [← List.dropLast_append_getLast some, List.nodup_append] at nodup
  exact nodup.2.2 g member _ (List.mem_singleton_self _) same

theorem takeOver_exact (formed : Formed mu) {id : Nat} (range : 0 < id ∧ id ≤ nxMuGroupMax)
    {a b : Sta} (ne : a ≠ b) (exact : Exact mu) : Exact (mu.handOver id a b) := by
  have turned := handOver_turned mu id a b
  have paired := formed.paired id range.1 range.2
  refine ⟨fun g pos le zero => ?_, fun s => ?_⟩
  · rw [turned.groups] at zero ⊢
    split
    · rename_i same
      rw [if_pos same] at zero
      exact absurd zero (show (2 : Int) ≠ 0 by decide)
    · rename_i other
      rw [if_neg other] at zero
      exact exact.clean g pos le zero
  · rw [handOver_slack range paired ne, exact.slack]
    cases paired with
    | free zero nobody =>
        have empty := exact.clean id range.1 range.2 zero
        have lost : ¬(mu.info s).map.getLsbD id = true := nobody s trivial
        rw [empty, if_neg lost]
        simp
    | @pair c d ne _ _ users has =>
        have own : (mu.info s).map.getLsbD id = true ↔ s = c ∨ s = d := has s trivial
        rw [users]
        by_cases first : s = c
        · subst first
          rw [if_pos (own.mpr (.inl rfl))]
          simp [ne.symm]
        · have second : ¬c = s := fun same => first same.symm
          by_cases last : s = d
          · subst last
            rw [if_pos (own.mpr (.inr rfl))]
            simp [ne]
          · have third : ¬d = s := fun same => last same.symm
            simp [own, first, second, last, third]

theorem createOne_created (formed : Formed mu) {a b : Sta} (ne : a ≠ b) (first : ¬mu.Has a 0)
    (second : ¬mu.Has b 0) (left : Int) : ∃ mu' new id,
      mu.createOne a b left = some (mu', if new then left - 1 else left, new) ∧
      Created mu mu' a b id := by
  rw [MuInfo.createOne]
  split
  · rename_i some
    have top := (getLsbD_fls64 some).1
    rw [BitVec.getLsbD_and, Bool.and_eq_true] at top
    generalize fls64 ((mu.info a).map &&& (mu.info b).map) - 1 = id at top ⊢
    have pos : 0 < id := by
      rcases Nat.eq_zero_or_pos id with rfl | pos
      · exact absurd top.1 first
      · exact pos
    have range := And.intro pos (formed.top a id top.1)
    refine ⟨mu.moveGroup id, false, id, ?_, ⟨rfl, rfl, rfl, rfl, fun _ => rfl, fun _ => rfl⟩,
      formed.moveGroup range, rfl, top.1, top.2, fun s g _ has => has,
      fun s _ _ g has => has, fun exact => ⟨exact.clean, exact.slack⟩, fun s off => ⟨off, rfl⟩⟩
    rw [groupFromId, if_pos range]
    rfl
  · obtain ⟨id, last, range, others⟩ := formed.getLast
    have turned := handOver_turned mu id a b
    have has := handOver_has range (formed.paired id range.1 range.2) a b
    have taken := formed.takeOver range ne first second
    refine ⟨_, true, id, ?_, ?_, taken.moveGroup range, ?_, ?_, ?_, fun s g member own => ?_,
      fun s na nb g own => ?_, fun exact => ?_, ?_⟩
    · rw [last]
      rfl
    · rw [takeOver_eq]
      exact ⟨turned.activeSta, turned.updateCount, turned.pending, turned.sent, turned.active,
        turned.group⟩
    · rw [takeOver_eq]
      exact congrArg (fun l => id :: l.erase id) turned.activeGroups
    · rw [takeOver_eq]
      exact (has a id).mpr ((if_pos rfl : _ = _) ▸ .inl rfl)
    · rw [takeOver_eq]
      exact (has b id).mpr ((if_pos rfl : _ = _) ▸ .inr rfl)
    · rw [takeOver_eq]
      exact (has s g).mpr ((if_neg (others g member) : _ = _) ▸ own)
    · rw [takeOver_eq] at own
      have before := (has s g).mp own
      split at before
      · exact absurd before (not_or.mpr ⟨na, nb⟩)
      · exact before
    · rw [takeOver_eq]
      have after := takeOver_exact formed range ne exact
      exact ⟨after.clean, after.slack⟩
    · rw [takeOver_eq]
      exact turned.quiet

/-! ## All pairs -/

/-- Each of these pairs has a group among the first `k`. -/
def Recent (mu : MuInfo Sta) (k : Nat) (pairs : List (Sta × Sta)) : Prop :=
  ∀ p ∈ pairs, ∃ id ∈ mu.activeGroups.take k, mu.Has p.1 id ∧ mu.Has p.2 id

theorem mem_take_erase {α : Type} [DecidableEq α] {l : List α} {x y : α} {k : Nat}
    (member : y ∈ l.take k) (ne : y ≠ x) : y ∈ (l.erase x).take k := by
  induction l generalizing k with
  | nil => simp at member
  | cons z zs ih =>
      cases k with
      | zero => simp at member
      | succ k =>
          rw [List.take_succ_cons, List.mem_cons] at member
          by_cases same : z = x
          · subst same
            rw [List.erase_cons_head]
            exact (List.take_subset_take_left zs (Nat.le_succ k)) (member.resolve_left ne)
          · rw [List.erase_cons_tail (by simpa using same), List.take_succ_cons, List.mem_cons]
            exact member.imp_right ih

omit [DecidableEq Sta] in
/-- A pair that is come by does not take the group of one that was come by shortly before. -/
theorem Created.recent {a b : Sta} {id k : Nat} (formed : Formed mu)
    (created : Created mu mu' a b id) (few : k < nxMuGroupMax) {pairs : List (Sta × Sta)}
    (recent : Recent mu k pairs) : Recent mu' (k + 1) ((a, b) :: pairs) := by
  intro p member
  rw [created.activeGroups, List.take_succ_cons]
  rcases List.mem_cons.mp member with rfl | member
  · exact ⟨id, List.mem_cons_self, created.first, created.second⟩
  · obtain ⟨g, inside, first, second⟩ := recent p member
    have length := formed.groups.length_eq
    rw [List.length_range'] at length
    have front : g ∈ mu.activeGroups.dropLast := by
      rw [List.dropLast_eq_take]
      exact List.take_subset_take_left _ (by omega) inside
    refine ⟨g, ?_, created.others _ g front first, created.others _ g front second⟩
    by_cases same : g = id
    · exact same ▸ List.mem_cons_self
    · exact List.mem_cons_of_mem _ (mem_take_erase inside same)

/-- What a part of the work does: after `n` pairs, there is room for as many new groups as this. -/
structure Worked (mu mu' : MuInfo Sta) (left left' : Int) (new : List (Sta × Sta)) : Prop where
  formed : Formed mu'
  exact : Exact mu → Exact mu'
  pending : mu'.pending = mu.pending
  sent : mu'.sent = mu.sent
  group : ∀ s, (mu'.info s).group = (mu.info s).group
  gained : ∀ s, (∀ p ∈ new, s ≠ p.1 ∧ s ≠ p.2) → ∀ g, mu'.Has s g → mu.Has s g
  quiet : ∀ s, (mu'.info s).update = false →
    (mu.info s).update = false ∧ (mu'.info s).map = (mu.info s).map
  recent : ∀ k pairs, Recent mu k pairs → 2 * (k + new.length) ≤ nxMuGroupMax →
    (nxMuGroupMax : Int) ≤ left + 2 * k →
    Recent mu' (k + new.length) (new.reverse ++ pairs) ∧
      (nxMuGroupMax : Int) ≤ left' + 2 * (k + new.length)

omit [DecidableEq Sta] in
theorem Worked.stop (formed : Formed mu) {left : Int} {new : List (Sta × Sta)}
    (done : new = [] ∨ left = 0) : Worked mu mu left left new where
  formed := formed
  exact := id
  pending := rfl
  sent := rfl
  group _ := rfl
  gained _ _ _ own := own
  quiet _ off := ⟨off, rfl⟩
  recent k pairs recent room enough := by
    rcases done with rfl | rfl
    · exact ⟨recent, enough⟩
    · cases new with
      | nil => exact ⟨recent, enough⟩
      | cons p ps =>
          rw [List.length_cons] at room
          omega

omit [DecidableEq Sta] in
theorem Worked.trans {mu'' : MuInfo Sta} {l l' l'' : Int} {xs ys : List (Sta × Sta)}
    (h : Worked mu mu' l l' xs) (h' : Worked mu' mu'' l' l'' ys) :
    Worked mu mu'' l l'' (xs ++ ys) where
  formed := h'.formed
  exact := h'.exact ∘ h.exact
  pending := h'.pending.trans h.pending
  sent := h'.sent.trans h.sent
  group s := (h'.group s).trans (h.group s)
  gained s out g own := by
    have before := h'.gained s (fun p member => out p (List.mem_append_right xs member)) g own
    exact h.gained s (fun p member => out p (List.mem_append_left ys member)) g before
  quiet s off := by
    obtain ⟨off', same'⟩ := h'.quiet s off
    obtain ⟨off'', same⟩ := h.quiet s off'
    exact ⟨off'', same'.trans same⟩
  recent k pairs recent room enough := by
    rw [List.length_append] at room ⊢
    obtain ⟨recent', enough'⟩ := h.recent k pairs recent (by omega) enough
    obtain ⟨recent'', enough''⟩ := h'.recent (k + xs.length) _ recent' (by omega)
      (by push_cast; omega)
    rw [Nat.add_assoc, ← List.append_assoc, ← List.reverse_append] at recent''
    refine ⟨recent'', ?_⟩
    push_cast at enough'' ⊢
    omega

omit [DecidableEq Sta] in
theorem Created.worked {a b : Sta} {id : Nat} (formed : Formed mu) (created : Created mu mu' a b id)
    (left : Int) (new : Bool) :
    Worked mu mu' left (if new then (if new then left - 1 else left) - 1 else if new then left - 1
      else left) [(a, b)] where
  formed := created.formed
  exact := created.exact
  pending := created.pending
  sent := created.sent
  group := created.group
  gained s out := (fun ne => created.gained s ne.1 ne.2) (out _ (List.mem_singleton_self _))
  quiet := created.quiet
  recent k pairs recent room enough := by
    unfold nxMuGroupMax at room enough
    rw [List.length_singleton] at room ⊢
    refine ⟨created.recent formed (by unfold nxMuGroupMax; omega) recent, ?_⟩
    unfold nxMuGroupMax
    cases new with
    | false =>
        simp only [Bool.false_eq_true, if_false]
        omega
    | true =>
        simp only [if_true]
        omega

theorem create_worked (rest : List Sta) {a : Sta} (formed : Formed mu)
    (active : (mu.info a).active = true)
    (others : ∀ b ∈ rest, a ≠ b ∧ (mu.info b).active = true) (left : Int) :
    ∃ mu' left', MuInfo.create a rest mu left = some (mu', left') ∧ Kept mu mu' ∧
      Worked mu mu' left left' (rest.map (a, ·)) := by
  induction rest generalizing mu left with
  | nil => exact ⟨mu, left, rfl, .refl mu, .stop formed (.inl rfl)⟩
  | cons b rest ih =>
      rw [MuInfo.create]
      split
      · rename_i none
        exact ⟨mu, left, rfl, .refl mu, .stop formed (.inr none)⟩
      · obtain ⟨ne, active'⟩ := others b List.mem_cons_self
        obtain ⟨mu₁, new, id, run, created⟩ := createOne_created formed ne
          (formed.multi a active) (formed.multi b active') left
        obtain ⟨mu', left', run', kept, worked⟩ := ih created.formed
          (by rwa [created.active]) (fun c member => by
            obtain ⟨ne', active''⟩ := others c (List.mem_cons_of_mem _ member)
            exact ⟨ne', by rwa [created.active]⟩)
          (if new then (if new then left - 1 else left) - 1 else if new then left - 1 else left)
        refine ⟨mu', left', ?_, created.toKept.trans kept, ?_⟩
        · rw [run]
          exact run'
        · exact (created.worked formed left new).trans worked

/-- The pairs of a list, in the order in which they are come by -/
def pairsOf {α : Type} : List α → List (α × α)
  | [] => []
  | a :: rest => rest.map (a, ·) ++ pairsOf rest

omit [DecidableEq Sta] in
theorem mem_pairsOf {l : List Sta} {a b : Sta} (first : a ∈ l) (second : b ∈ l) (ne : a ≠ b) :
    (a, b) ∈ pairsOf l ∨ (b, a) ∈ pairsOf l := by
  induction l with
  | nil => cases first
  | cons x xs ih =>
      simp only [pairsOf, List.mem_append, List.mem_map, Prod.mk.injEq]
      rcases List.mem_cons.mp first with rfl | first'
      · rcases List.mem_cons.mp second with rfl | second'
        · exact absurd rfl ne
        · exact .inl (.inl ⟨b, second', rfl, rfl⟩)
      · rcases List.mem_cons.mp second with rfl | second'
        · exact .inr (.inl ⟨a, first', rfl, rfl⟩)
        · exact (ih first' second').imp .inr .inr

theorem pairsOf_mem {α : Type} {l : List α} {p : α × α} (member : p ∈ pairsOf l) :
    p.1 ∈ l ∧ p.2 ∈ l := by
  induction l with
  | nil => cases member
  | cons x xs ih =>
      rcases List.mem_append.mp member with here | later
      · obtain ⟨y, inside, rfl⟩ := List.mem_map.mp here
        exact ⟨List.mem_cons_self, List.mem_cons_of_mem x inside⟩
      · exact (ih later).imp (List.mem_cons_of_mem x) (List.mem_cons_of_mem x)

theorem length_pairsOf {α : Type} (l : List α) :
    2 * (pairsOf l).length + l.length = l.length * l.length := by
  induction l with
  | nil => rfl
  | cons x xs ih =>
      have square : (xs.length + 1) * (xs.length + 1) =
          xs.length * xs.length + 2 * xs.length + 1 := by
        ring
      rw [pairsOf, List.length_append, List.length_map, List.length_cons, square]
      omega

omit [DecidableEq Sta] in
/-- The invariant does not depend on what is not named here. -/
theorem Formed.congr (formed : Formed mu) (activeGroups : mu'.activeGroups = mu.activeGroups)
    (groups : mu'.groups = mu.groups) (groupCnt : mu'.groupCnt = mu.groupCnt)
    (map : ∀ s, (mu'.info s).map = (mu.info s).map) (cnt : ∀ s, (mu'.info s).cnt = (mu.info s).cnt)
    (active : Listed mu'.activeSta fun s => (mu'.info s).active)
    (multi : ∀ s, (mu'.info s).active = true → ¬mu.Has s 0)
    (update : Listed mu'.updateSta fun s => (mu'.info s).update) : Formed mu' := by
  have has : ∀ s g, mu'.Has s g ↔ mu.Has s g := fun s g => by rw [MuInfo.Has, map, MuInfo.Has]
  refine ⟨⟨activeGroups ▸ formed.groups, active, update, fun s on => (has s 0).not.mpr (multi s on),
    fun s g own => formed.top s g ((has s g).mp own), fun s g pos own => (has s 0).not.mpr
      (formed.alone s g pos ((has s g).mp own)), fun s => ?_⟩, fun g pos le => ?_, ?_⟩
  · rw [MuInfo.slack, map, cnt]
    exact formed.slack s
  · cases formed.paired g pos le with
    | free zero nobody =>
        exact .free (by rw [groups, zero]) fun s who => (has s g).not.mpr (nobody s who)
    | pair ne inside two users own =>
        exact .pair ne inside (by rw [groups, two]) (by rw [groups, users]) fun s who =>
          (has s g).trans (own s who)
  · rw [groupCnt, formed.count, MuInfo.inUse, MuInfo.inUse, groups]

omit [DecidableEq Sta] in
theorem Exact.congr (exact : Exact mu) (groups : mu'.groups = mu.groups)
    (map : ∀ s, (mu'.info s).map = (mu.info s).map) (cnt : ∀ s, (mu'.info s).cnt = (mu.info s).cnt) :
    Exact mu' where
  clean id pos le zero := by
    rw [groups] at zero ⊢
    exact exact.clean id pos le zero
  slack s := by
    rw [MuInfo.slack, map, cnt]
    exact exact.slack s

/-- What a change of one station leaves as it is -/
theorem onInfo_get {β : Type} (get : GroupInfo → β) (mu : MuInfo Sta) (s t : Sta)
    {f : GroupInfo → GroupInfo} (blind : ∀ i, get (f i) = get i) :
    get ((mu.onInfo s f).info t) = get (mu.info t) := by
  rw [MuInfo.onInfo_info]
  split
  · rename_i same
    rw [blind, same]
  · rfl

/-- The station has its turn, and leaves the list. -/
def MuInfo.served (mu : MuInfo Sta) (s : Sta) : MuInfo Sta :=
  (mu.onInfo s fun info => { info with lastUpdate := mu.updateCount }).delActive s

theorem served_formed (formed : Formed mu) (s : Sta) : Formed (mu.served s) := by
  have get : ∀ {β : Type} (get : GroupInfo → β) (t : Sta),
      (∀ i : GroupInfo, ∀ n, get { i with lastUpdate := n } = get i) →
      (∀ i : GroupInfo, get { i with active := false } = get i) →
      get ((mu.served s).info t) = get (mu.info t) := fun get t blind blind' =>
    (onInfo_get get _ s t blind').trans (onInfo_get get mu s t fun i => blind i _)
  have active : ∀ t, ((mu.served s).info t).active =
      Function.update (fun t => (mu.info t).active) s false t := by
    intro t
    rw [MuInfo.served, MuInfo.delActive, Function.update_apply]
    simp only [MuInfo.onInfo_info]
    split
    · rfl
    · rfl
  refine formed.congr rfl rfl rfl (fun t => get (·.map) t (fun _ _ => rfl) fun _ => rfl)
    (fun t => get (·.cnt) t (fun _ _ => rfl) fun _ => rfl) ((formed.active.erase s).congr active)
    (fun t on => ?_) (formed.update.congr fun t => get (·.update) t (fun _ _ => rfl) fun _ => rfl)
  rw [active, Function.update_apply] at on
  split at on
  · cases on
  · exact formed.multi t on

theorem served_worked (formed : Formed mu) (s : Sta) (left : Int) :
    Worked mu (mu.served s) left left [] := by
  have get : ∀ {β : Type} (get : GroupInfo → β) (t : Sta),
      (∀ i : GroupInfo, ∀ n, get { i with lastUpdate := n } = get i) →
      (∀ i : GroupInfo, get { i with active := false } = get i) →
      get ((mu.served s).info t) = get (mu.info t) := fun get t blind blind' =>
    (onInfo_get get _ s t blind').trans (onInfo_get get mu s t fun i => blind i _)
  have map := fun t => get (·.map) t (fun _ _ => rfl) fun _ => rfl
  refine ⟨served_formed formed s, fun exact => exact.congr rfl map fun t =>
    get (·.cnt) t (fun _ _ => rfl) fun _ => rfl, rfl, rfl, fun t =>
    get (·.group) t (fun _ _ => rfl) fun _ => rfl, fun t _ g own => by rwa [MuInfo.Has, map] at own,
    fun t off => ⟨(get (·.update) t (fun _ _ => rfl) fun _ => rfl).symm.trans off, map t⟩,
    fun k pairs recent _ enough => ⟨?_, enough⟩⟩
  intro p member
  obtain ⟨id, inside, first, second⟩ := recent p member
  refine ⟨id, inside, ?_, ?_⟩
  · rwa [MuInfo.Has, map]
  · rwa [MuInfo.Has, map]

theorem regroup_worked (l : List Sta) (formed : Formed mu) (list : mu.activeSta = l) (left : Int) :
    ∃ mu' left', MuInfo.regroup l mu left = some (mu', left') ∧ mu'.activeSta = [] ∧
      Worked mu mu' left left' (pairsOf l) := by
  induction l generalizing mu left with
  | nil => exact ⟨mu, left, rfl, list, .stop formed (.inl rfl)⟩
  | cons s rest ih =>
      have nodup := formed.active.nodup
      rw [list, List.nodup_cons] at nodup
      have active : ∀ t ∈ s :: rest, (mu.info t).active = true := fun t member =>
        (formed.active.mem t).mp (list ▸ member)
      obtain ⟨mu₁, left₁, run, kept, worked⟩ : ∃ mu₁ left₁,
          (if left ≠ 0 then MuInfo.create s rest mu left else some (mu, left)) = some (mu₁, left₁) ∧
            Kept mu mu₁ ∧ Worked mu mu₁ left left₁ (rest.map (s, ·)) := by
        split
        · exact create_worked rest formed (active s List.mem_cons_self) (fun b member =>
            ⟨fun same => nodup.1 (same ▸ member), active b (List.mem_cons_of_mem s member)⟩) left
        · rename_i none
          exact ⟨mu, left, rfl, .refl mu, .stop formed (.inr (not_not.mp none))⟩
      have rest_list : (mu₁.served s).activeSta = rest := by
        change mu₁.activeSta.erase s = rest
        rw [kept.activeSta, list, List.erase_cons_head]
      have served := served_worked worked.formed s left₁
      obtain ⟨mu', left', run', empty, worked'⟩ := ih served.formed rest_list left₁
      refine ⟨mu', left', ?_, empty, ?_⟩
      · rw [MuInfo.regroup, run]
        exact run'
      · exact worked.trans (served.trans worked')

/-! ## The firmware is told -/

/-- The station's request is done with. -/
def MuInfo.told (mu : MuInfo Sta) (sending : Sta → Sending) (s : Sta) : MuInfo Sta :=
  { mu with
    sent := if sending s = Sending.passed then mu.sent ++ [mu.updateReq s] else mu.sent }.delUpdate s

theorem told_formed (formed : Formed mu) (sending : Sta → Sending) (s : Sta) :
    Formed (mu.told sending s) ∧ (Exact mu → Exact (mu.told sending s)) := by
  have get : ∀ {β : Type} (get : GroupInfo → β) (t : Sta),
      (∀ i : GroupInfo, get { i with update := false } = get i) →
      get ((mu.told sending s).info t) = get (mu.info t) := fun get t blind =>
    onInfo_get get { mu with sent := _ } s t blind
  have map := fun t => get (·.map) t fun _ => rfl
  have cnt := fun t => get (·.cnt) t fun _ => rfl
  have active := fun t => get (·.active) t fun _ => rfl
  have update : ∀ t, ((mu.told sending s).info t).update =
      Function.update (fun t => (mu.info t).update) s false t := by
    intro t
    rw [MuInfo.told, MuInfo.delUpdate, Function.update_apply]
    simp only [MuInfo.onInfo_info]
    split
    · rfl
    · rfl
  exact ⟨formed.congr rfl rfl rfl map cnt (formed.active.congr active)
    (fun t on => formed.multi t ((active t).symm.trans on)) ((formed.update.erase s).congr update),
    fun exact => exact.congr rfl map cnt⟩

/-- What a request depends on -/
theorem updateReq_congr (mu mu' : MuInfo Sta) (groups : mu'.groups = mu.groups)
    (map : ∀ s, (mu'.info s).map = (mu.info s).map) (cnt : ∀ s, (mu'.info s).cnt = (mu.info s).cnt)
    (s : Sta) : mu'.updateReq s = mu.updateReq s := by
  rw [MuInfo.updateReq, MuInfo.updateReq, map, cnt]
  congr 1
  refine List.map_congr_left fun id _ => ?_
  simp only [MuInfo.staGetPos, MuInfo.place, groups]

theorem sends_congr (mu mu' : MuInfo Sta) (groups : mu'.groups = mu.groups)
    (map : ∀ s, (mu'.info s).map = (mu.info s).map) (cnt : ∀ s, (mu'.info s).cnt = (mu.info s).cnt)
    (s : Sta) (x : Sending) : mu'.Sends s x ↔ mu.Sends s x := by
  cases x <;>
    simp only [MuInfo.Sends, MuInfo.paramLen, updateReq_congr mu mu' groups map cnt s, cnt]

omit [DecidableEq Sta] in
theorem length_groupIds_le (map : BitVec 64) : (groupIds map).length ≤ nxMuGroupMax := by
  have sub : groupIds map ⊆ List.range' 1 nxMuGroupMax := fun id member =>
    range_groups.mpr (mem_groupIds.mp member).1
  have le := ((nodup_groupIds map).subperm sub).length_le
  rwa [List.length_range'] at le

/-- As long as the count of a station's groups is not negative, its request has room. -/
theorem sends_iff (formed : Formed mu) {s : Sta} (counted : 0 ≤ (mu.info s).cnt) (x : Sending) :
    mu.Sends s x ↔ x ≠ .noCommand := by
  have slack := formed.slack s
  have most := length_groupIds_le (mu.info s).map
  rw [MuInfo.slack] at slack
  unfold nxMuGroupMax at most
  have groups : (mu.updateReq s).groups.length = (mu.info s).cnt.toNat := by
    rw [MuInfo.updateReq, List.length_map, List.length_take]
    omega
  have len : mu.paramLen s = 2 + (mu.info s).cnt.toNat * 2 := by
    rw [MuInfo.paramLen]
    omega
  cases x <;> simp only [MuInfo.Sends, groups, len, cmdBufMax, ne_eq, reduceCtorEq,
    not_true_eq_false, not_false_eq_true, iff_true] <;> omega

/-- All requests are done with, as the stations are. -/
structure Told (mu mu' : MuInfo Sta) (sending : Sta → Sending) (l : List Sta) : Prop where
  formed : Formed mu'
  exact : Exact mu → Exact mu'
  updateSta : mu'.updateSta = l.foldl (·.erase ·) mu.updateSta
  activeSta : mu'.activeSta = mu.activeSta
  activeGroups : mu'.activeGroups = mu.activeGroups
  groups : mu'.groups = mu.groups
  map : ∀ s, (mu'.info s).map = (mu.info s).map
  cnt : ∀ s, (mu'.info s).cnt = (mu.info s).cnt
  group : ∀ s, (mu'.info s).group = (mu.info s).group
  sent : mu'.sent = mu.sent ++ (l.filter (sending · = .passed)).map mu.updateReq

/-- They are done with if each of them can be. -/
theorem sendUpdates_told (sending : Sta → Sending) (l : List Sta) (formed : Formed mu) :
    ((l.foldlM (fun (mu : MuInfo Sta) s => mu.sendUpdate sending s) mu).isSome ↔
      ∀ s ∈ l, mu.Sends s (sending s)) ∧
    ∀ mu', l.foldlM (fun (mu : MuInfo Sta) s => mu.sendUpdate sending s) mu = some mu' →
      Told mu mu' sending l := by
  induction l generalizing mu with
  | nil =>
      refine ⟨iff_of_true rfl fun s member => absurd member List.not_mem_nil, ?_⟩
      rintro mu' same
      obtain rfl := Option.some.inj same
      exact ⟨formed, id, rfl, rfl, rfl, rfl, fun _ => rfl, fun _ => rfl, fun _ => rfl,
        (List.append_nil _).symm⟩
  | cons s l ih =>
      obtain ⟨formed', exact'⟩ := told_formed formed sending s
      obtain ⟨some_iff, all⟩ := ih formed'
      have get : ∀ {β : Type} (get : GroupInfo → β) (t : Sta),
          (∀ i : GroupInfo, get { i with update := false } = get i) →
          get ((mu.told sending s).info t) = get (mu.info t) := fun get t blind =>
        onInfo_get get { mu with sent := _ } s t blind
      have map := fun t => get (·.map) t fun _ => rfl
      have cnt := fun t => get (·.cnt) t fun _ => rfl
      have later : (∀ t ∈ l, (mu.told sending s).Sends t (sending t)) ↔
          ∀ t ∈ l, mu.Sends t (sending t) :=
        forall₂_congr fun t _ => sends_congr mu (mu.told sending s) rfl map cnt t (sending t)
      rw [List.foldlM_cons, List.forall_mem_cons]
      by_cases sends : mu.Sends s (sending s)
      · have first : mu.sendUpdate sending s = some (mu.told sending s) := if_pos sends
        rw [first, Option.bind_eq_bind, Option.bind_some, some_iff, later]
        refine ⟨(and_iff_right sends).symm, fun mu' run => ?_⟩
        have told := all mu' run
        refine ⟨told.formed, told.exact ∘ exact', told.updateSta, told.activeSta, told.activeGroups,
          told.groups, fun t => (told.map t).trans (map t), fun t => (told.cnt t).trans (cnt t),
          fun t => (told.group t).trans (get (·.group) t fun _ => rfl), ?_⟩
        have reqs : (l.filter (sending · = .passed)).map (mu.told sending s).updateReq =
            (l.filter (sending · = .passed)).map mu.updateReq :=
          List.map_congr_left fun t _ => updateReq_congr mu (mu.told sending s) rfl map cnt t
        have own : (mu.told sending s).sent =
            if sending s = Sending.passed then mu.sent ++ [mu.updateReq s] else mu.sent := rfl
        rw [told.sent, reqs, own, List.filter_cons]
        by_cases passed : sending s = .passed
        · rw [if_pos passed, if_pos (decide_eq_true passed), List.map_cons, List.append_assoc]
          rfl
        · rw [if_neg passed, if_neg (by rw [decide_eq_false passed]; decide)]
      · have first : mu.sendUpdate sending s = none := if_neg sends
        rw [first]
        refine ⟨iff_of_false (by simp) fun both => sends both.1, fun mu' run => ?_⟩
        cases run

theorem foldl_erase_self (l : List Sta) : l.foldl (·.erase ·) l = [] := by
  induction l with
  | nil => rfl
  | cons x l ih => rwa [List.foldl_cons, List.erase_cons_head]

/-- What the work leaves behind -/
structure Regrouped (mu mu' : MuInfo Sta) (sending : Sta → Sending) : Prop where
  formed : Formed mu'
  activeSta : mu'.activeSta = []
  updateSta : mu'.updateSta = []
  exact : Exact mu → Exact mu'
  group : ∀ s, (mu'.info s).group = (mu.info s).group
  gained : ∀ s, s ∉ mu.activeSta → ∀ g, mu'.Has s g → mu.Has s g
  sent : ∃ l : List Sta, mu'.sent = mu.sent ++ (l.filter (sending · = .passed)).map mu'.updateReq ∧
    ∀ s ∉ l, (mu'.info s).map = (mu.info s).map
  pairs : mu.activeSta.length ≤ 8 → ∀ a ∈ mu.activeSta, ∀ b ∈ mu.activeSta, a ≠ b →
    ∃ id, mu'.Has a id ∧ mu'.Has b id

/-- The work comes to the requests, and goes through if each of them does. -/
theorem groupWork_regrouped (formed : Formed mu) (sending : Sta → Sending) :
    ∃ mu₁, { mu with pending := false }.regroupAll = some mu₁ ∧ Formed mu₁ ∧
      (Exact mu → Exact mu₁) ∧
      ((mu.groupWork true true sending).isSome ↔ ∀ s ∈ mu₁.updateSta, mu₁.Sends s (sending s)) ∧
        ∀ mu', mu.groupWork true true sending = some mu' → Regrouped mu mu' sending := by
  have formed₀ : Formed { mu with pending := false }.bumpCount :=
    formed.congr rfl rfl rfl (fun _ => rfl) (fun _ => rfl) formed.active formed.multi formed.update
  obtain ⟨mu₁, left, run, none, worked⟩ := regroup_worked mu.activeSta formed₀ rfl nxMuGroupMax
  have run₁ : { mu with pending := false }.regroupAll = some mu₁ :=
    Option.map_eq_some_iff.mpr ⟨(mu₁, left), run, rfl⟩
  have exact₁ : Exact mu → Exact mu₁ := fun exact => worked.exact ⟨exact.clean, exact.slack⟩
  obtain ⟨some_iff, all⟩ := sendUpdates_told sending mu₁.updateSta worked.formed
  have work : mu.groupWork true true sending =
      mu₁.updateSta.foldlM (fun (mu : MuInfo Sta) s => mu.sendUpdate sending s) mu₁ := by
    rw [MuInfo.groupWork]
    simp only [Bool.and_self, if_true, run₁, Option.bind_eq_bind, Option.bind_some]
  rw [work]
  refine ⟨mu₁, run₁, worked.formed, exact₁, some_iff, fun mu' sent => ?_⟩
  have told := all mu' sent
  have reqs : (mu₁.updateSta.filter (sending · = .passed)).map mu₁.updateReq =
      (mu₁.updateSta.filter (sending · = .passed)).map mu'.updateReq :=
    List.map_congr_left fun s _ => (updateReq_congr _ _ told.groups told.map told.cnt s).symm
  refine ⟨told.formed, told.activeSta.trans none, ?_, told.exact ∘ exact₁,
    fun s => (told.group s).trans (worked.group s),
    fun s out g own => ?_, ⟨mu₁.updateSta, ?_, fun s quiet => ?_⟩, fun few a first b second ne => ?_⟩
  · exact told.updateSta.trans (foldl_erase_self _)
  · rw [MuInfo.Has, told.map] at own
    refine worked.gained s (fun p member => ?_) g own
    obtain ⟨first, second⟩ := pairsOf_mem member
    exact ⟨fun same => out (same ▸ first), fun same => out (same ▸ second)⟩
  · rw [told.sent, worked.sent, reqs]
    rfl
  · have off : (mu₁.info s).update = false :=
      Bool.eq_false_iff.mpr ((worked.formed.update.mem s).not.mp quiet)
    exact (told.map s).trans (worked.quiet s off).2
  · have count := length_pairsOf mu.activeSta
    have most : (pairsOf mu.activeSta).length ≤ 28 := by
      have bound : mu.activeSta.length * mu.activeSta.length ≤ 8 * mu.activeSta.length :=
        Nat.mul_le_mul_right _ few
      omega
    obtain ⟨recent, -⟩ := worked.recent 0 [] (fun _ member => by cases member)
      (by unfold nxMuGroupMax; omega) (le_of_eq (by simp))
    have common : ∀ p ∈ pairsOf mu.activeSta, ∃ id, mu₁.Has p.1 id ∧ mu₁.Has p.2 id := by
      intro p member
      obtain ⟨id, -, own⟩ := recent p (List.mem_append_left _ (List.mem_reverse.mpr member))
      exact ⟨id, own⟩
    have has : ∀ s id, mu₁.Has s id → mu'.Has s id := by
      intro s id own
      rwa [MuInfo.Has, told.map]
    rcases mem_pairsOf first second ne with member | member
    · obtain ⟨id, own, own'⟩ := common _ member
      exact ⟨id, has a id own, has b id own'⟩
    · obtain ⟨id, own, own'⟩ := common _ member
      exact ⟨id, has a id own', has b id own⟩

/-- Without `mutx` or the semaphore the work does nothing. -/
theorem groupWork_idle {mutx locked : Bool} (idle : (mutx && locked) = false)
    (sending : Sta → Sending) :
    mu.groupWork mutx locked sending = some { mu with pending := false } := by
  rw [MuInfo.groupWork, idle]
  rfl

end Aic8800.Mu
