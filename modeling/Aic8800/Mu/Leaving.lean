import Aic8800.Mu.Regroup

/-! # A station leaves

`rwnx_mu_group_sta_del` takes a station out of its groups. A group with one user left loses that
one too, although its place is not cleared.
-/

namespace Aic8800.Mu

variable {Sta : Type} [DecidableEq Sta] {mu mu' : MuInfo Sta}

/-! ## One group -/

/-- A pair is broken up; `other` is the one that stays behind. -/
structure Parted (mu mu' : MuInfo Sta) (other : Sta) (id : Nat) : Prop where
  activeGroups : mu'.activeGroups = mu.activeGroups
  activeSta : mu'.activeSta = mu.activeSta
  updateSta : mu'.updateSta = mu.updateSta
  groups : ∀ g, g ≠ id → mu'.groups g = mu.groups g
  free : (mu'.groups id).userCnt = 0
  groupCnt : mu'.groupCnt = mu.groupCnt - 1
  others : ∀ s, s ≠ other → mu'.info s = mu.info s
  map : (mu'.info other).map = (mu.info other).map &&& ~~~bitUll id
  cnt : (mu'.info other).cnt = (mu.info other).cnt - 1
  active : (mu'.info other).active = (mu.info other).active
  update : (mu'.info other).update = (mu.info other).update

/-- The one that stays behind is found and counted out. -/
theorem leaveAlone_eq {id : Nat} {i : Fin 2} {other : Sta}
    (found : mu.place id (·.isSome) = some i) (user : (mu.groups id).users i = some other) :
    mu.leaveAlone id = ((mu.leave other id).onInfo other fun info =>
      { info with group := if info.group = id then 0 else info.group }).onGroup id
      fun group => { group with userCnt := group.userCnt - 1 } := by
  simp only [MuInfo.leaveAlone, found, Option.bind_some, user]

theorem leaveGroup_parted {id : Nat} {i : Fin 2} {sta other : Sta}
    (two : (mu.groups id).userCnt = 2) (found : mu.place id (· = some sta) = some i)
    (rest : (mu.onGroup id fun group =>
      { users := Function.update group.users i none, userCnt := group.userCnt - 1 }).place id
        (·.isSome) = some (1 - i)) (user : (mu.groups id).users (1 - i) = some other) :
    Parted mu (mu.leaveGroup sta id) other id := by
  have ne : 1 - i ≠ i := by
    match i with
    | 0 | 1 => decide
  have one : ((mu.onGroup id fun group =>
      { users := Function.update group.users i none, userCnt := group.userCnt - 1 }).groups
        id).userCnt = 1 := by
    rw [MuInfo.onGroup_groups, if_pos rfl, two]
    rfl
  have user' : ((mu.onGroup id fun group =>
      { users := Function.update group.users i none, userCnt := group.userCnt - 1 }).groups
        id).users (1 - i) = some other := by
    rw [MuInfo.onGroup_groups, if_pos rfl]
    exact (Function.update_of_ne ne _ _).trans user
  have run : mu.leaveGroup sta id = { (mu.onGroup id fun group =>
      { users := Function.update group.users i none, userCnt := group.userCnt - 1 }).leaveAlone
        id with groupCnt := mu.groupCnt - 1 } := by
    simp only [MuInfo.leaveGroup, found, one, if_true]
    rw [leaveAlone_eq rest user']
    rfl
  rw [run, leaveAlone_eq rest user']
  refine ⟨rfl, rfl, rfl, fun g away => ?_, ?_, rfl, fun s away => ?_, ?_, ?_, ?_, ?_⟩
  · simp [MuInfo.leave, away]
  · simp [MuInfo.leave, two]
  · simp [MuInfo.leave, away]
  · simp [MuInfo.leave]
  · simp [MuInfo.leave]
  · simp [MuInfo.leave]
  · simp [MuInfo.leave]

/-- A station leaves a pair. -/
theorem leaveGroup_pair {id : Nat} {a b sta : Sta} (ne : a ≠ b) (two : (mu.groups id).userCnt = 2)
    (users : (mu.groups id).users = ![some a, some b]) (one : sta = a ∨ sta = b) :
    ∃ other, (sta = a ∧ other = b ∨ sta = b ∧ other = a) ∧
      Parted mu (mu.leaveGroup sta id) other id := by
  have list : List.finRange 2 = [0, 1] := rfl
  rcases one with rfl | rfl
  · refine ⟨b, .inl ⟨rfl, rfl⟩, leaveGroup_parted (i := 0) two ?_ ?_ ?_⟩
    · simp [MuInfo.place, list, users]
    · simp [MuInfo.place, list, users]
    · rw [users]
      rfl
  · refine ⟨a, .inr ⟨rfl, rfl⟩, leaveGroup_parted (i := 1) two ?_ ?_ ?_⟩
    · simp [MuInfo.place, list, users, ne]
    · simp [MuInfo.place, list, users]
    · rw [users]
      rfl

/-! ## All groups of a station -/

/-- A station leaves its groups: it has not come to these. -/
structure Leaving (mu : MuInfo Sta) (sta : Sta) (ids : List Nat) : Prop extends Ordered mu where
  todo : ∀ id ∈ ids, 0 < id ∧ id ≤ nxMuGroupMax ∧ Paired mu (fun _ => True) id ∧ mu.Has sta id
  done : ∀ id, 0 < id → id ≤ nxMuGroupMax → id ∉ ids → Paired mu (· ≠ sta) id
  count : mu.groupCnt.toNat = mu.inUse

/-- What the others see of it -/
structure Left (mu mu' : MuInfo Sta) (sta : Sta) (ids : List Nat) : Prop where
  activeSta : mu'.activeSta = mu.activeSta
  updateSta : mu'.updateSta = mu.updateSta
  own : mu'.info sta = mu.info sta
  has : ∀ t, t ≠ sta → ∀ g, mu'.Has t g ↔ mu.Has t g ∧ g ∉ ids
  groupCnt : mu'.groupCnt.toNat + ids.length = mu.groupCnt.toNat

omit [DecidableEq Sta] in
theorem Formed.leaving (formed : Formed mu) (sta : Sta) :
    Leaving mu sta (groupIds (mu.info sta).map) where
  toOrdered := formed.toOrdered
  todo id member := by
    obtain ⟨range, has⟩ := mem_groupIds.mp member
    exact ⟨range.1, range.2, formed.paired id range.1 range.2, has⟩
  done id pos le out := by
    have lacks : ¬mu.Has sta id := fun has => out (mem_groupIds.mpr ⟨⟨pos, le⟩, has⟩)
    cases formed.paired id pos le with
    | free zero nobody => exact .free zero fun s _ => nobody s trivial
    | pair ne _ two users has =>
        refine .pair ne ⟨?_, ?_⟩ two users fun s _ => has s trivial
        · rintro rfl
          exact lacks ((has _ trivial).mpr (.inl rfl))
        · rintro rfl
          exact lacks ((has _ trivial).mpr (.inr rfl))
  count := formed.count

theorem Parted.has {other : Sta} {id : Nat} (parted : Parted mu mu' other id) (s : Sta) (g : Nat) :
    mu'.Has s g ↔ mu.Has s g ∧ ¬(s = other ∧ g = id) := by
  by_cases same : s = other
  · subst same
    rw [MuInfo.Has, parted.map, getLsbD_clear, Bool.and_eq_true, decide_eq_true_eq, MuInfo.Has]
    simp
  · rw [MuInfo.Has, parted.others s same, MuInfo.Has]
    simp [same]

theorem Parted.slack {other : Sta} {id : Nat} (parted : Parted mu mu' other id)
    (range : 0 < id ∧ id ≤ nxMuGroupMax) (own : mu.Has other id) (s : Sta) :
    mu'.slack s = mu.slack s := by
  by_cases same : s = other
  · subst same
    have member : id ∈ groupIds (mu.info s).map := mem_groupIds.mpr ⟨range, own⟩
    have pos := List.length_pos_of_mem member
    rw [MuInfo.slack, parted.map, parted.cnt, (groupIds_clear _ id).length_eq,
      List.length_erase_of_mem member, MuInfo.slack]
    omega
  · rw [MuInfo.slack, parted.others s same, MuInfo.slack]

/-- A station leaves one more group. -/
theorem Leaving.step {sta : Sta} {id : Nat} {ids : List Nat} (leaving : Leaving mu sta (id :: ids))
    (fresh : id ∉ ids) :
    Leaving (mu.leaveGroup sta id) sta ids ∧ Left mu (mu.leaveGroup sta id) sta [id] := by
  obtain ⟨pos, le, paired, own⟩ := leaving.todo id List.mem_cons_self
  cases paired with
  | free _ nobody => exact absurd own (nobody sta trivial)
  | @pair a b ne _ two users has =>
      obtain ⟨other, sides, parted⟩ := leaveGroup_pair ne two users ((has sta trivial).mp own)
      generalize mu.leaveGroup sta id = mu' at parted
      have apart : other ≠ sta := by
        rcases sides with ⟨rfl, rfl⟩ | ⟨rfl, rfl⟩
        · exact ne.symm
        · exact ne
      have pair : ∀ s, mu.Has s id ↔ s = sta ∨ s = other := fun s => by
        rw [has s trivial]
        rcases sides with ⟨rfl, rfl⟩ | ⟨rfl, rfl⟩
        · exact Iff.rfl
        · exact or_comm
      have kept : ∀ {s g}, mu'.Has s g → mu.Has s g := fun h => ((parted.has _ _).mp h).1
      have own_info := parted.others sta apart.symm
      have same : ∀ {β : Type} (get : GroupInfo → β),
          get (mu'.info other) = get (mu.info other) → ∀ s, get (mu'.info s) = get (mu.info s) := by
        intro β get at_other s
        by_cases is : s = other
        · rw [is, at_other]
        · rw [parted.others s is]
      have active := same (·.active) parted.active
      have update := same (·.update) parted.update
      have slack := parted.slack ⟨pos, le⟩ ((pair other).mpr (.inr rfl))
      -- the groups other than this one are as before
      have move : ∀ {who : Sta → Prop} {g : Nat}, g ≠ id → Paired mu who g → Paired mu' who g := by
        intro who g away paired
        have has' : ∀ s, mu'.Has s g ↔ mu.Has s g := fun s =>
          (parted.has s g).trans (and_iff_left fun h => away h.2)
        cases paired with
        | free zero nobody =>
            exact .free (by rw [parted.groups g away, zero]) fun s who =>
              (has' s).not.mpr (nobody s who)
        | pair ne inside two users own =>
            exact .pair ne inside (by rw [parted.groups g away, two])
              (by rw [parted.groups g away, users]) fun s who => (has' s).trans (own s who)
      have fewer := inUse_congr_at mu mu' ⟨pos, le⟩ fun g away => by
        rw [parted.groups g away]
      rw [parted.free, two, if_neg (by simp), if_pos (by decide)] at fewer
      have count : mu'.groupCnt.toNat + 1 = mu.groupCnt.toNat := by
        have before := leaving.count
        have bound := inUse_le mu
        unfold nxMuGroupMax at bound
        rw [parted.groupCnt, UInt8.toNat_sub_of_le _ _ (UInt8.le_iff_toNat_le.mpr (by
          rw [before, show (1 : UInt8).toNat = 1 from rfl]
          omega)), show (1 : UInt8).toNat = 1 from rfl]
        omega
      refine ⟨⟨⟨parted.activeGroups ▸ leaving.groups, ?_, ?_, fun s on => ?_, fun s g h =>
        leaving.top s g (kept h), fun s g above h zero =>
        leaving.alone s g above (kept h) (kept zero),
        fun s => ?_⟩, fun g member => ?_, fun g above below out => ?_, ?_⟩, ?_⟩
      · exact parted.activeSta ▸ leaving.active.congr active
      · exact parted.updateSta ▸ leaving.update.congr update
      · rw [active] at on
        exact fun h => leaving.multi s on (kept h)
      · rw [slack]
        exact leaving.slack s
      · obtain ⟨above, below, paired, h⟩ := leaving.todo g (List.mem_cons_of_mem id member)
        have away : g ≠ id := fun is => fresh (is ▸ member)
        exact ⟨above, below, move away paired, (parted.has sta g).mpr ⟨h, fun both => away both.2⟩⟩
      · by_cases away : g = id
        · subst away
          refine .free parted.free fun s who h => ?_
          obtain ⟨before, not⟩ := (parted.has s g).mp h
          exact not ⟨((pair s).mp before).resolve_left who, rfl⟩
        · exact move away (leaving.done g above below (by simp [away, out]))
      · have := leaving.count
        omega
      · refine ⟨parted.activeSta, parted.updateSta, own_info, fun t away g => ?_, count⟩
        rw [parted.has, List.mem_singleton]
        refine and_congr_right fun h => not_congr ⟨fun both => both.2, fun is => ⟨?_, is⟩⟩
        exact ((pair t).mp (is ▸ h)).resolve_left away

theorem leave_all (ids : List Nat) {sta : Sta} (nodup : ids.Nodup) (leaving : Leaving mu sta ids) :
    Leaving (ids.foldl (fun mu id => mu.leaveGroup sta id) mu) sta [] ∧
      Left mu (ids.foldl (fun mu id => mu.leaveGroup sta id) mu) sta ids := by
  induction ids generalizing mu with
  | nil => exact ⟨leaving, rfl, rfl, rfl, fun _ _ _ => by simp, rfl⟩
  | cons id rest ih =>
      rw [List.nodup_cons] at nodup
      obtain ⟨leaving₁, left₁⟩ := leaving.step nodup.1
      obtain ⟨leaving', left⟩ := ih nodup.2 leaving₁
      refine ⟨leaving', left.activeSta.trans left₁.activeSta, left.updateSta.trans left₁.updateSta,
        left.own.trans left₁.own, fun t away g => ?_, ?_⟩
      · rw [List.foldl_cons, left.has t away, left₁.has t away, List.mem_singleton, List.mem_cons,
          not_or, and_assoc]
      · have := left.groupCnt
        have := left₁.groupCnt
        rw [List.foldl_cons, List.length_cons]
        simp only [List.length_singleton] at *
        omega

/-! ## The station is gone -/

/-- What is left when a station is deleted: its partners are out of its groups, and nothing else has
    changed for the others. -/
structure Deleted (mu mu' : MuInfo Sta) (sta : Sta) : Prop where
  formed : Formed mu'
  map : (mu'.info sta).map = 0
  traffic : (mu'.info sta).traffic = 0
  activeSta : mu'.activeSta = mu.activeSta.erase sta
  updateSta : mu'.updateSta = mu.updateSta.erase sta
  has : ∀ t, t ≠ sta → ∀ g, mu'.Has t g ↔ mu.Has t g ∧ (g = 0 ∨ ¬mu.Has sta g)
  groupCnt : mu'.groupCnt.toNat + (groupIds (mu.info sta).map).length = mu.groupCnt.toNat

/-- What a station knows is forgotten. -/
theorem Leaving.forget {sta : Sta} (leaving : Leaving mu sta []) (mu' : MuInfo Sta)
    {f : GroupInfo → GroupInfo} (map : (f (mu.info sta)).map = 0) (cnt : (f (mu.info sta)).cnt = 0)
    (active : Listed mu'.activeSta fun s => (mu'.info s).active)
    (update : Listed mu'.updateSta fun s => (mu'.info s).update)
    (off : (f (mu.info sta)).active = false)
    (same : mu' = { mu.onInfo sta f with activeSta := mu'.activeSta, updateSta := mu'.updateSta }) :
    Formed mu' ∧ (mu'.info sta) = f (mu.info sta) ∧ ∀ t, t ≠ sta → mu'.info t = mu.info t := by
  have groups : mu'.groups = mu.groups := by
    rw [same]
    rfl
  have own : mu'.info sta = f (mu.info sta) := by
    rw [same]
    exact (MuInfo.onInfo_info ..).trans (if_pos rfl)
  have others : ∀ t, t ≠ sta → mu'.info t = mu.info t := fun t away => by
    rw [same]
    exact (MuInfo.onInfo_info ..).trans (if_neg away)
  have none : ∀ g, ¬mu'.Has sta g := fun g => by
    rw [MuInfo.Has, own, map]
    simp
  have has : ∀ {t g}, mu'.Has t g → t ≠ sta ∧ mu.Has t g := by
    intro t g h
    have away : t ≠ sta := fun is => none g (is ▸ h)
    rw [MuInfo.Has, others t away] at h
    exact ⟨away, h⟩
  refine ⟨⟨⟨?_, active, update, fun s on => ?_, fun s g h => leaving.top s g (has h).2,
    fun s g pos h zero => leaving.alone s g pos (has h).2 (has zero).2, fun s => ?_⟩,
    fun g pos le => ?_, ?_⟩, own, others⟩
  · rw [same]
    exact leaving.groups
  · intro zero
    obtain ⟨away, zero⟩ := has zero
    rw [others s away] at on
    exact leaving.multi s on zero
  · by_cases is : s = sta
    · rw [is, MuInfo.slack, own, map, cnt]
      decide
    · rw [MuInfo.slack, others s is]
      exact leaving.slack s
  · cases leaving.done g pos le List.not_mem_nil with
    | free zero nobody =>
        exact .free (groups ▸ zero) fun s _ h => nobody s (has h).1 (has h).2
    | pair ne inside two users own' =>
        refine .pair ne ⟨trivial, trivial⟩ (groups ▸ two) (groups ▸ users) fun s _ => ?_
        by_cases is : s = sta
        · subst is
          refine ⟨fun h => absurd h (none g), fun h => ?_⟩
          rcases h with rfl | rfl
          · exact absurd rfl inside.1
          · exact absurd rfl inside.2
        · rw [MuInfo.Has, others s is]
          exact own' s is
  · have count := leaving.count
    rw [MuInfo.inUse] at count ⊢
    rw [groups, ← count, same]
    rfl

/-- Taking a station off a list that it is not in changes nothing. -/
theorem delActive_eq (mu : MuInfo Sta)
    (listed : Listed mu.activeSta fun s => (mu.info s).active) (sta : Sta) :
    (if (mu.info sta).active then mu.delActive sta else mu) = mu.delActive sta := by
  split
  · rfl
  · rename_i off
    rw [Bool.not_eq_true] at off
    have out : sta ∉ mu.activeSta := by
      rw [listed.mem, off]
      exact Bool.false_ne_true
    have same : Function.update mu.info sta { mu.info sta with active := false } = mu.info := by
      rw [← off, Function.update_eq_self]
    rw [MuInfo.delActive, MuInfo.onInfo, List.erase_of_not_mem out, same]

theorem delUpdate_eq (mu : MuInfo Sta)
    (listed : Listed mu.updateSta fun s => (mu.info s).update) (sta : Sta) :
    (if (mu.info sta).update then mu.delUpdate sta else mu) = mu.delUpdate sta := by
  split
  · rfl
  · rename_i off
    rw [Bool.not_eq_true] at off
    have out : sta ∉ mu.updateSta := by
      rw [listed.mem, off]
      exact Bool.false_ne_true
    have same : Function.update mu.info sta { mu.info sta with update := false } = mu.info := by
      rw [← off, Function.update_eq_self]
    rw [MuInfo.delUpdate, MuInfo.onInfo, List.erase_of_not_mem out, same]

theorem staDel_deleted (formed : Formed mu) (sta : Sta) : Deleted mu (mu.staDel sta) sta := by
  obtain ⟨leaving, left⟩ := leave_all _ (nodup_groupIds _) (formed.leaving sta)
  unfold MuInfo.staDel
  generalize (groupIds (mu.info sta).map).foldl (fun mu id => mu.leaveGroup sta id) mu = nu
    at leaving left
  have active : Listed nu.activeSta fun s =>
      ((nu.onInfo sta fun info => { info with map := 0, cnt := 0, traffic := 0 }).info s).active :=
    leaving.active.congr fun s => onInfo_get (·.active) nu sta s fun _ => rfl
  have update : Listed nu.updateSta fun s =>
      (((nu.onInfo sta fun info => { info with map := 0, cnt := 0, traffic := 0 }).delActive
        sta).info s).update :=
    leaving.update.congr fun s => by
      simp only [MuInfo.delActive, MuInfo.onInfo_info, if_true]
      split
      · rename_i is
        rw [is]
      · rfl
  have first := delActive_eq (nu.onInfo sta fun info =>
    { info with map := 0, cnt := 0, traffic := 0 }) active sta
  simp only
  rw [first, delUpdate_eq _ update]
  have same : ((nu.onInfo sta fun info => { info with map := 0, cnt := 0, traffic := 0 }).delActive
      sta).delUpdate sta = { nu.onInfo sta fun info =>
        { info with map := 0, cnt := 0, traffic := 0, active := false, update := false } with
        activeSta := nu.activeSta.erase sta, updateSta := nu.updateSta.erase sta } := by
    simp only [MuInfo.delUpdate, MuInfo.delActive, MuInfo.onInfo, Function.update_self,
      Function.update_idem]
  rw [same]
  have erased : ∀ {list : List Sta} {get : GroupInfo → Bool},
      (Listed list fun s => get (nu.info s)) → (∀ i : GroupInfo,
        get { i with map := 0, cnt := 0, traffic := 0, active := false, update := false } = false) →
      Listed (list.erase sta) fun s => get ((nu.onInfo sta fun info =>
        { info with map := 0, cnt := 0, traffic := 0, active := false, update := false }).info s) :=
      by
    intro list get listed off
    refine (listed.erase sta).congr fun s => ?_
    rw [MuInfo.onInfo_info, Function.update_apply]
    split
    · exact off _
    · rfl
  obtain ⟨formed', own, others⟩ := leaving.forget { nu.onInfo sta fun info =>
      { info with map := 0, cnt := 0, traffic := 0, active := false, update := false } with
      activeSta := nu.activeSta.erase sta, updateSta := nu.updateSta.erase sta }
    (f := fun info =>
      { info with map := 0, cnt := 0, traffic := 0, active := false, update := false })
    rfl rfl (erased leaving.active fun _ => rfl) (erased leaving.update fun _ => rfl) rfl rfl
  refine ⟨formed', by rw [own], by rw [own], congrArg (·.erase sta) left.activeSta,
    congrArg (·.erase sta) left.updateSta, fun t away g => ?_, left.groupCnt⟩
  rw [MuInfo.Has, others t away]
  refine (left.has t away g).trans (and_congr_right fun h => ?_)
  rw [mem_groupIds, not_and]
  constructor
  · intro out
    by_cases zero : g = 0
    · exact .inl zero
    · exact .inr (out ⟨Nat.pos_of_ne_zero zero, formed.top t g h⟩)
  · rintro (rfl | lacks) range
    · exact absurd range.1 (Nat.lt_irrefl 0)
    · exact lacks

end Aic8800.Mu
