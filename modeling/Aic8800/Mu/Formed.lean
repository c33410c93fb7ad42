import Aic8800.Mu.Groups

/-! # Pairs of stations

A group has no users or two, and these are the two stations whose maps have it. A group that a
station has left holds on to the other's place until it is taken again.
-/

namespace Aic8800.Mu

/-! ## Maps -/

theorem getLsbD_bitUll (id g : Nat) : (bitUll id).getLsbD g = decide (g = id ∧ g < 64) := by
  rw [bitUll, BitVec.getLsbD_shiftLeft]
  by_cases same : g = id
  · subst same
    simp
  · by_cases less : g < id
    · simp [same, less]
    · have : g - id ≠ 0 := by omega
      simp [same, BitVec.getLsbD_one, this]

theorem getLsbD_clear (map : BitVec 64) (id g : Nat) :
    (map &&& ~~~bitUll id).getLsbD g = (map.getLsbD g && decide (g ≠ id)) := by
  rw [BitVec.getLsbD_and, BitVec.getLsbD_not, getLsbD_bitUll]
  by_cases big : g < 64
  · simp [big]
  · simp [BitVec.getLsbD_of_ge map g (by omega)]

theorem getLsbD_set (map : BitVec 64) {id : Nat} (small : id < 64) (g : Nat) :
    (map ||| bitUll id).getLsbD g = (map.getLsbD g || decide (g = id)) := by
  rw [BitVec.getLsbD_or, getLsbD_bitUll]
  by_cases same : g = id
  · simp [same, small]
  · simp [same]

theorem getLsbD_mask (g : Nat) : muGroupMask.getLsbD g = decide (0 < g ∧ g ≤ nxMuGroupMax) := by
  by_cases small : g < 64
  · have all : ∀ g : Fin 64, muGroupMask.getLsbD g = decide (0 < g.val ∧ g.val ≤ nxMuGroupMax) := by
      decide
    exact all ⟨g, small⟩
  · rw [BitVec.getLsbD_of_ge _ _ (by omega)]
    exact (decide_eq_false (by unfold nxMuGroupMax; omega)).symm

/-- The highest bit of a map -/
theorem getLsbD_fls64 {map : BitVec 64} (some : map ≠ 0#64) :
    map.getLsbD (fls64 map - 1) = true ∧ ∀ g, map.getLsbD g = true → g ≤ fls64 map - 1 := by
  have pos : map.toNat ≠ 0 := fun zero => some (BitVec.eq_of_toNat_eq zero)
  rw [fls64, if_neg some, Nat.add_sub_cancel]
  refine ⟨?_, fun g bit => ?_⟩
  · rw [BitVec.getLsbD]
    exact Nat.testBit_log2 pos
  · have large := Nat.ge_two_pow_of_testBit bit
    exact (Nat.le_log2 pos).mpr large

theorem ne_zero_of_fls64 {map : BitVec 64} (more : 0 < fls64 map - 1) : map ≠ 0#64 := by
  rintro rfl
  exact absurd more (by decide)

/-- Without its highest bit a map fits in less. -/
theorem lt_of_clear {fuel : Nat} {map : BitVec 64} (some : map ≠ 0#64)
    (enough : ∀ g, map.getLsbD g = true → g < fuel + 1) (g : Nat)
    (bit : (map &&& ~~~bitUll (fls64 map - 1)).getLsbD g = true) : g < fuel := by
  obtain ⟨top, highest⟩ := getLsbD_fls64 some
  rw [getLsbD_clear, Bool.and_eq_true, decide_eq_true_eq] at bit
  have := highest g bit.1
  have := enough _ top
  omega

theorem mem_idsFrom {fuel : Nat} {map : BitVec 64} (enough : ∀ g, map.getLsbD g = true → g < fuel)
    (g : Nat) : g ∈ idsFrom fuel map ↔ 0 < g ∧ map.getLsbD g = true := by
  induction fuel generalizing map with
  | zero =>
      refine ⟨fun member => absurd member List.not_mem_nil, fun h => ?_⟩
      exact absurd (enough g h.2) (Nat.not_lt_zero g)
  | succ fuel ih =>
      rw [idsFrom]
      split
      · rename_i more
        have some := ne_zero_of_fls64 more
        have below := lt_of_clear some enough
        rw [List.mem_cons, ih below, getLsbD_clear, Bool.and_eq_true, decide_eq_true_eq]
        constructor
        · rintro (rfl | ⟨pos, bit, -⟩)
          · exact ⟨more, (getLsbD_fls64 some).1⟩
          · exact ⟨pos, bit⟩
        · rintro ⟨pos, bit⟩
          by_cases same : g = fls64 map - 1
          · exact .inl same
          · exact .inr ⟨pos, bit, same⟩
      · rename_i done
        refine ⟨fun member => absurd member List.not_mem_nil, fun ⟨pos, bit⟩ => ?_⟩
        have some : map ≠ 0#64 := by
          rintro rfl
          rw [BitVec.getLsbD_zero] at bit
          cases bit
        have := (getLsbD_fls64 some).2 g bit
        omega

theorem nodup_idsFrom {fuel : Nat} {map : BitVec 64}
    (enough : ∀ g, map.getLsbD g = true → g < fuel) : (idsFrom fuel map).Nodup := by
  induction fuel generalizing map with
  | zero => exact List.nodup_nil
  | succ fuel ih =>
      rw [idsFrom]
      split
      · rename_i more
        have some := ne_zero_of_fls64 more
        have below := lt_of_clear some enough
        refine List.nodup_cons.mpr ⟨fun member => ?_, ih below⟩
        rw [mem_idsFrom below, getLsbD_clear, Bool.and_eq_true, decide_eq_true_eq] at member
        exact member.2.2 rfl
      · exact List.nodup_nil

theorem masked_lt (map : BitVec 64) (g : Nat) (bit : (map &&& muGroupMask).getLsbD g = true) :
    g < 64 := BitVec.lt_of_getLsbD bit

theorem mem_groupIds {map : BitVec 64} {g : Nat} :
    g ∈ groupIds map ↔ (0 < g ∧ g ≤ nxMuGroupMax) ∧ map.getLsbD g = true := by
  rw [groupIds, mem_idsFrom (masked_lt map), BitVec.getLsbD_and, getLsbD_mask, Bool.and_eq_true,
    decide_eq_true_eq]
  tauto

theorem nodup_groupIds (map : BitVec 64) : (groupIds map).Nodup := nodup_idsFrom (masked_lt map)

theorem groupIds_clear (map : BitVec 64) (id : Nat) :
    (groupIds (map &&& ~~~bitUll id)).Perm ((groupIds map).erase id) := by
  refine (List.perm_ext_iff_of_nodup (nodup_groupIds _) ((nodup_groupIds _).erase id)).mpr ?_
  intro g
  rw [(nodup_groupIds map).mem_erase_iff, mem_groupIds, mem_groupIds, getLsbD_clear,
    Bool.and_eq_true, decide_eq_true_eq]
  tauto

theorem groupIds_set {map : BitVec 64} {id : Nat} (range : 0 < id ∧ id ≤ nxMuGroupMax)
    (absent : map.getLsbD id = false) :
    (groupIds (map ||| bitUll id)).Perm (id :: groupIds map) := by
  have fresh : id ∉ groupIds map := by
    rw [mem_groupIds, absent]
    exact fun h => Bool.false_ne_true h.2
  have small : id < 64 := lt_of_le_of_lt range.2 (by decide)
  refine (List.perm_ext_iff_of_nodup (nodup_groupIds _)
    (List.nodup_cons.mpr ⟨fresh, nodup_groupIds map⟩)).mpr ?_
  intro g
  rw [List.mem_cons, mem_groupIds, mem_groupIds, getLsbD_set _ small, Bool.or_eq_true,
    decide_eq_true_eq]
  constructor
  · rintro ⟨inside, bit | same⟩
    · exact .inr ⟨inside, bit⟩
    · exact .inl same
  · rintro (same | ⟨inside, bit⟩)
    · exact ⟨same ▸ range, .inr same⟩
    · exact ⟨inside, .inl bit⟩

/-! ## The invariant -/

variable {Sta : Type}

/-- The station's map has the group. -/
def MuInfo.Has (mu : MuInfo Sta) (sta : Sta) (id : Nat) : Prop :=
  (mu.info sta).map.getLsbD id = true

/-- Of these stations, those that have the group are its users, and there are two of them or
    none. -/
inductive Paired (mu : MuInfo Sta) (who : Sta → Prop) (id : Nat) : Prop where
  | free (zero : (mu.groups id).userCnt = 0) (nobody : ∀ s, who s → ¬mu.Has s id)
  | pair {a b : Sta} (ne : a ≠ b) (inside : who a ∧ who b) (two : (mu.groups id).userCnt = 2)
      (users : (mu.groups id).users = ![some a, some b])
      (has : ∀ s, who s → (mu.Has s id ↔ s = a ∨ s = b))

/-- By how much the count of a station's groups falls short of them -/
def MuInfo.slack (mu : MuInfo Sta) (sta : Sta) : Int :=
  (groupIds (mu.info sta).map).length - (mu.info sta).cnt

/-- A list, and the nodes that are linked -/
structure Listed (list : List Sta) (linked : Sta → Bool) : Prop where
  nodup : list.Nodup
  mem : ∀ s, s ∈ list ↔ linked s = true

/-- All that does not depend on the pairs -/
structure Ordered (mu : MuInfo Sta) : Prop where
  groups : mu.activeGroups.Perm (List.range' 1 nxMuGroupMax)
  active : Listed mu.activeSta fun s => (mu.info s).active
  update : Listed mu.updateSta fun s => (mu.info s).update
  multi : ∀ s, (mu.info s).active = true → ¬mu.Has s 0
  top : ∀ s id, mu.Has s id → id ≤ nxMuGroupMax
  alone : ∀ s id, 0 < id → mu.Has s id → ¬mu.Has s 0
  slack : ∀ s, 0 ≤ mu.slack s

/-- How many groups have users -/
def MuInfo.inUse (mu : MuInfo Sta) : Nat :=
  (List.range' 1 nxMuGroupMax).countP fun id => (mu.groups id).userCnt ≠ 0

structure Formed (mu : MuInfo Sta) : Prop extends Ordered mu where
  paired : ∀ id, 0 < id → id ≤ nxMuGroupMax → Paired mu (fun _ => True) id
  count : mu.groupCnt.toNat = mu.inUse

/-! ### Lists -/

theorem Listed.congr {list : List Sta} {linked linked' : Sta → Bool} (h : Listed list linked)
    (same : ∀ s, linked' s = linked s) : Listed list linked' :=
  ⟨h.nodup, fun s => by rw [h.mem, same]⟩

section

variable [DecidableEq Sta]

theorem Listed.moveHead {list : List Sta} {linked : Sta → Bool} (h : Listed list linked) (s : Sta) :
    Listed (moveHead list (linked s) s) (Function.update linked s true) := by
  have absent : s ∉ if linked s then list.erase s else list := by
    split
    · exact h.nodup.not_mem_erase
    · rename_i off
      rwa [h.mem]
  refine ⟨List.nodup_cons.mpr ⟨absent, ?_⟩, fun t => ?_⟩
  · split
    · exact h.nodup.erase s
    · exact h.nodup
  · rw [Mu.moveHead, List.mem_cons, Function.update_apply]
    by_cases same : t = s
    · simp [same]
    · split
      · simp [same, List.mem_erase_of_ne same, h.mem]
      · simp [same, h.mem]

theorem Listed.erase {list : List Sta} {linked : Sta → Bool} (h : Listed list linked) (s : Sta) :
    Listed (list.erase s) (Function.update linked s false) := by
  refine ⟨h.nodup.erase s, fun t => ?_⟩
  rw [h.nodup.mem_erase_iff, h.mem, Function.update_apply]
  by_cases same : t = s
  · simp [same]
  · simp [same]

end

theorem range_groups {id : Nat} : id ∈ List.range' 1 nxMuGroupMax ↔ 0 < id ∧ id ≤ nxMuGroupMax := by
  rw [List.mem_range'_1]
  unfold nxMuGroupMax
  omega

/-- A count that changes in one place -/
theorem countP_congr_at {α : Type} [DecidableEq α] {l : List α} (nodup : l.Nodup) {x : α}
    (member : x ∈ l) {p q : α → Bool} (same : ∀ y, y ≠ x → p y = q y) :
    l.countP p + (if q x then 1 else 0) = l.countP q + (if p x then 1 else 0) := by
  have perm := List.perm_cons_erase member
  have rest : (l.erase x).countP p = (l.erase x).countP q := by
    refine List.countP_congr fun y inside => ?_
    rw [same y (nodup.mem_erase_iff.mp inside).1]
  rw [perm.countP_eq, perm.countP_eq, List.countP_cons, List.countP_cons, rest]
  omega

/-! ### Frames -/

/-- What the users of the groups do not touch -/
structure Kept (mu mu' : MuInfo Sta) : Prop where
  activeSta : mu'.activeSta = mu.activeSta
  updateCount : mu'.updateCount = mu.updateCount
  pending : mu'.pending = mu.pending
  sent : mu'.sent = mu.sent
  active : ∀ s, (mu'.info s).active = (mu.info s).active
  group : ∀ s, (mu'.info s).group = (mu.info s).group

theorem Kept.refl (mu : MuInfo Sta) : Kept mu mu :=
  ⟨rfl, rfl, rfl, rfl, fun _ => rfl, fun _ => rfl⟩

theorem Kept.trans {mu mu' mu'' : MuInfo Sta} (h : Kept mu mu') (h' : Kept mu' mu'') :
    Kept mu mu'' where
  activeSta := h'.activeSta.trans h.activeSta
  updateCount := h'.updateCount.trans h.updateCount
  pending := h'.pending.trans h.pending
  sent := h'.sent.trans h.sent
  active s := (h'.active s).trans (h.active s)
  group s := (h'.group s).trans (h.group s)

/-- The places of a group change hands: stations leave it or enter it, and are put in the list of
    updates. -/
structure Turned (mu mu' : MuInfo Sta) (id : Nat) (new : Group Sta) (map : Sta → BitVec 64)
    (cnt : Sta → Int) : Prop extends Kept mu mu' where
  activeGroups : mu'.activeGroups = mu.activeGroups
  groups : ∀ g, mu'.groups g = if g = id then new else mu.groups g
  groupCnt : mu'.groupCnt = mu.groupCnt
  map : ∀ s, (mu'.info s).map = map s
  cnt : ∀ s, (mu'.info s).cnt = cnt s
  update : (Listed mu.updateSta fun s => (mu.info s).update) →
    Listed mu'.updateSta fun s => (mu'.info s).update
  quiet : ∀ s, (mu'.info s).update = false →
    (mu.info s).update = false ∧ (mu'.info s).map = (mu.info s).map

namespace MuInfo

@[simp] theorem onGroup_info (mu : MuInfo Sta) (id : Nat) (f : Group Sta → Group Sta) :
    (mu.onGroup id f).info = mu.info := rfl

@[simp] theorem onGroup_groups (mu : MuInfo Sta) (id : Nat) (f : Group Sta → Group Sta) (g : Nat) :
    (mu.onGroup id f).groups g = if g = id then f (mu.groups id) else mu.groups g :=
  Function.update_apply ..

variable [DecidableEq Sta] (mu : MuInfo Sta)

@[simp] theorem onInfo_info (sta s : Sta) (f : GroupInfo → GroupInfo) :
    (mu.onInfo sta f).info s = if s = sta then f (mu.info sta) else mu.info s :=
  Function.update_apply ..

@[simp] theorem onInfo_groups (sta : Sta) (f : GroupInfo → GroupInfo) :
    (mu.onInfo sta f).groups = mu.groups := rfl

end MuInfo

variable [DecidableEq Sta] {mu : MuInfo Sta}

theorem Listed.moveUpdate (h : Listed mu.updateSta fun s => (mu.info s).update) (sta : Sta) :
    Listed (mu.moveUpdate sta).updateSta fun s => ((mu.moveUpdate sta).info s).update := by
  refine (h.moveHead sta).congr fun s => ?_
  rw [Function.update_apply]
  by_cases same : s = sta
  · simp [MuInfo.moveUpdate, same]
  · simp [MuInfo.moveUpdate, same]

/-- A station changes what it knows of its groups, and is put in the list of updates. -/
theorem moveUpdate_turned (mu : MuInfo Sta) (sta : Sta) (id : Nat) {f : GroupInfo → GroupInfo}
    {g : Group Sta → Group Sta}
    (rest : ∀ i : GroupInfo, f i = { i with map := (f i).map, cnt := (f i).cnt }) :
    Turned mu (((mu.onGroup id g).onInfo sta f).moveUpdate sta) id (g (mu.groups id))
      (fun s => if s = sta then (f (mu.info s)).map else (mu.info s).map)
      (fun s => if s = sta then (f (mu.info s)).cnt else (mu.info s).cnt) := by
  have active : ∀ i, (f i).active = i.active := fun i => by rw [rest i]
  have group : ∀ i, (f i).group = i.group := fun i => by rw [rest i]
  have update : ∀ i, (f i).update = i.update := fun i => by rw [rest i]
  have split : ∀ {β : Type} (get : GroupInfo → β) (s : Sta),
      get (((mu.onGroup id g).onInfo sta f).info s) = if s = sta then get (f (mu.info s))
        else get (mu.info s) := by
    intro β get s
    simp only [MuInfo.onInfo_info, MuInfo.onGroup_info]
    split
    · rename_i same
      rw [same]
    · rfl
  have moved : ∀ {β : Type} (get : GroupInfo → β) (s : Sta),
      (∀ i : GroupInfo, get { i with update := true } = get i) →
      get ((((mu.onGroup id g).onInfo sta f).moveUpdate sta).info s) = if s = sta then
        get (f (mu.info s)) else get (mu.info s) := by
    intro β get s blind
    rw [← split get s]
    simp only [MuInfo.moveUpdate, MuInfo.onInfo_info, MuInfo.onGroup_info]
    split
    · simp [blind]
    · rfl
  refine ⟨⟨rfl, rfl, rfl, rfl, fun s => ?_, fun s => ?_⟩, rfl, fun h => ?_, rfl, fun s => ?_,
    fun s => ?_, fun h => ?_, fun s off => ?_⟩
  · rw [moved (·.active) s fun _ => rfl, active, ite_self]
  · rw [moved (·.group) s fun _ => rfl, group, ite_self]
  · exact MuInfo.onGroup_groups mu id g h
  · exact moved (·.map) s fun _ => rfl
  · exact moved (·.cnt) s fun _ => rfl
  · have h' : Listed ((mu.onGroup id g).onInfo sta f).updateSta
        fun s => (((mu.onGroup id g).onInfo sta f).info s).update :=
      h.congr fun s => by rw [split (·.update) s, update, ite_self]
    exact h'.moveUpdate sta
  · have other : s ≠ sta := by
      rintro rfl
      simp [MuInfo.moveUpdate] at off
    rw [moved (·.map) s fun _ => rfl, if_neg other]
    simp only [MuInfo.moveUpdate, MuInfo.onInfo_info, MuInfo.onGroup_info, if_neg other] at off
    exact ⟨off, rfl⟩

theorem removeUser_turned (mu : MuInfo Sta) (id : Nat) (i : Fin 2) :
    Turned mu (mu.removeUser id i) id
      ⟨(mu.groups id).userCnt, Function.update (mu.groups id).users i none⟩
      (fun s => if (mu.groups id).users i = some s then (mu.info s).map &&& ~~~bitUll id
        else (mu.info s).map)
      (fun s => (mu.info s).cnt - if (mu.groups id).users i = some s then 1 else 0) := by
  cases user : (mu.groups id).users i with
  | none =>
      have stay : mu.removeUser id i = mu := by simp only [MuInfo.removeUser, user]
      have same : Function.update (mu.groups id).users i none = (mu.groups id).users := by
        rw [← user, Function.update_eq_self]
      rw [stay, same]
      refine ⟨.refl mu, rfl, fun g => ?_, rfl, fun s => ?_, fun s => ?_, fun h => h,
        fun s off => ⟨off, rfl⟩⟩
      · split
        · rename_i at_id
          rw [at_id]
        · rfl
      · simp
      · simp
  | some sta =>
      have gone : mu.removeUser id i = ((mu.onGroup id fun group =>
          { group with users := Function.update group.users i none }).onInfo sta fun info =>
          { info with cnt := info.cnt - 1, map := info.map &&& ~~~bitUll id }).moveUpdate sta := by
        simp only [MuInfo.removeUser, user]
        rfl
      have turned := moveUpdate_turned mu sta id
        (f := fun info => { info with cnt := info.cnt - 1, map := info.map &&& ~~~bitUll id })
        (g := fun group => { group with users := Function.update group.users i none }) fun _ => rfl
      rw [gone]
      refine ⟨turned.toKept, turned.activeGroups, turned.groups, turned.groupCnt, fun s => ?_,
        fun s => ?_, turned.update, turned.quiet⟩
      · rw [turned.map]
        simp only [Option.some.injEq, eq_comm]
      · rw [turned.cnt]
        simp only [Option.some.injEq, eq_comm (a := sta)]
        split
        · rfl
        · rw [Int.sub_zero]

theorem addUser_turned (mu : MuInfo Sta) (id : Nat) (i : Fin 2) (sta : Sta) :
    Turned mu (mu.addUser id i sta) id
      ⟨(mu.groups id).userCnt + 1, Function.update (mu.groups id).users i (some sta)⟩
      (fun s => if s = sta then (mu.info s).map ||| bitUll id else (mu.info s).map)
      (fun s => (mu.info s).cnt + if s = sta then 1 else 0) := by
  have turned := moveUpdate_turned mu sta id
    (f := fun info => { info with cnt := info.cnt + 1, map := info.map ||| bitUll id })
    (g := fun group =>
      { users := Function.update group.users i (some sta), userCnt := group.userCnt + 1 })
    fun _ => rfl
  refine ⟨turned.toKept, turned.activeGroups, turned.groups, turned.groupCnt, turned.map,
    fun s => ?_, turned.update, turned.quiet⟩
  refine (turned.cnt s).trans ?_
  split
  · rfl
  · rw [Int.add_zero]

omit [DecidableEq Sta] in
theorem Turned.trans {mu' mu'' : MuInfo Sta} {id : Nat} {new new' : Group Sta}
    {map map' : Sta → BitVec 64} {cnt cnt' : Sta → Int} (h : Turned mu mu' id new map cnt)
    (h' : Turned mu' mu'' id new' map' cnt') : Turned mu mu'' id new' map' cnt' where
  toKept := h.toKept.trans h'.toKept
  activeGroups := h'.activeGroups.trans h.activeGroups
  groups g := by
    rw [h'.groups, h.groups]
    split
    · rfl
    · rfl
  groupCnt := h'.groupCnt.trans h.groupCnt
  map := h'.map
  cnt := h'.cnt
  update listed := h'.update (h.update listed)
  quiet s off := by
    obtain ⟨off', same'⟩ := h'.quiet s off
    obtain ⟨off'', same⟩ := h.quiet s off'
    exact ⟨off'', same'.trans same⟩

omit [DecidableEq Sta] in
theorem onGroup_turned (mu : MuInfo Sta) (id : Nat) (f : Group Sta → Group Sta) :
    Turned mu (mu.onGroup id f) id (f (mu.groups id)) (fun s => (mu.info s).map)
      (fun s => (mu.info s).cnt) where
  toKept := ⟨rfl, rfl, rfl, rfl, fun _ => rfl, fun _ => rfl⟩
  activeGroups := rfl
  groups := MuInfo.onGroup_groups mu id f
  groupCnt := rfl
  map _ := rfl
  cnt _ := rfl
  update listed := listed
  quiet _ off := ⟨off, rfl⟩

theorem addFrom_two (mu : MuInfo Sta) {id : Nat} {a b : Sta}
    (empty : (mu.groups id).users = fun _ => none) :
    MuInfo.addFrom id 0 [a, b] mu = (mu.addUser id 0 a).addUser id 1 b := by
  have next : ((mu.addUser id 0 a).groups id).users 1 = none := by
    rw [(addUser_turned mu id 0 a).groups, if_pos rfl, empty]
    rfl
  have list : List.finRange 2 = [0, 1] := rfl
  simp [MuInfo.addFrom, list, empty, next]

/-- What `rwnx_mu_group_remove_users` and `rwnx_mu_group_add_users` do to the places of a group -/
def MuInfo.handOver (mu : MuInfo Sta) (id : Nat) (a b : Sta) : MuInfo Sta :=
  ((((mu.removeUser id ⟨0, Nat.zero_lt_two⟩).removeUser id ⟨1, Nat.one_lt_two⟩).onGroup id
    fun group => { group with userCnt := 0 }).addUser id ⟨0, Nat.zero_lt_two⟩ a).addUser id
      ⟨1, Nat.one_lt_two⟩ b

theorem MuInfo.handOver_eq (mu : MuInfo Sta) (id : Nat) (a b : Sta) : mu.handOver id a b =
    ((((mu.removeUser id 0).removeUser id 1).onGroup id fun group =>
      { group with userCnt := 0 }).addUser id 0 a).addUser id 1 b := rfl

theorem addUsers_two {id : Nat} {a b : Sta} {n : Int} (empty : mu.groups id = ⟨n, fun _ => none⟩)
    (c : UInt8) :
    ({ mu with groupCnt := c }.onGroup id fun group => { group with userCnt := 0 }).addUsers id
        [a, b] =
      { ((mu.onGroup id fun group => { group with userCnt := 0 }).addUser id 0 a).addUser id 1 b with
        groupCnt := c + 1 } := by
  have free : (mu.onGroup id fun group => { group with userCnt := 0 }).groups id =
      ⟨0, fun _ => none⟩ := by
    rw [MuInfo.onGroup_groups, if_pos rfl, empty]
  have two := addFrom_two (a := a) (b := b) { mu.onGroup id
    (fun group => { group with userCnt := 0 }) with groupCnt := c + 1 } (congrArg Group.users free)
  have zero := congrArg Group.userCnt free
  unfold MuInfo.addUsers
  exact (if_pos zero : _ = _) ▸ two

theorem map_handOver (x y u v : Prop) [Decidable x] [Decidable y] [Decidable u] [Decidable v]
    (m c b : BitVec 64) :
    (if v then
      (if u then (if y then (if x then m &&& c else m) &&& c else if x then m &&& c else m) ||| b
        else if y then (if x then m &&& c else m) &&& c else if x then m &&& c else m) ||| b
      else if u then (if y then (if x then m &&& c else m) &&& c else if x then m &&& c else m) ||| b
      else if y then (if x then m &&& c else m) &&& c else if x then m &&& c else m) =
      if u ∨ v then (if x ∨ y then m &&& c else m) ||| b else if x ∨ y then m &&& c else m := by
  by_cases x <;> by_cases y <;> by_cases u <;> by_cases v <;>
    simp [*, BitVec.and_assoc, BitVec.or_assoc]

theorem handOver_turned (mu : MuInfo Sta) (id : Nat) (a b : Sta) :
    Turned mu (mu.handOver id a b) id ⟨2, ![some a, some b]⟩
      (fun s =>
        let map := if (mu.groups id).users 0 = some s ∨ (mu.groups id).users 1 = some s then
          (mu.info s).map &&& ~~~bitUll id else (mu.info s).map
        if s = a ∨ s = b then map ||| bitUll id else map)
      (fun s => (mu.info s).cnt - (if (mu.groups id).users 0 = some s then 1 else 0)
        - (if (mu.groups id).users 1 = some s then 1 else 0) + (if s = a then 1 else 0)
        + (if s = b then 1 else 0)) := by
  have first := removeUser_turned mu id 0
  have second := removeUser_turned (mu.removeUser id 0) id 1
  have groups : (mu.removeUser id 0).groups id =
      ⟨(mu.groups id).userCnt, Function.update (mu.groups id).users 0 none⟩ := by
    rw [first.groups, if_pos rfl]
  have other : Function.update (mu.groups id).users 0 none 1 = (mu.groups id).users 1 := rfl
  rw [groups] at second
  simp only [other] at second
  have none_left : Function.update (Function.update (mu.groups id).users 0 none) 1 none =
      fun _ => none := by
    funext i
    match i with
    | 0 | 1 => rfl
  have third := onGroup_turned ((mu.removeUser id 0).removeUser id 1) id
    fun group => { group with userCnt := 0 }
  have left := second.groups id
  rw [if_pos rfl, none_left] at left
  rw [left] at third
  have emptied := third.groups id
  rw [if_pos rfl] at emptied
  have fourth := third.trans (addUser_turned _ id 0 a)
  have fourth_groups := fourth.groups id
  rw [if_pos rfl, emptied] at fourth_groups
  have fifth := fourth.trans (addUser_turned _ id 1 b)
  have pair : Function.update (Function.update (fun _ : Fin 2 => none) 0 (some a)) 1 (some b) =
      ![some a, some b] := by
    funext i
    match i with
    | 0 | 1 => rfl
  have total := first.trans (second.trans fifth)
  rw [fourth_groups, pair] at total
  refine ⟨total.toKept, total.activeGroups, total.groups, total.groupCnt, fun s => ?_,
    fun s => ?_, total.update, total.quiet⟩
  · refine (total.map s).trans ?_
    rw [fourth.map, third.map, second.map, first.map]
    exact map_handOver ..
  · refine (total.cnt s).trans ?_
    rw [fourth.cnt, third.cnt, second.cnt, first.cnt]

/-- A group is taken from its users, and given to two others. -/
theorem takeOver_eq (mu : MuInfo Sta) (id : Nat) (a b : Sta) :
    (mu.removeUsers id).addUsers id [a, b] = { mu.handOver id a b with
      groupCnt := (if (mu.groups id).userCnt ≠ 0 then mu.groupCnt - 1 else mu.groupCnt) + 1 } := by
  have first := removeUser_turned mu id 0
  have second := first.trans (removeUser_turned (mu.removeUser id 0) id 1)
  have left := second.groups id
  have none_left : Function.update (Function.update (mu.groups id).users 0 none) 1 none =
      fun _ => none := by
    funext i
    match i with
    | 0 | 1 => rfl
  rw [if_pos rfl, first.groups, if_pos rfl, none_left] at left
  have list : List.finRange 2 = [0, 1] := rfl
  have cnt := second.groupCnt
  rw [MuInfo.handOver_eq]
  simp only [MuInfo.removeUsers, list, List.foldl_cons, List.foldl_nil]
  generalize (mu.removeUser id 0).removeUser id 1 = nu at left cnt ⊢
  rw [left, ← cnt]
  split
  · exact addUsers_two left _
  · exact addUsers_two left _

/-! ### A group is taken over -/

omit [DecidableEq Sta] in
theorem Paired.users_of_has {id : Nat} (paired : Paired mu (fun _ => True) id) {s : Sta}
    (has : mu.Has s id) : (mu.groups id).users 0 = some s ∨ (mu.groups id).users 1 = some s := by
  cases paired with
  | free _ nobody => exact absurd has (nobody s trivial)
  | pair _ _ _ users own =>
      rw [users]
      rcases (own s trivial).mp has with rfl | rfl
      · exact .inl rfl
      · exact .inr rfl

theorem small_of_range {id : Nat} (range : 0 < id ∧ id ≤ nxMuGroupMax) : id < 64 :=
  lt_of_le_of_lt range.2 (by decide)

theorem handOver_has {id : Nat} (range : 0 < id ∧ id ≤ nxMuGroupMax)
    (paired : Paired mu (fun _ => True) id) (a b s : Sta) (g : Nat) :
    (mu.handOver id a b).Has s g ↔ if g = id then s = a ∨ s = b else mu.Has s g := by
  have small := small_of_range range
  rw [MuInfo.Has, (handOver_turned mu id a b).map]
  simp only
  by_cases same : g = id
  · subst same
    rw [if_pos rfl]
    split
    · rename_i entered
      simp [getLsbD_set _ small, entered]
    · rename_i out
      simp only [out, iff_false]
      split
      · rw [getLsbD_clear]
        simp
      · rename_i left
        exact fun has => left (paired.users_of_has has)
  · rw [if_neg same]
    split
    · rw [getLsbD_set _ small]
      split
      · rw [getLsbD_clear]
        simp [same, MuInfo.Has]
      · simp [same, MuInfo.Has]
    · split
      · rw [getLsbD_clear]
        simp [same, MuInfo.Has]
      · rfl

/-- Those who leave a group are counted out of it, also if they did not have it any more. -/
theorem handOver_slack {id : Nat} (range : 0 < id ∧ id ≤ nxMuGroupMax)
    (paired : Paired mu (fun _ => True) id) {a b : Sta} (ne : a ≠ b) (s : Sta) :
    (mu.handOver id a b).slack s = mu.slack s + (if (mu.groups id).users 0 = some s then 1 else 0)
      + (if (mu.groups id).users 1 = some s then 1 else 0)
      - (if (mu.info s).map.getLsbD id then 1 else 0) := by
  rw [MuInfo.slack, MuInfo.slack, (handOver_turned mu id a b).map, (handOver_turned mu id a b).cnt]
  simp only
  have gone : ((groupIds (if (mu.groups id).users 0 = some s ∨ (mu.groups id).users 1 = some s then
      (mu.info s).map &&& ~~~bitUll id else (mu.info s).map)).length : Int) =
      (groupIds (mu.info s).map).length - (if (mu.info s).map.getLsbD id then 1 else 0) := by
    have member : id ∈ groupIds (mu.info s).map ↔ (mu.info s).map.getLsbD id = true := by
      rw [mem_groupIds]
      exact and_iff_right range
    split
    · rw [(groupIds_clear _ id).length_eq, List.length_erase]
      split
      · rename_i inside
        have pos := List.length_pos_of_mem inside
        rw [if_pos (member.mp inside)]
        omega
      · rename_i outside
        rw [if_neg (fun h => outside (member.mpr h)), Int.sub_zero]
    · rename_i out
      have lost : ¬(mu.info s).map.getLsbD id = true := fun h => out (paired.users_of_has h)
      rw [if_neg lost, Int.sub_zero]
  have absent : (if (mu.groups id).users 0 = some s ∨ (mu.groups id).users 1 = some s then
      (mu.info s).map &&& ~~~bitUll id else (mu.info s).map).getLsbD id = false := by
    split
    · rw [getLsbD_clear]
      simp
    · rename_i out
      exact Bool.eq_false_iff.mpr fun has => out (paired.users_of_has has)
  by_cases first : s = a
  · have second : s ≠ b := first ▸ ne
    rw [if_pos first, if_neg second, if_pos (show s = a ∨ s = b from .inl first),
      (groupIds_set range absent).length_eq, List.length_cons]
    push_cast
    omega
  · rw [if_neg first]
    by_cases second : s = b
    · rw [if_pos second, if_pos (show s = a ∨ s = b from .inr second),
        (groupIds_set range absent).length_eq, List.length_cons]
      push_cast
      omega
    · rw [if_neg second, if_neg (not_or.mpr ⟨first, second⟩)]
      omega

omit [DecidableEq Sta] in
/-- How many groups have users, after one of them has changed -/
theorem inUse_congr_at (mu mu' : MuInfo Sta) {id : Nat} (range : 0 < id ∧ id ≤ nxMuGroupMax)
    (same : ∀ g, g ≠ id → (mu'.groups g).userCnt = (mu.groups g).userCnt) :
    mu.inUse + (if (mu'.groups id).userCnt ≠ 0 then 1 else 0) =
      mu'.inUse + (if (mu.groups id).userCnt ≠ 0 then 1 else 0) := by
  have count := countP_congr_at (List.nodup_range' (s := 1) (n := nxMuGroupMax))
    (range_groups.mpr range) (p := fun g => (mu.groups g).userCnt ≠ 0)
    (q := fun g => (mu'.groups g).userCnt ≠ 0) fun g other => by simp only [same g other]
  simp only [decide_eq_true_eq] at count
  exact count

omit [DecidableEq Sta] in
theorem inUse_le (mu : MuInfo Sta) : mu.inUse ≤ nxMuGroupMax := by
  refine List.countP_le_length.trans ?_
  rw [List.length_range']

theorem Formed.takeOver (formed : Formed mu) {id : Nat} (range : 0 < id ∧ id ≤ nxMuGroupMax)
    {a b : Sta} (ne : a ≠ b) (first : ¬mu.Has a 0) (second : ¬mu.Has b 0) :
    Formed ((mu.removeUsers id).addUsers id [a, b]) := by
  rw [takeOver_eq]
  have turned := handOver_turned mu id a b
  have paired := formed.paired id range.1 range.2
  have has := handOver_has range paired a b
  have group := turned.groups id
  rw [if_pos rfl] at group
  refine ⟨⟨?_, ?_, ?_, fun s active has0 => ?_, fun s g own => ?_, fun s g pos own has0 => ?_,
    fun s => ?_⟩, fun g pos le => ?_, ?_⟩
  · exact turned.activeGroups ▸ formed.groups
  · exact turned.activeSta ▸ formed.active.congr turned.active
  · exact turned.update formed.update
  · rw [turned.active] at active
    exact formed.multi s active ((if_neg range.1.ne).mp ((has s 0).mp has0))
  · by_cases same : g = id
    · exact same ▸ range.2
    · exact formed.top s g ((if_neg same).mp ((has s g).mp own))
  · have before := (if_neg range.1.ne).mp ((has s 0).mp has0)
    by_cases same : g = id
    · rcases (if_pos same).mp ((has s g).mp own) with rfl | rfl
      · exact first before
      · exact second before
    · exact formed.alone s g pos ((if_neg same).mp ((has s g).mp own)) before
  · have slack := formed.slack s
    have users := paired.users_of_has (s := s)
    change 0 ≤ (mu.handOver id a b).slack s
    rw [handOver_slack range paired ne]
    by_cases own : (mu.info s).map.getLsbD id = true
    · rcases users own with user | user
      · rw [if_pos user, if_pos own]
        split <;> omega
      · rw [if_pos user, if_pos own]
        split <;> omega
    · rw [if_neg own]
      split <;> split <;> omega
  · by_cases same : g = id
    · subst same
      refine .pair ne ⟨trivial, trivial⟩ (congrArg Group.userCnt group) (congrArg Group.users group)
        fun s _ => ?_
      exact (has s g).trans (iff_of_eq (if_pos rfl))
    · have stay := turned.groups g
      rw [if_neg same] at stay
      have own : ∀ s, (mu.handOver id a b).Has s g ↔ mu.Has s g := fun s =>
        (has s g).trans (iff_of_eq (if_neg same))
      cases formed.paired g pos le with
      | free zero nobody =>
          exact .free ((congrArg Group.userCnt stay).trans zero) fun s who h =>
            nobody s who ((own s).mp h)
      | pair ne inside two users have' =>
          exact .pair ne inside ((congrArg Group.userCnt stay).trans two)
            ((congrArg Group.users stay).trans users) fun s who => (own s).trans (have' s who)
  · have count := inUse_congr_at mu (mu.handOver id a b) range fun g other => by
      rw [turned.groups, if_neg other]
    have bound := inUse_le (mu.handOver id a b)
    have before := formed.count
    rw [group, if_pos (show (2 : Int) ≠ 0 by decide)] at count
    change UInt8.toNat (_ + 1) = (mu.handOver id a b).inUse
    unfold nxMuGroupMax at bound
    split
    · rename_i some
      rw [if_pos some] at count
      rw [UInt8.sub_add_cancel, before]
      omega
    · rename_i none
      rw [if_neg none] at count
      rw [UInt8.toNat_add, before, show (1 : UInt8).toNat = 1 from rfl]
      omega

omit [DecidableEq Sta] in
theorem mem_activeGroups (formed : Formed mu) {id : Nat} :
    id ∈ mu.activeGroups ↔ 0 < id ∧ id ≤ nxMuGroupMax := by
  rw [formed.groups.mem_iff, range_groups]

omit [DecidableEq Sta] in
theorem Formed.moveGroup (formed : Formed mu) {id : Nat} (range : 0 < id ∧ id ≤ nxMuGroupMax) :
    Formed (mu.moveGroup id) := by
  refine ⟨⟨?_, formed.active, formed.update, formed.multi, formed.top, formed.alone, formed.slack⟩,
    fun g pos le => ?_, formed.count⟩
  · exact (List.perm_cons_erase ((mem_activeGroups formed).mpr range)).symm.trans formed.groups
  · cases formed.paired g pos le with
    | free zero nobody => exact .free zero nobody
    | pair ne inside two users has => exact .pair ne inside two users has

end Aic8800.Mu
