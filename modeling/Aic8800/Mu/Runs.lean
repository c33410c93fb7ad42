import Aic8800.Mu.Leaving
import Aic8800.Mu.Selection

/-! # The groups in a run

The stations come and go, send, and are put into groups, in any order. The pairs stay well formed
throughout, and no step follows a pointer that is not there.
-/

namespace Aic8800.Mu

open Lib.Run

variable {Sta : Type} [DecidableEq Sta]

/-- The groups, and the stations that are there -/
structure Hw (Sta : Type) where
  mu : MuInfo Sta
  valid : Sta → Bool

def Hw.init : Hw Sta := ⟨.init, fun _ => false⟩

inductive Event (Sta : Type) where
  | init (sta : Sta) (beamformee : Bool)
  | del (sta : Sta)
  | setActiveSta (sta : Sta) (traffic : Int32)
  | setActiveGroup (id : Nat)
  | work (mutx locked : Bool) (sending : Sta → Sending)
  | staSelect (vifs : List (List Sta)) (due : Bool)

/-- One of the functions runs. One that follows a pointer to nothing, or leaves its memory, takes no
    step. -/
def step (hw : Hw Sta) : Event Sta → Option (Hw Sta)
  | .init sta beamformee => some
      ⟨hw.mu.onInfo sta fun _ => .init beamformee, Function.update hw.valid sta true⟩
  | .del sta => some ⟨hw.mu.staDel sta, Function.update hw.valid sta false⟩
  | .setActiveSta sta traffic => some { hw with mu := hw.mu.setActiveSta sta traffic }
  | .setActiveGroup id => (hw.mu.setActiveGroup id).map fun mu => { hw with mu }
  | .work mutx locked sending =>
      (hw.mu.groupWork mutx locked sending).map fun mu => { hw with mu }
  | .staSelect vifs due => (hw.mu.staSelect vifs due).map fun mu => { hw with mu }

/-- What the callers see to: a station is made known once before it is deleted, only such stations
    send, a group number is one of the table, and a station is in one list of an access point. -/
def Called (hw : Hw Sta) : Event Sta → Prop
  | .init sta _ => hw.valid sta = false
  | .del sta => hw.valid sta = true
  | .setActiveSta sta _ => hw.valid sta = true
  | .setActiveGroup id => 0 < id ∧ id ≤ nxMuGroupMax
  | .work _ _ _ => hw.mu.pending = true
  | .staSelect vifs _ => vifs.flatten.Nodup

/-- The pairs are well formed, and those who are not there are in none and in no list. -/
structure Good (hw : Hw Sta) : Prop where
  formed : Formed hw.mu
  gone : ∀ s, hw.valid s = false →
    (∀ g, ¬hw.mu.Has s g) ∧ s ∉ hw.mu.activeSta ∧ s ∉ hw.mu.updateSta

omit [DecidableEq Sta] in
theorem init_good : Good (Hw.init : Hw Sta) := by
  have none : ∀ s g, ¬(MuInfo.init : MuInfo Sta).Has s g := fun s g => by
    simp [MuInfo.Has, MuInfo.init, GroupInfo.init]
  refine ⟨⟨⟨List.reverse_perm _, ⟨List.nodup_nil, fun s => ?_⟩, ⟨List.nodup_nil, fun s => ?_⟩,
    fun s _ => none s 0, fun s g h => absurd h (none s g), fun s g _ h => absurd h (none s g),
    fun s => ?_⟩, fun id _ _ => .free rfl fun s _ => none s id, ?_⟩,
    fun s _ => ⟨none s, List.not_mem_nil, List.not_mem_nil⟩⟩
  · simp [Hw.init, MuInfo.init, GroupInfo.init]
  · simp [Hw.init, MuInfo.init, GroupInfo.init]
  · simp [MuInfo.slack, Hw.init, MuInfo.init, GroupInfo.init]
  · simp [MuInfo.inUse, Hw.init, MuInfo.init]

/-! ## Single steps -/

/-- A station that is in no group is made known. -/
theorem Good.staInit {hw : Hw Sta} (good : Good hw) {sta : Sta} (fresh : hw.valid sta = false)
    (beamformee : Bool) :
    Good ⟨hw.mu.onInfo sta fun _ => .init beamformee, Function.update hw.valid sta true⟩ := by
  obtain ⟨none, active, update⟩ := good.gone sta fresh
  have formed := good.formed
  set mu' := hw.mu.onInfo sta fun _ => .init beamformee with is
  have own : mu'.info sta = .init beamformee := (MuInfo.onInfo_info ..).trans (if_pos rfl)
  have others : ∀ t, t ≠ sta → mu'.info t = hw.mu.info t := fun t away =>
    (MuInfo.onInfo_info ..).trans (if_neg away)
  have zero : ∀ g, 0 < g → ¬mu'.Has sta g := fun g pos => by
    rw [MuInfo.Has, own, GroupInfo.init]
    cases beamformee with
    | true => simp
    | false =>
        simp only [Bool.false_eq_true, if_false, suGroup, getLsbD_bitUll]
        simp [pos.ne']
  have has : ∀ s g, 0 < g → (mu'.Has s g ↔ hw.mu.Has s g) := by
    intro s g pos
    by_cases same : s = sta
    · rw [same]
      exact iff_of_false (zero g pos) (none g)
    · rw [MuInfo.Has, others s same, MuInfo.Has]
  have off : ∀ {list : List Sta} {get : GroupInfo → Bool}, sta ∉ list →
      (Listed list fun s => get (hw.mu.info s)) → get (.init beamformee) = false →
      Listed list fun s => get (mu'.info s) := by
    intro list get out listed init
    refine listed.congr fun s => ?_
    by_cases same : s = sta
    · rw [same, own, init]
      exact (Bool.eq_false_iff.mpr ((listed.mem sta).not.mp out)).symm
    · rw [others s same]
  refine ⟨⟨⟨formed.groups, off active formed.active rfl, off update formed.update rfl,
    fun s on => ?_, fun s g h => ?_, fun s g pos h zero => ?_, fun s => ?_⟩,
    fun id pos le => ?_, formed.count⟩,
    fun s absent => ?_⟩
  · have away : s ≠ sta := by
      rintro rfl
      rw [own] at on
      cases on
    rw [others s away] at on
    rw [MuInfo.Has, others s away]
    exact formed.multi s on
  · rcases Nat.eq_zero_or_pos g with rfl | pos
    · exact Nat.zero_le _
    · exact formed.top s g ((has s g pos).mp h)
  · have away : s ≠ sta := fun same => none g (same ▸ (has s g pos).mp h)
    rw [MuInfo.Has, others s away] at zero
    exact formed.alone s g pos ((has s g pos).mp h) zero
  · by_cases same : s = sta
    · rw [same, MuInfo.slack, own, GroupInfo.init]
      exact Int.natCast_nonneg _
    · rw [MuInfo.slack, others s same]
      exact formed.slack s
  · cases formed.paired id pos le with
    | free zero nobody => exact .free zero fun s who h => nobody s who ((has s id pos).mp h)
    | pair ne inside two users own =>
        exact .pair ne inside two users fun s who => (has s id pos).trans (own s who)
  · have away : s ≠ sta := by
      rintro rfl
      simp at absent
    simp only [Function.update_of_ne away] at absent
    obtain ⟨none', rest⟩ := good.gone s absent
    refine ⟨fun g h => none' g ?_, rest⟩
    rwa [MuInfo.Has, others s away] at h

theorem Good.staDel {hw : Hw Sta} (good : Good hw) (sta : Sta) :
    Good ⟨hw.mu.staDel sta, Function.update hw.valid sta false⟩ := by
  have deleted := staDel_deleted good.formed sta
  refine ⟨deleted.formed, fun s absent => ?_⟩
  by_cases same : s = sta
  · subst same
    refine ⟨fun g h => ?_, ?_, ?_⟩
    · rw [MuInfo.Has, deleted.map] at h
      simp at h
    · rw [deleted.activeSta]
      exact good.formed.active.nodup.not_mem_erase
    · rw [deleted.updateSta]
      exact good.formed.update.nodup.not_mem_erase
  · simp only [Function.update_of_ne same] at absent
    obtain ⟨none, active, update⟩ := good.gone s absent
    refine ⟨fun g h => none g ((deleted.has s same g).mp h).1, ?_, ?_⟩
    · rw [deleted.activeSta]
      exact fun member => active (List.mem_of_mem_erase member)
    · rw [deleted.updateSta]
      exact fun member => update (List.mem_of_mem_erase member)

/-- A station gets to the head of the active ones. -/
theorem moveActive_formed {mu : MuInfo Sta} (formed : Formed mu) {sta : Sta} (lacks : ¬mu.Has sta 0)
    (pending : Bool) : Formed { mu.onInfo sta fun info => { info with active := true } with
      activeSta := moveHead mu.activeSta (mu.info sta).active sta, pending := pending } := by
  have get : ∀ {β : Type} (get : GroupInfo → β) (s : Sta),
      (∀ i : GroupInfo, get { i with active := true } = get i) →
      get ((mu.onInfo sta fun info => { info with active := true }).info s) = get (mu.info s) :=
    fun get s blind => onInfo_get get mu sta s blind
  have active : ∀ s, ((mu.onInfo sta fun info => { info with active := true }).info s).active =
      Function.update (fun s => (mu.info s).active) sta true s := by
    intro s
    rw [MuInfo.onInfo_info, Function.update_apply]
    split
    · rfl
    · rfl
  refine formed.congr rfl rfl rfl (fun s => get (·.map) s fun _ => rfl)
    (fun s => get (·.cnt) s fun _ => rfl) ((formed.active.moveHead sta).congr active)
    (fun s on => ?_) (formed.update.congr fun s => get (·.update) s fun _ => rfl)
  rw [active, Function.update_apply] at on
  split at on
  · rename_i same
    exact same ▸ lacks
  · exact formed.multi s on

/-- What a station that has sent leaves as it is -/
structure Sent (mu mu' : MuInfo Sta) (sta : Sta) : Prop where
  formed : Formed mu'
  map : ∀ s, (mu'.info s).map = (mu.info s).map
  cnt : ∀ s, (mu'.info s).cnt = (mu.info s).cnt
  groups : mu'.groups = mu.groups
  updateSta : mu'.updateSta = mu.updateSta
  activeSta : ∀ s ∈ mu'.activeSta, s = sta ∨ s ∈ mu.activeSta
  sent : mu'.sent = mu.sent

theorem setActiveSta_sent {mu : MuInfo Sta} (formed : Formed mu) (sta : Sta) (traffic : Int32) :
    Sent mu (mu.setActiveSta sta traffic) sta := by
  have get : ∀ {β : Type} (get : GroupInfo → β) (s : Sta),
      (∀ (i : GroupInfo) t, get { i with traffic := t } = get i) →
      get ((mu.onInfo sta fun info => { info with traffic := info.traffic + traffic }).info s) =
        get (mu.info s) := fun get s blind => onInfo_get get mu sta s fun i => blind i _
  have map := fun s => get (·.map) s fun _ _ => rfl
  have cnt := fun s => get (·.cnt) s fun _ _ => rfl
  have counted : Formed (mu.onInfo sta fun info =>
      { info with traffic := info.traffic + traffic }) :=
    formed.congr rfl rfl rfl map cnt (formed.active.congr fun s => get (·.active) s fun _ _ => rfl)
      (fun s on => formed.multi s (by rwa [get (·.active) s fun _ _ => rfl] at on))
      (formed.update.congr fun s => get (·.update) s fun _ _ => rfl)
  rw [MuInfo.setActiveSta]
  split
  · exact ⟨formed, fun _ => rfl, fun _ => rfl, rfl, rfl, fun s member => .inr member, rfl⟩
  · rename_i multi
    have lacks : ¬mu.Has sta 0 := by
      intro has
      have bit : ((mu.info sta).map &&& suGroup).getLsbD 0 = true := by
        rw [BitVec.getLsbD_and, Bool.and_eq_true]
        exact ⟨has, by decide⟩
      rw [not_not.mp multi] at bit
      cases bit
    rw [MuInfo.Has, ← map] at lacks
    simp only
    split
    · refine ⟨moveActive_formed counted lacks _, fun s => ?_, fun s => ?_, rfl, rfl,
        fun s member => ?_, rfl⟩
      · exact (onInfo_get (·.map) _ sta s (f := fun info => { info with active := true })
          fun _ => rfl).trans (map s)
      · exact (onInfo_get (·.cnt) _ sta s (f := fun info => { info with active := true })
          fun _ => rfl).trans (cnt s)
      · simp only [moveHead, List.mem_cons] at member
        refine member.imp_right fun member => ?_
        split at member
        · exact List.mem_of_mem_erase member
        · exact member
    · exact ⟨counted, map, cnt, rfl, rfl, fun s member => .inr member, rfl⟩

/-- Only the traffic and the group of a station may have changed. -/
theorem staSelect_info {mu : MuInfo Sta} {vifs : List (List Sta)} (due : Bool)
    (formed : Formed mu) (nodup : vifs.flatten.Nodup) :
    ∃ mu', mu.staSelect vifs due = some mu' ∧ Informed mu mu' ∧ ∀ s, mu'.info s =
      { mu.info s with traffic := (mu'.info s).traffic, group := (mu'.info s).group } := by
  by_cases idle : mu.groupCnt = 0 ∨ due = false
  · exact ⟨mu, if_pos idle, rfl, fun _ => rfl⟩
  · rw [not_or, Bool.not_eq_false] at idle
    obtain ⟨mu', run, informed, others, all⟩ := staSelect_selected formed idle.1 nodup
    refine ⟨mu', idle.2 ▸ run, informed, fun s => ?_⟩
    by_cases listed : s ∈ vifs.flatten
    · obtain ⟨stas, member, here⟩ := List.mem_flatten.mp listed
      obtain ⟨chosen, selected⟩ := all stas member
      by_cases used : ∃ g ∈ chosen, mu.User s g
      · obtain ⟨g, taken, use⟩ := used
        rw [selected.given g taken s use]
      · rw [selected.rest s here fun g taken use => used ⟨g, taken, use⟩]
    · rw [others s listed]

/-- What the work does with the groups keeps them well formed. -/
theorem groupWork_formed {mu mu' : MuInfo Sta} (formed : Formed mu) {mutx locked : Bool}
    {sending : Sta → Sending} (work : mu.groupWork mutx locked sending = some mu') :
    Formed mu' ∧ (Exact mu → Exact mu') ∧
      (∀ s, s ∉ mu.activeSta → ∀ g, mu'.Has s g → mu.Has s g) ∧
      (∀ s ∈ mu'.activeSta, s ∈ mu.activeSta) ∧ ∀ s ∈ mu'.updateSta, s ∈ mu.updateSta := by
  by_cases idle : (mutx && locked) = false
  · rw [groupWork_idle idle] at work
    obtain rfl := Option.some.inj work
    refine ⟨?_, fun exact => ⟨exact.clean, exact.slack⟩, fun s _ g own => own,
      fun s member => member, fun s member => member⟩
    exact formed.congr rfl rfl rfl (fun _ => rfl) (fun _ => rfl) formed.active formed.multi
      formed.update
  · obtain ⟨rfl, rfl⟩ := Bool.and_eq_true_iff.mp ((Bool.not_eq_false _).mp idle)
    obtain ⟨mu₁, -, -, -, -, all⟩ := groupWork_regrouped formed sending
    have regrouped := all mu' work
    refine ⟨regrouped.formed, regrouped.exact, regrouped.gained, ?_, ?_⟩
    · rw [regrouped.activeSta]
      exact fun s member => absurd member List.not_mem_nil
    · rw [regrouped.updateSta]
      exact fun s member => absurd member List.not_mem_nil

/-- The requests of the work can be sent. Of the other calls nothing is asked. -/
def Goes (hw : Hw Sta) : Event Sta → Prop
  | .work mutx locked sending => mutx = true → locked = true → ∀ mu₁,
      { hw.mu with pending := false }.regroupAll = some mu₁ →
        ∀ s ∈ mu₁.updateSta, mu₁.Sends s (sending s)
  | _ => True

theorem step_goes {hw : Hw Sta} (good : Good hw) {e : Event Sta} (called : Called hw e) :
    (step hw e).isSome ↔ Goes hw e := by
  cases e with
  | init sta beamformee => exact iff_of_true rfl trivial
  | del sta => exact iff_of_true rfl trivial
  | setActiveSta sta traffic => exact iff_of_true rfl trivial
  | setActiveGroup id =>
      refine iff_of_true ?_ trivial
      rw [Mu.step, MuInfo.setActiveGroup, groupFromId,
        if_pos (show 0 < id ∧ id ≤ nxMuGroupMax from called)]
      rfl
  | work mutx locked sending =>
      rw [Mu.step, Option.isSome_map]
      by_cases idle : (mutx && locked) = false
      · rw [groupWork_idle idle]
        refine iff_of_true rfl fun on got => ?_
        rw [on, got] at idle
        cases idle
      · obtain ⟨rfl, rfl⟩ := Bool.and_eq_true_iff.mp ((Bool.not_eq_false _).mp idle)
        obtain ⟨mu₁, run, -, -, goes, -⟩ := groupWork_regrouped good.formed sending
        rw [goes]
        constructor
        · intro sends _ _ mu₂ run'
          obtain rfl := Option.some.inj (run.symm.trans run')
          exact sends
        · intro sends
          exact sends rfl rfl mu₁ run
  | staSelect vifs due =>
      refine iff_of_true ?_ trivial
      obtain ⟨mu', run, -⟩ := staSelect_info due good.formed called
      rw [Mu.step, run]
      rfl

/-- What a call leaves is good. -/
theorem Good.step {hw hw' : Hw Sta} (good : Good hw) {e : Event Sta} (called : Called hw e)
    (taken : step hw e = some hw') : Good hw' := by
  cases e with
  | init sta beamformee =>
      obtain rfl := Option.some.inj taken
      exact good.staInit called beamformee
  | del sta =>
      obtain rfl := Option.some.inj taken
      exact good.staDel sta
  | setActiveSta sta traffic =>
      obtain rfl := Option.some.inj taken
      have sent := setActiveSta_sent good.formed sta traffic
      refine ⟨sent.formed, fun s absent => ?_⟩
      obtain ⟨none, active, update⟩ := good.gone s absent
      refine ⟨fun g h => none g ?_, fun member => ?_, ?_⟩
      · rwa [MuInfo.Has, sent.map] at h
      · rcases sent.activeSta s member with rfl | member
        · exact Bool.false_ne_true (absent.symm.trans called)
        · exact active member
      · exact sent.updateSta ▸ update
  | setActiveGroup id =>
      rw [Mu.step, MuInfo.setActiveGroup, groupFromId,
        if_pos (show 0 < id ∧ id ≤ nxMuGroupMax from called)] at taken
      obtain rfl := Option.some.inj taken
      exact ⟨good.formed.moveGroup called, good.gone⟩
  | work mutx locked sending =>
      obtain ⟨mu', run, rfl⟩ := Option.map_eq_some_iff.mp taken
      obtain ⟨formed, -, gained, active', update'⟩ := groupWork_formed good.formed run
      refine ⟨formed, fun s absent => ?_⟩
      obtain ⟨none, active, update⟩ := good.gone s absent
      exact ⟨fun g h => none g (gained s active g h), fun member => active (active' s member),
        fun member => update (update' s member)⟩
  | staSelect vifs due =>
      obtain ⟨mu', run, informed, info⟩ := staSelect_info due good.formed called
      rw [Mu.step, run] at taken
      obtain rfl := Option.some.inj taken
      have same : ∀ {β : Type} (get : GroupInfo → β) (s : Sta),
          (∀ (i : GroupInfo) t g, get { i with traffic := t, group := g } = get i) →
          get (mu'.info s) = get (hw.mu.info s) := fun get s blind => by rw [info s, blind]
      have map := fun s => same (·.map) s fun _ _ _ => rfl
      have active := fun s => same (·.active) s fun _ _ _ => rfl
      have formed : Formed mu' := by
        have lists : mu'.activeSta = hw.mu.activeSta ∧ mu'.updateSta = hw.mu.updateSta := by
          rw [informed]
          exact ⟨rfl, rfl⟩
        refine good.formed.congr (by rw [informed]) informed.groups (by rw [informed]) map
          (fun s => same (·.cnt) s fun _ _ _ => rfl) (lists.1 ▸ good.formed.active.congr active)
          (fun s on => good.formed.multi s ((active s).symm.trans on)) ?_
        exact lists.2 ▸ good.formed.update.congr fun s => same (·.update) s fun _ _ _ => rfl
      refine ⟨formed, fun s absent => ?_⟩
      obtain ⟨none, active, update⟩ := good.gone s absent
      refine ⟨fun g h => none g ?_, ?_, ?_⟩
      · rwa [MuInfo.Has, map] at h
      · rw [informed]
        exact active
      · rw [informed]
        exact update

/-! ## Runs -/

theorem reachable_good {hw : Hw Sta} (reach : Reachable step Called Hw.init hw) : Good hw := by
  exact reach.invariant Good init_good fun _ _ _ good called taken => good.step called taken

/-- No station is deleted. -/
def Growing (hw : Hw Sta) (e : Event Sta) : Prop := Called hw e ∧ ∀ sta, e ≠ .del sta

/-- Two stations come and send. -/
def twoSend : List (Event Bool) :=
  [.init true true, .init false true, .setActiveSta true 60, .setActiveSta false 60]

theorem twoSend_reach : ∃ hw : Hw Bool, exec step Hw.init twoSend = some hw ∧
    (hw.mu.groupWork true true fun _ => .passed).isSome = true ∧
    hw.mu.activeSta = [false, true] ∧ Reachable step Growing Hw.init hw := by
  have stays : ∀ (hw : Hw Bool) (e : Event Bool), (∀ sta, e ≠ .del sta) → Called hw e →
      Growing hw e := fun _ _ stays called => ⟨called, stays⟩
  refine ⟨_, rfl, rfl, rfl, ?_⟩
  refine .next (.setActiveSta false 60) (.next (.setActiveSta true 60) (.next (.init false true)
    (.next (.init true true) .init ?_ rfl) ?_ rfl) ?_ rfl) ?_ rfl
  · exact stays _ _ (fun _ same => by cases same) rfl
  · exact stays _ _ (fun _ same => by cases same) rfl
  · exact stays _ _ (fun _ same => by cases same) rfl
  · exact stays _ _ (fun _ same => by cases same) rfl

theorem Growing.called {hw : Hw Sta} (reach : Reachable step Growing Hw.init hw) :
    Reachable step Called Hw.init hw :=
  reach.invariant (Reachable step Called Hw.init) .init fun _ e _ reach grows taken =>
    .next e reach grows.1 taken

/-- However the stations come, go and send, the pairs are well formed. No function follows a pointer
    to nothing, the arrays of the selection have room, and so have the requests of the work, as
    long as the count of the groups of those it tells is not negative. -/
theorem reachable_formed {hw : Hw Sta} (reach : Reachable step Called Hw.init hw) :
    Formed hw.mu ∧ (∀ e, Called hw e → ((step hw e).isSome = true ↔ Goes hw e)) ∧
      ∀ s x, 0 ≤ (hw.mu.info s).cnt → (hw.mu.Sends s x ↔ x ≠ .noCommand) := by
  have good := reachable_good reach
  exact ⟨good.formed, fun e called => step_goes good called,
    fun s x counted => sends_iff good.formed counted x⟩

theorem reachable_formed_two : ∃ hw : Hw Bool, exec step Hw.init twoSend = some hw ∧
    Formed hw.mu ∧ (∀ e, Called hw e → ((step hw e).isSome = true ↔ Goes hw e)) ∧
      ∀ s x, 0 ≤ (hw.mu.info s).cnt → (hw.mu.Sends s x ↔ x ≠ .noCommand) := by
  obtain ⟨hw, run, -, -, reach⟩ := twoSend_reach
  exact ⟨hw, run, reachable_formed (Growing.called reach)⟩

/-- In any state of a run the work, if its requests can be sent, gives each two of up to eight
    active stations a group, passes on a request for every station whose groups have changed unless
    it is lost, and empties both lists. -/
theorem reachable_regrouped {hw : Hw Sta} (reach : Reachable step Called Hw.init hw)
    {sending : Sta → Sending} {mu' : MuInfo Sta}
    (work : hw.mu.groupWork true true sending = some mu') :
    mu'.activeSta = [] ∧ mu'.updateSta = [] ∧
      (∃ l : List Sta,
        mu'.sent = hw.mu.sent ++ (l.filter (sending · = .passed)).map mu'.updateReq ∧
          ∀ s ∉ l, (mu'.info s).map = (hw.mu.info s).map) ∧
      (∀ s ∉ hw.mu.activeSta, ∀ g, mu'.Has s g → hw.mu.Has s g) ∧
      (hw.mu.activeSta.length ≤ 8 → ∀ a ∈ hw.mu.activeSta, ∀ b ∈ hw.mu.activeSta, a ≠ b →
        ∃ id, mu'.Has a id ∧ mu'.Has b id) := by
  obtain ⟨mu₁, -, -, -, -, all⟩ := groupWork_regrouped (reachable_good reach).formed sending
  have regrouped := all mu' work
  exact ⟨regrouped.activeSta, regrouped.updateSta, regrouped.sent, regrouped.gained,
    regrouped.pairs⟩

theorem reachable_regrouped_two : ∃ (hw : Hw Bool) (mu' : MuInfo Bool),
    exec step Hw.init twoSend = some hw ∧
      hw.mu.groupWork true true (fun _ => .passed) = some mu' ∧ mu'.activeSta = [] ∧
      ∃ id, mu'.Has true id ∧ mu'.Has false id := by
  obtain ⟨hw, run, work, active, reach⟩ := twoSend_reach
  obtain ⟨mu', work⟩ := Option.isSome_iff_exists.mp work
  obtain ⟨empty, -, -, -, pairs⟩ := reachable_regrouped (Growing.called reach) work
  refine ⟨hw, mu', run, work, empty, ?_⟩
  rw [active] at pairs
  exact pairs (by decide) true (by decide) false (by decide) (by decide)

/-- In any state of a run a station that is deleted is in no group afterwards, those it shared a
    group with are out of that group, all others stay as they are, and both lists lose it. -/
theorem reachable_deleted {hw : Hw Sta} (reach : Reachable step Called Hw.init hw) (sta : Sta) :
    Deleted hw.mu (hw.mu.staDel sta) sta :=
  staDel_deleted (reachable_good reach).formed sta

theorem reachable_deleted_two : ∃ hw : Hw Bool, exec step Hw.init twoSend = some hw ∧
    Deleted hw.mu (hw.mu.staDel true) true := by
  obtain ⟨hw, run, -, -, reach⟩ := twoSend_reach
  exact ⟨hw, run, reachable_deleted (Growing.called reach) true⟩

/-- In any state of a run the selection gives each access point the groups that it takes greedily,
    by what their users have sent, and no two of these share a station. -/
theorem reachable_selected {hw : Hw Sta} (reach : Reachable step Called Hw.init hw)
    (some : hw.mu.groupCnt ≠ 0) {vifs : List (List Sta)} (nodup : vifs.flatten.Nodup) :
    ∃ mu', hw.mu.staSelect vifs true = Option.some mu' ∧ Informed hw.mu mu' ∧
      (∀ s, s ∉ vifs.flatten → mu'.info s = hw.mu.info s) ∧
      ∀ stas ∈ vifs, ∃ chosen, Selected hw.mu mu' stas chosen :=
  staSelect_selected (reachable_good reach).formed some nodup

theorem reachable_selected_two : ∃ (hw : Hw Bool) (mu' : MuInfo Bool),
    exec step Hw.init (twoSend ++ [.work true true fun _ => .passed]) = some hw ∧
    hw.mu.staSelect [[true, false]] true = some mu' ∧
    ∃ chosen, Selected hw.mu mu' [true, false] chosen := by
  obtain ⟨hw, run, cnt, reach⟩ : ∃ hw : Hw Bool,
      exec step Hw.init (twoSend ++ [.work true true fun _ => .passed]) = some hw ∧
        hw.mu.groupCnt = 1 ∧ Reachable step Called Hw.init hw := by
    refine ⟨_, rfl, rfl, ?_⟩
    exact .next (.work true true fun _ => .passed) (.next (.setActiveSta false 60)
      (.next (.setActiveSta true 60) (.next (.init false true)
        (.next (.init true true) .init rfl rfl) rfl rfl) rfl rfl) rfl rfl) rfl rfl
  obtain ⟨mu', select, -, -, all⟩ := reachable_selected reach (by rw [cnt]; decide)
    (by decide : [[true, false]].flatten.Nodup)
  exact ⟨hw, mu', run, select, all _ (by decide)⟩

/-! ## Runs without deletions -/

/-- A request tells all groups of its station, and its place in each. -/
structure Tells (mu : MuInfo Sta) (req : UpdateReq Sta) : Prop where
  groupCnt : req.groupCnt.toNat = req.groups.length
  groups : req.groups.map (·.1.toNat) = groupIds (mu.info req.sta).map
  place : ∀ p ∈ req.groups,
    ∃ i : Fin 2, p.2.toNat = i.val ∧ (mu.groups p.1.toNat).users i = some req.sta

theorem staGetPos_place {mu : MuInfo Sta} (formed : Formed mu) {s : Sta} {id : Nat}
    (own : id ∈ groupIds (mu.info s).map) :
    ∃ i : Fin 2, mu.staGetPos s id = i.val ∧ (mu.groups id).users i = some s := by
  obtain ⟨range, has⟩ := mem_groupIds.mp own
  have list : List.finRange 2 = [0, 1] := rfl
  have user := (formed.paired id range.1 range.2).users_of_has has
  simp only [MuInfo.staGetPos, groupFromId, if_pos range, MuInfo.place, list]
  by_cases first : (mu.groups id).users 0 = some s
  · refine ⟨0, ?_, first⟩
    simp [first]
  · have second := user.resolve_left first
    refine ⟨1, ?_, second⟩
    simp [first, second]

theorem toNat_ofInt {n : Nat} (small : n < 2 ^ 8) : (UInt8.ofInt (n : Int)).toNat = n := by
  rw [UInt8.ofInt, UInt8.toNat_ofNat']
  omega

theorem toNat_ofId {id : Nat} {map : BitVec 64} (own : id ∈ groupIds map) :
    (UInt8.ofNat id).toNat = id := by
  have le := (mem_groupIds.mp own).1.2
  unfold nxMuGroupMax at le
  rw [UInt8.toNat_ofNat']
  omega

omit [DecidableEq Sta] in
theorem Exact.cnt {mu : MuInfo Sta} (exact : Exact mu) (s : Sta) :
    (mu.info s).cnt = (groupIds (mu.info s).map).length := by
  have slack := exact.slack s
  rw [MuInfo.slack] at slack
  omega

theorem updateReq_tells {mu : MuInfo Sta} (formed : Formed mu) (exact : Exact mu) (s : Sta) :
    Tells mu (mu.updateReq s) := by
  have cnt := exact.cnt s
  have most := length_groupIds_le (mu.info s).map
  unfold nxMuGroupMax at most
  have all : (mu.updateReq s).groups =
      (groupIds (mu.info s).map).map fun id => (.ofNat id, .ofInt (mu.staGetPos s id)) := by
    rw [MuInfo.updateReq, cnt, Int.toNat_natCast, List.take_length]
  refine ⟨?_, ?_, fun p member => ?_⟩
  · rw [all, List.length_map, MuInfo.updateReq, cnt]
    exact toNat_ofInt (by omega)
  · rw [all, List.map_map]
    exact (List.map_congr_left fun id own => toNat_ofId own).trans (List.map_id _)
  · rw [all] at member
    obtain ⟨id, own, rfl⟩ := List.mem_map.mp member
    obtain ⟨i, pos, user⟩ := staGetPos_place formed own
    refine ⟨i, ?_, ?_⟩
    · rw [pos]
      exact toNat_ofInt (by omega)
    · rwa [toNat_ofId own]

theorem growing_exact {hw : Hw Sta} (reach : Reachable step Growing Hw.init hw) :
    Good hw ∧ Exact hw.mu := by
  refine reach.invariant (fun hw => Good hw ∧ Exact hw.mu)
    ⟨init_good, fun id _ _ _ => rfl, fun s => ?_⟩ fun hw e t both grows taken => ?_
  · exact (by decide : ((groupIds 0).length : Int) - 0 = 0)
  · obtain ⟨called, stays⟩ := grows
    obtain ⟨good, exact⟩ := both
    refine ⟨good.step called taken, ?_⟩
    cases e with
    | init sta beamformee =>
        obtain rfl := Option.some.inj taken
        refine ⟨exact.clean, fun s => ?_⟩
        by_cases same : s = sta
        · have own : (hw.mu.onInfo sta fun _ => .init beamformee).info s = .init beamformee :=
            (MuInfo.onInfo_info ..).trans (if_pos same)
          have none : ∀ b, ((groupIds (GroupInfo.init b).map).length : Int) - 0 = 0 := by decide
          simp only [MuInfo.slack, own]
          exact none beamformee
        · have other : (hw.mu.onInfo sta fun _ => .init beamformee).info s = hw.mu.info s :=
            (MuInfo.onInfo_info ..).trans (if_neg same)
          simp only [MuInfo.slack, other]
          exact exact.slack s
    | del sta => exact absurd rfl (stays sta)
    | setActiveSta sta traffic =>
        obtain rfl := Option.some.inj taken
        have sent := setActiveSta_sent good.formed sta traffic
        exact exact.congr sent.groups sent.map sent.cnt
    | setActiveGroup id =>
        rw [step, MuInfo.setActiveGroup, groupFromId,
          if_pos (show 0 < id ∧ id ≤ nxMuGroupMax from called)] at taken
        obtain rfl := Option.some.inj taken
        exact ⟨exact.clean, exact.slack⟩
    | work mutx locked sending =>
        obtain ⟨mu', run, rfl⟩ := Option.map_eq_some_iff.mp taken
        exact (groupWork_formed good.formed run).2.1 exact
    | staSelect vifs due =>
        obtain ⟨mu', run', informed, info⟩ := staSelect_info due good.formed called
        rw [step, run'] at taken
        obtain rfl := Option.some.inj taken
        exact exact.congr informed.groups (fun s => by rw [info s]) fun s => by rw [info s]

/-- As long as no station has been deleted, the work goes through if there are commands, and the
    firmware is told the truth: each request that is passed on lists all groups of its station,
    with its place in each. -/
theorem growing_told {hw : Hw Sta} (reach : Reachable step Growing Hw.init hw)
    {sending : Sta → Sending} (commands : ∀ s, sending s ≠ .noCommand) :
    ∃ mu', ∃ l : List Sta, hw.mu.groupWork true true sending = some mu' ∧
      mu'.sent = hw.mu.sent ++ (l.filter (sending · = .passed)).map mu'.updateReq ∧
      (∀ s ∉ l, (mu'.info s).map = (hw.mu.info s).map) ∧ ∀ s ∈ l, Tells mu' (mu'.updateReq s) := by
  obtain ⟨good, exact⟩ := growing_exact reach
  obtain ⟨mu₁, -, formed₁, exact₁, goes, all⟩ := groupWork_regrouped good.formed sending
  have counted : ∀ s, 0 ≤ (mu₁.info s).cnt := fun s => by
    rw [(exact₁ exact).cnt]
    exact Int.natCast_nonneg _
  obtain ⟨mu', work⟩ := Option.isSome_iff_exists.mp (goes.mpr fun s _ =>
    (sends_iff formed₁ (counted s) (sending s)).mpr (commands s))
  have regrouped := all mu' work
  obtain ⟨l, sent, rest⟩ := regrouped.sent
  exact ⟨mu', l, work, sent, rest, fun s _ =>
    updateReq_tells regrouped.formed (regrouped.exact exact) s⟩

theorem growing_told_two : ∃ (hw : Hw Bool) (mu' : MuInfo Bool) (l : List Bool),
    exec step Hw.init twoSend = some hw ∧
      hw.mu.groupWork true true (fun _ => .passed) = some mu' ∧
    mu'.sent = hw.mu.sent ++ (l.filter fun _ => Sending.passed = .passed).map mu'.updateReq ∧
    (∀ s ∉ l, (mu'.info s).map = (hw.mu.info s).map) ∧ ∀ s ∈ l, Tells mu' (mu'.updateReq s) := by
  obtain ⟨hw, run, -, -, reach⟩ := twoSend_reach
  have commands : ∀ s : Bool, (fun _ : Bool => Sending.passed) s ≠ .noCommand := fun _ lost =>
    Sending.noConfusion lost
  obtain ⟨mu', l, rest⟩ := growing_told reach commands
  exact ⟨hw, mu', l, run, rest⟩

end Aic8800.Mu
