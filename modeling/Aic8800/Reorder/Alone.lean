import Aic8800.Reorder.Removal

/-! # Calls that nobody interrupts

What `reord_process_unit` and the loop of a flush do in their sections is what they
do as a whole when no other thread steps in between: the section model of the
station table and the one that runs each call to its end agree.
-/

namespace Aic8800.Reorder.RxFrames

open Lib Lib.Threads

variable {s : RxFrames} {e : StaEntry} {mac : MacAddr} {tid : Fin 8}

/-- The table that is searched. -/
def rx (s : RxFrames) : RxPriv := ⟨(s.stas.filter StaEntry.linked).map StaEntry.info⟩

theorem find_rx (s : RxFrames) (mac : MacAddr) :
    findSta mac s.rx.stasReordList = (s.find mac).map StaEntry.info := by
  simp only [findSta, rx, find]
  rw [List.find?_map, List.find?_filter]
  congr 2
  funext e
  cases linked : e.linked <;> cases same : e.info.macAddr == mac <;> simp_all

theorem entry_of_mem (distinct : s.addresses.Nodup) (member : e ∈ s.stas) :
    s.entry e.addr = some e := by
  obtain ⟨kind, stas, addrs, pool⟩ := s
  simp only [addresses, entry] at distinct member ⊢
  induction stas with
  | nil => cases member
  | cons d rest ih =>
      obtain ⟨absent, others⟩ := List.nodup_cons.mp distinct
      rcases List.mem_cons.mp member with rfl | later
      · simp
      · have elsewhere : (d.addr == e.addr) = false :=
          beq_false_of_ne fun same => absent (same ▸ List.mem_map_of_mem later)
        rw [List.find?_cons, elsewhere]
        exact ih others later

theorem entry_setCtrl (found : s.entry e.addr = some e) (tid : Fin 8) (c : ReordCtrl) :
    (s.setCtrl e.addr tid c).entry e.addr = some (e.setCtrl tid c) := by
  obtain ⟨kind, stas, addrs, pool⟩ := s
  simp only [entry, setCtrl] at found ⊢
  induction stas with
  | nil => cases found
  | cons d rest ih =>
      rw [List.find?_cons] at found
      rw [List.map_cons, List.find?_cons]
      cases here : d.addr == e.addr with
      | true =>
          rw [here] at found
          obtain rfl := Option.some.inj found
          simp [StaEntry.setCtrl]
      | false =>
          rw [here] at found
          simp only [if_neg (ne_of_beq_false here), here]
          exact ih found

@[simp] theorem ctrl_setCtrl (e : StaEntry) (tid : Fin 8) (c : ReordCtrl) :
    (e.setCtrl tid c).ctrl tid = c := by
  simp [StaEntry.setCtrl, StaEntry.ctrl]

@[simp] theorem addr_setCtrl (e : StaEntry) (tid : Fin 8) (c : ReordCtrl) :
    (e.setCtrl tid c).addr = e.addr := rfl

/-- Of two writes to a block the later one counts. -/
theorem setCtrl_setCtrl (s : RxFrames) (addr : Nat) (tid : Fin 8) (c d : ReordCtrl) :
    (s.setCtrl addr tid c).setCtrl addr tid d = s.setCtrl addr tid d := by
  simp only [setCtrl, List.map_map, RxFrames.mk.injEq, and_true, true_and]
  refine List.map_congr_left fun e _ => ?_
  simp only [Function.comp_apply]
  split
  · rename_i here
    simp [StaEntry.setCtrl, here]
  · simp

/-- A write to the block of the station that is found by an address. -/
theorem rx_setCtrl (distinct : s.addresses.Nodup) (found : s.find mac = some e) (tid : Fin 8)
    (c : ReordCtrl) :
    (s.setCtrl e.addr tid c).rx = ⟨Reorder.setCtrl mac tid c s.rx.stasReordList⟩ := by
  obtain ⟨kind, stas, addrs, pool⟩ := s
  simp only [addresses, find, rx, RxFrames.setCtrl, RxPriv.mk.injEq] at distinct found ⊢
  induction stas with
  | nil => cases found
  | cons d rest ih =>
      obtain ⟨absent, others⟩ := List.nodup_cons.mp distinct
      rw [List.find?_cons] at found
      cases hit : d.linked && d.info.macAddr == mac with
      | true =>
          rw [hit] at found
          obtain rfl := Option.some.inj found
          obtain ⟨linked, same⟩ := (Bool.and_eq_true _ _).mp hit
          have rest_same : (rest.map fun e => if e.addr = d.addr then e.setCtrl tid c else e) =
              rest := by
            refine (List.map_congr_left fun e inside => ?_).trans (List.map_id rest)
            exact if_neg fun (at_d : e.addr = d.addr) => absent (at_d ▸ List.mem_map_of_mem inside)
          have still : (d.setCtrl tid c).linked = true := linked
          rw [List.map_cons, if_pos rfl, rest_same, List.filter_cons_of_pos still,
            List.filter_cons_of_pos linked, List.map_cons, List.map_cons, Reorder.setCtrl,
            if_pos (beq_iff_eq.mp same)]
          rfl
      | false =>
          rw [hit] at found
          have later := ih others found
          have inside := List.mem_of_find?_eq_some found
          have elsewhere : d.addr ≠ e.addr := fun same => absent (same ▸ List.mem_map_of_mem inside)
          rw [List.map_cons, if_neg elsewhere]
          cases linked : d.linked with
          | false =>
              rw [List.filter_cons_of_neg (by simp [linked]),
                List.filter_cons_of_neg (by simp [linked])]
              exact later
          | true =>
              have other : d.info.macAddr ≠ mac := by
                simpa [linked] using hit
              rw [List.filter_cons_of_pos linked, List.filter_cons_of_pos linked, List.map_cons,
                List.map_cons, Reorder.setCtrl, if_neg other, later]

/-- The step of a thread that is alone. -/
theorem step_alone (s : RxFrames) (t : Point) (choice : Bool) :
    program.step ⟨s, [t]⟩ (.run t choice) =
      (s.action [] t choice).map fun next => ⟨next.1, next.2.toList⟩ := by
  simp [Program.step, program]

@[simp] theorem pass_nil (s : RxFrames) (addr : Nat) (tid : Fin 8) (c : ReordCtrl) :
    s.pass addr tid ⟨c, [], []⟩ = s.setCtrl addr tid c := by
  simp [pass, release, setCtrl]

theorem setCtrl_pass (s : RxFrames) (addr : Nat) (tid : Fin 8) (c : ReordCtrl) (p : Pass) :
    (s.setCtrl addr tid c).pass addr tid p = s.pass addr tid p := by
  rw [pass, setCtrl_setCtrl]
  rfl

/-- The sections of `reord_process_unit` after the block has been found. -/
def blockRun (addr : Nat) (f : RecvMsdu) : List RxLabel :=
  [.run (.block addr f.tid (.unit f .check)) true, .run (.block addr f.tid (.unit f .locked)) true]

theorem block_alone {f : RecvMsdu} (found : s.entry e.addr = some e)
    (on : (e.ctrl f.tid).enable = true) :
    Run.exec program.step ⟨s, [.block e.addr f.tid (.unit f .check)]⟩ (blockRun e.addr f) =
      some ⟨s.pass e.addr f.tid (reordProcessLocked (e.ctrl f.tid) f), []⟩ := by
  have checked : s.action [] (.block e.addr f.tid (.unit f .check)) true =
      some (s.setCtrl e.addr f.tid (e.ctrl f.tid),
        some (.block e.addr f.tid (.unit f .locked))) := by
    simp [action, Task.locks, found, blockAction, Shared.action, Shared.unitAction, on]
  have again := entry_setCtrl found f.tid (e.ctrl f.tid)
  have locked : (s.setCtrl e.addr f.tid (e.ctrl f.tid)).action []
      (.block e.addr f.tid (.unit f .locked)) true =
      some (s.pass e.addr f.tid (reordProcessLocked (e.ctrl f.tid) f), none) := by
    simp [action, Task.locks, lockHeld, again, blockAction, Shared.action,
      Shared.unitAction, Shared.pass, setCtrl_pass]
  simp [blockRun, Run.exec, step_alone, checked, locked]

/-- A block with reordering switched on again takes the frame. -/
theorem processCtrl_reenabled (c : ReordCtrl) (f : RecvMsdu) :
    (reordReenable c).enable = true ∧
      reordProcessCtrl c f = reordProcessLocked (reordReenable c) f := by
  have on : (reordReenable c).enable = true := by
    simp only [reordReenable]
    split
    · assumption
    · rfl
  exact ⟨on, by simp only [reordProcessCtrl, on, if_true]⟩

theorem initSta_rx (s : RxFrames) (mac : MacAddr) :
    (s.initSta mac).rx = ⟨s.rx.stasReordList ++ [reordInitSta mac]⟩ := by
  simp [rx, initSta]

/-- A station that is new is the one found under its address. -/
theorem initSta_find (absent : s.find mac = none) :
    (s.initSta mac).find mac = some ⟨s.addrs, reordInitSta mac, true⟩ := by
  simp only [find, initSta] at absent ⊢
  rw [List.find?_append, absent]
  simp [reordInitSta]

/-- The sections of a call after `stas_reord_lock` was taken, at the station that is
    found or new. -/
theorem lookup_alone {f : RecvMsdu} (distinct : s.addresses.Nodup) (found : s.find mac = some e) :
    Run.exec program.step ⟨s, [.lookup mac f]⟩ (.run (.lookup mac f) true :: blockRun e.addr f) =
      some ⟨s.pass e.addr f.tid (reordProcessCtrl (e.ctrl f.tid) f), []⟩ := by
  obtain ⟨on, same⟩ := processCtrl_reenabled (e.ctrl f.tid) f
  have there := entry_of_mem distinct (find_some found)
  have again := entry_setCtrl there f.tid (reordReenable (e.ctrl f.tid))
  have rest := block_alone (s := s.setCtrl e.addr f.tid (reordReenable (e.ctrl f.tid)))
    (e := e.setCtrl f.tid (reordReenable (e.ctrl f.tid))) again (by rw [ctrl_setCtrl]; exact on)
  rw [ctrl_setCtrl, addr_setCtrl, setCtrl_pass, ← same] at rest
  have first : s.action [] (.lookup mac f) true =
      some (s.setCtrl e.addr f.tid (reordReenable (e.ctrl f.tid)),
        some (.block e.addr f.tid (.unit f .check))) := by
    simp [action, lookup, found]
  rw [Run.exec, step_alone, first]
  exact rest

/-- A call of `reord_process_unit` that nobody interrupts. -/
theorem process_alone (fresh : ∀ addr ∈ s.addresses, addr < s.addrs) (distinct : s.addresses.Nodup)
    (served : s.rwnxVif ≠ .other) (eh : EthHdr) (f : RecvMsdu) (initOk : Bool) :
    ∃ labels s', Run.exec program.step ⟨s, [.process eh f]⟩ labels = some ⟨s', []⟩ ∧
      s'.rx = (reordProcessUnit s.rx ⟨s.rwnxVif, eh, f, initOk⟩).rx ∧
      s'.pool = s.pool.release (reordProcessUnit s.rx ⟨s.rwnxVif, eh, f, initOk⟩).ind
        (reordProcessUnit s.rx ⟨s.rwnxVif, eh, f, initOk⟩).drop := by
  by_cases plain : eh.hProto = ethPPae ∨ eh.hDest.isGroup = true
  · refine ⟨[.run (.process eh f) true], s.release [f] [], ?_, ?_⟩
    · simp [Run.exec, step_alone, action, processUnit, plain]
    · simp only [MacAddr.isGroup, decide_eq_true_eq] at plain
      simp only [reordProcessUnit, if_pos plain]
      exact ⟨rfl, rfl⟩
  obtain ⟨mac, known⟩ : ∃ mac, eh.staMac s.rwnxVif = some mac := by
    cases kind : s.rwnxVif <;> simp_all [EthHdr.staMac]
  have first : s.action [] (.process eh f) true = some (s, some (.lookup mac f)) := by
    simp [action, processUnit, if_neg plain, known]
  have member := find_rx s mac
  simp only [MacAddr.isGroup, decide_eq_true_eq] at plain
  cases found : s.find mac with
  | some e =>
      rw [found, Option.map_some] at member
      refine ⟨.run (.process eh f) true :: .run (.lookup mac f) true :: blockRun e.addr f,
        s.pass e.addr f.tid (reordProcessCtrl (e.ctrl f.tid) f), ?_, ?_⟩
      · rw [Run.exec, step_alone, first]
        exact lookup_alone distinct found
      · simp only [reordProcessUnit, if_neg plain, known, member]
        exact ⟨rx_setCtrl distinct found f.tid _, rfl⟩
  | none =>
      rw [found, Option.map_none] at member
      cases initOk with
      | false =>
          refine ⟨[.run (.process eh f) true, .run (.lookup mac f) false], s.release [f] [], ?_, ?_⟩
          · have indicated : s.action [] (.lookup mac f) false = some (s.release [f] [], none) := by
              simp [action, lookup, found]
            rw [Run.exec, step_alone, first, Option.map_some, Option.bind_some,
              Option.toList_some, Run.exec, step_alone, indicated]
            rfl
          · simp only [reordProcessUnit, if_neg plain, known, member]
            exact ⟨rfl, rfl⟩
      | true =>
          have new := initSta_find found
          have only : (s.initSta mac).addresses.Nodup := by
            rw [initSta_addresses]
            have apart : s.addrs ∉ s.addresses := fun old => Nat.lt_irrefl _ (fresh _ old)
            refine (List.perm_append_singleton _ _).nodup_iff.mpr ?_
            exact List.nodup_cons.mpr ⟨apart, distinct⟩
          have there := entry_of_mem only (find_some new)
          have enabled : reordProcessCtrl reordInitCtrl f = reordProcessLocked reordInitCtrl f :=
            processCtrl_enabled rfl f
          have second : s.action [] (.lookup mac f) true =
              some (s.initSta mac, some (.block s.addrs f.tid (.unit f .check))) := by
            simp [action, lookup, found]
          refine ⟨.run (.process eh f) true :: .run (.lookup mac f) true :: blockRun s.addrs f,
            (s.initSta mac).pass s.addrs f.tid (reordProcessCtrl reordInitCtrl f), ?_, ?_⟩
          · rw [Run.exec, step_alone, first, Option.map_some, Option.bind_some,
              Option.toList_some, Run.exec, step_alone, second, enabled]
            exact block_alone there rfl
          · have table := rx_setCtrl only new f.tid (reordProcessCtrl reordInitCtrl f).ctrl
            rw [initSta_rx] at table
            simp only [reordProcessUnit, if_neg plain, known, member, if_true]
            exact ⟨table, rfl⟩

/-! ## The loop of a flush -/

theorem release_release (p : RxPool) (some more : List RecvMsdu) :
    (p.release some []).release more [] = p.release (some ++ more) [] := by
  simp [RxPool.release, RxPool.element, Ledger.settles]

theorem pass_pass (s : RxFrames) (addr : Nat) (tid : Fin 8) (c d : ReordCtrl)
    (some more : List RecvMsdu) :
    (s.pass addr tid ⟨c, some, []⟩).pass addr tid ⟨d, more, []⟩ =
      s.pass addr tid ⟨d, some ++ more, []⟩ := by
  have table := setCtrl_setCtrl s addr tid c d
  have pool := release_release s.pool some more
  simp only [pass, release, setCtrl] at table pool ⊢
  rw [pool]
  simpa using table

/-- From a turn on, a flush that nobody interrupts drains the block. -/
theorem turns_alone {list : List RecvMsdu} (found : s.entry e.addr = some e)
    (pending : (e.ctrl tid).reordList = list) :
    ∃ labels, Run.exec program.step
      ⟨(s.flushTurn e.addr tid (e.ctrl tid)).1, (s.flushTurn e.addr tid (e.ctrl tid)).2.toList⟩
        labels = some ⟨s.pass e.addr tid (reordFlushLocked (e.ctrl tid)),
          [.block e.addr tid (.flush .testTimer)]⟩ := by
  induction list generalizing s e with
  | nil =>
      refine ⟨[], ?_⟩
      simp only [flushTurn, reordFlushLocked, pending, pass_nil]
      rw [← pending]
      rfl
  | cons f rest ih =>
      have again := entry_setCtrl found tid { e.ctrl tid with reordList := rest }
      have turn : s.flushTurn e.addr tid (e.ctrl tid) =
          (s.pass e.addr tid ⟨{ e.ctrl tid with reordList := rest }, [f], []⟩,
            some (.unlink e.addr tid (s.pool.element f))) := by
        simp only [flushTurn, pending]
      -- the element is free when it is unlinked, and the next turn begins
      have free : s.pool.element f ∈ (s.pool.release [f] []).rxframesFreequeue :=
        RxPool.release_indicated (by simp) _
      obtain ⟨after, same⟩ : ∃ after,
          after = s.pass e.addr tid ⟨{ e.ctrl tid with reordList := rest }, [f], []⟩ := ⟨_, rfl⟩
      have there : after.entry e.addr = some (e.setCtrl tid { e.ctrl tid with reordList := rest }) :=
        same ▸ again
      have next : after.action [] (.unlink e.addr tid (s.pool.element f)) true =
          some (after.flushTurn e.addr tid { e.ctrl tid with reordList := rest }) := by
        have free' : s.pool.element f ∈ after.pool.rxframesFreequeue := same ▸ free
        simp [action, free', there]
      have left : ((e.setCtrl tid { e.ctrl tid with reordList := rest }).ctrl tid).reordList =
          rest := by
        rw [ctrl_setCtrl]
      obtain ⟨labels, drained⟩ := ih there left
      rw [ctrl_setCtrl, addr_setCtrl] at drained
      refine ⟨.run (.unlink e.addr tid (s.pool.element f)) true :: labels, ?_⟩
      rw [turn, ← same, Option.toList_some, Run.exec, step_alone, next, Option.map_some,
        Option.bind_some, drained, same]
      simp only [reordFlushLocked, pass_pass, pending, List.singleton_append]

/-- The turns of a flush that nobody interrupts drain the block as one section does. -/
theorem flush_alone (found : s.entry e.addr = some e) :
    ∃ labels, Run.exec program.step ⟨s, [.block e.addr tid (.flush .drain)]⟩ labels =
      some ⟨s.pass e.addr tid (reordFlushLocked (e.ctrl tid)),
        [.block e.addr tid (.flush .testTimer)]⟩ := by
  obtain ⟨labels, drained⟩ := turns_alone found rfl
  refine ⟨.run (.block e.addr tid (.flush .drain)) true :: labels, ?_⟩
  have first : s.action [] (.block e.addr tid (.flush .drain)) true =
      some (s.flushTurn e.addr tid (e.ctrl tid)) := by
    simp [action, lockHeld, found, blockAction]
  rw [Run.exec, step_alone, first]
  exact drained

end Aic8800.Reorder.RxFrames
