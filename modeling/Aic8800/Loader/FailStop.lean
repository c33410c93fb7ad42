import Aic8800.Loader.Download
import Aic8800.Loader.Lifetime

/-! # The download stops at a failure

A request that is made with the bus up, whose wait ends with a confirmation, is
acknowledged when it returns 0. A request that times out returns 0 as well, but it
leaves the manager crashed, and then every later request that is queued fails.
-/

namespace Aic8800.Loader

open Lib Cmd

/-- The address and the bytes of a block. -/
def Request.block : Request → Option (UInt32 × List UInt8)
  | .memBlockWrite addr data => some (addr, data)
  | _ => none

/-- Blocks that cover an image from an address on, without a gap and in order. -/
inductive Tiles : UInt32 → List UInt8 → List (UInt32 × List UInt8) → Prop where
  | nil {addr : UInt32} : Tiles addr [] []
  | cons {addr : UInt32} {block rest : List UInt8} {blocks : List (UInt32 × List UInt8)} :
      block ≠ [] → Tiles (addr + .ofNat block.length) rest blocks →
      Tiles addr (block ++ rest) ((addr, block) :: blocks)

/-- The property: the blocks cover the image, every request that wants a
    confirmation has got it, once and in order, and what the program read is what
    the confirmation of the read carried. -/
structure Loaded (cfg : Config) (image : List UInt8) (s : Load) : Prop where
  blocks : Tiles cfg.fwAddr image (s.requests.filterMap Request.block)
  acked : ∀ n r, s.requests[n]? = some r → r.send.reqcfm = true →
    ∃ payload, (n, payload) ∈ s.mgr.confirmed ∧
      ∀ addr, r = .memRead addr → payload.length = 8 ∧
        ∃ reply, s.replies[n]? = some reply ∧ reply.cfm = payload
  order : (s.mgr.confirmed.map Prod.fst).Pairwise (· < ·)

/-- The condition on the steps of the manager: the bus is up when a request that
    wants a confirmation is sent, no wait is interrupted, the queue is not drained
    while a command is in it, and a confirmation that is copied has eight bytes. -/
def CmdMgr.Prompt (m : CmdMgr) : Label → Prop
  | .run n =>
      match m.point n with
      | some (.called send) => send.reqcfm = true → m.busUp = true
      | _ => True
  | .signal _ => False
  | .drain => m.cmds = []
  | .msgind id param => ∀ n ∈ m.cfmTarget id, (m.cmd n).e2aMsg ≠ none → param.length = 8
  | _ => True

/-- The condition: the manager's, and no command has timed out when the start of the
    firmware is requested. -/
def Load.Guard (s : Load) : LoadLabel → Prop
  | .mgr l => s.mgr.Prompt l
  | .request _ =>
      match s.prog with
      | .send r _ => r.send.reqcfm = false → s.mgr.state = .inited
      | .done _ => True
  | .resume => True

instance (m : CmdMgr) (l : Label) : Decidable (m.Prompt l) :=
  match l with
  | .run n =>
      match at_ : m.point n with
      | some (.called send) =>
          decidable_of_iff (send.reqcfm = true → m.busUp = true) (by simp only [CmdMgr.Prompt, at_])
      | some .filled | some .linked | some .waiting | some .timedOut | some .woken
      | some (.returned _) | none => decidable_of_iff True (by simp only [CmdMgr.Prompt, at_])
  | .signal _ => inferInstanceAs (Decidable False)
  | .drain => inferInstanceAs (Decidable (m.cmds = []))
  | .msgind id param =>
      inferInstanceAs (Decidable (∀ n ∈ m.cfmTarget id, (m.cmd n).e2aMsg ≠ none → param.length = 8))
  | .call _ | .timeout _ | .bus _ => inferInstanceAs (Decidable True)

instance (s : Load) (l : LoadLabel) : Decidable (s.Guard l) :=
  match l with
  | .mgr l => inferInstanceAs (Decidable (s.mgr.Prompt l))
  | .request _ =>
      match prog : s.prog with
      | .send r _ =>
          decidable_of_iff (r.send.reqcfm = false → s.mgr.state = .inited)
            (by simp only [Load.Guard, prog])
      | .done _ => decidable_of_iff True (by simp only [Load.Guard, prog])
  | .resume => inferInstanceAs (Decidable True)

/-! ## The program -/

namespace Prog

/-- A program that ends with an error when a request fails, and otherwise starts the
    firmware, with `good` requests before, and then ends. -/
def Checked (good : List Request → Prop) : Prog → List Request → Prop
  | .done err, _ => err ≠ 0
  | .send r next, made =>
      (∀ a, a.ret ≠ 0 → ∃ err, err ≠ 0 ∧ next a = .done err) ∧
        if r.send.reqcfm then ∀ cfm, (next ⟨0, cfm⟩).Checked good (made ++ [r])
        else good made ∧ ∀ a, a.ret = 0 → next a = .done 0

variable {good : List Request → Prop} {made : List Request}

/-- Requests that are queued, before a program that is checked. -/
theorem sendAll_checked {rs : List Request} {f : Int → Prog}
    (queued : ∀ r ∈ rs, r.send.reqcfm = true) (fails : ∀ err, err ≠ 0 → ∃ e, e ≠ 0 ∧ f err = .done e)
    (rest : (f 0).Checked good (made ++ rs)) : ((sendAll rs).bind f).Checked good made := by
  induction rs generalizing made with
  | nil => simpa [sendAll, bind] using rest
  | cons r rs ih =>
      simp only [sendAll, bind, Checked, queued r List.mem_cons_self, if_true]
      constructor
      · intro a failed
        rw [if_pos failed]
        exact fails a.ret failed
      · intro cfm
        apply ih
        · exact fun r' member => queued r' (List.mem_cons_of_mem r member)
        · rw [List.append_assoc]
          exact rest

theorem readOr_checked {addr : UInt32} {next : UInt32 → Prog} {f : Int → Prog}
    (fails : ∀ err, err ≠ 0 → ∃ e, e ≠ 0 ∧ f err = .done e)
    (rest : ∀ data, ((next data).bind f).Checked good (made ++ [.memRead addr])) :
    ((readOr addr next).bind f).Checked good made := by
  simp only [readOr, bind, Checked, Request.send, if_true]
  constructor
  · intro a failed
    rw [if_pos failed]
    exact fails a.ret failed
  · exact fun cfm => rest (memdata cfm)

/-- The continuation of `orFail` fails with its argument. -/
theorem orFail_fails (q : Prog) (err : Int) (failed : err ≠ 0) :
    ∃ e, e ≠ 0 ∧ (if err ≠ 0 then Prog.done (-1) else q) = .done e :=
  ⟨-1, by decide, if_pos failed⟩

theorem startApp_checked {addr : UInt32} (ready : good made) : (startApp addr).Checked good made := by
  simp only [startApp, orFail, sendAll, bind, Checked, Request.send, Bool.false_eq_true, if_false]
  refine ⟨fun a failed => ⟨-1, by decide, ?_⟩, ready, fun a ok => ?_⟩
  · rw [if_pos failed]
    exact if_pos failed
  · rw [if_neg (by simp [ok])]
    rfl

end Prog

/-! ## The blocks -/

/-- Whole blocks at the front of an image, and the rest of it as one block. -/
theorem tiles_blocks (count : Nat) (addr : UInt32) (dst : List UInt8) (more : 1024 * count < dst.length) :
    Tiles addr dst ((List.range count).map (fun k =>
      (addr + .ofNat (1024 * k), (dst.drop (1024 * k)).take 1024)) ++
        [(addr + .ofNat (1024 * count), dst.drop (1024 * count))]) := by
  induction count generalizing addr dst with
  | zero =>
      have whole : Tiles addr (dst ++ []) [(addr, dst)] :=
        .cons (List.length_pos_iff.mp (by omega)) .nil
      simpa using whole
  | succ count ih =>
      have first : (dst.take 1024).length = 1024 := by
        rw [List.length_take]
        omega
      have rest := ih (addr + .ofNat (dst.take 1024).length) (dst.drop 1024) (by
        rw [List.length_drop]
        omega)
      have tiles := Tiles.cons (List.length_pos_iff.mp (by omega)) rest
      rw [List.take_append_drop] at tiles
      have next : ∀ k, addr + UInt32.ofNat (dst.take 1024).length + .ofNat (1024 * k) =
          addr + .ofNat (1024 * (k + 1)) := by
        intro k
        rw [first, UInt32.add_assoc, ← UInt32.ofNat_add, Nat.mul_succ, Nat.add_comm]
      have shift : ∀ k, (dst.drop 1024).drop (1024 * k) = dst.drop (1024 * (k + 1)) := by
        intro k
        rw [List.drop_drop, Nat.mul_succ, Nat.add_comm]
      simp only [next, shift] at tiles
      simpa [List.range_succ_eq_map, Function.comp_def] using tiles

namespace Prog

theorem bind_assoc (p : Prog) (f g : Int → Prog) :
    (p.bind f).bind g = p.bind fun err => (f err).bind g := by
  induction p with
  | done ret => rfl
  | send r next ih =>
      simp only [bind]
      congr 1
      funext a
      exact ih a

variable {good : List Request → Prop} {q : Prog}

theorem upload_checked {fwAddr : UInt32} {dst : List UInt8}
    (rest : ∀ made, Tiles fwAddr dst (made.filterMap Request.block) → q.Checked good made) :
    ((rwnxPlatBinFwUploadAndroid fwAddr dst).orFail q).Checked good [] := by
  unfold rwnxPlatBinFwUploadAndroid orFail
  split
  · have failed := orFail_fails q (-1) (by decide)
    obtain ⟨e, nonzero, ends⟩ := failed
    simp only [bind]
    rw [ends]
    exact nonzero
  · rename_i loaded
    have more : 1024 * trips dst.length < dst.length := by
      unfold trips
      split <;> omega
    rw [bind_assoc]
    apply sendAll_checked
    · intro r member
      obtain ⟨k, -, rfl⟩ := List.mem_map.mp member
      rfl
    · intro err failed
      dsimp only
      rw [if_neg (by simp [failed])]
      exact orFail_fails q err failed
    · dsimp only
      rw [if_pos ⟨rfl, more⟩]
      simp only [bind, Checked, Request.send, if_true]
      refine ⟨fun a failed => orFail_fails q a.ret failed, fun cfm => ?_⟩
      rw [if_neg (by simp)]
      apply rest
      have tiles := tiles_blocks (trips dst.length) fwAddr dst more
      simpa [wholeBlocks, List.filterMap_append, List.filterMap_map, Request.block,
        Function.comp_def] using tiles

theorem pairWrites_writes (configBase addr : UInt32) (tbl : List (UInt32 × UInt32)) :
    ∀ r ∈ pairWrites configBase addr tbl, ∃ a d, r = .memWrite a d := by
  induction tbl generalizing addr with
  | nil => exact fun r member => by cases member
  | cons pair tbl ih =>
      intro r member
      cases member with
      | head => exact ⟨_, _, rfl⟩
      | tail _ member =>
          cases member with
          | head => exact ⟨_, _, rfl⟩
          | tail _ member => exact ih _ r member

theorem patchWrites_writes (cfg : Config) (configBase strBase startAddr : UInt32) :
    ∀ r ∈ patchWrites cfg configBase strBase startAddr, ∃ a d, r = .memWrite a d := by
  intro r member
  simp only [patchWrites, List.mem_append, List.mem_cons, List.not_mem_nil, or_false] at member
  rcases member with ((rfl | rfl | rfl | rfl) | pair) | (rfl | rfl | rfl | rfl)
  · exact ⟨_, _, rfl⟩
  · exact ⟨_, _, rfl⟩
  · exact ⟨_, _, rfl⟩
  · exact ⟨_, _, rfl⟩
  · exact pairWrites_writes _ _ _ r pair
  · exact ⟨_, _, rfl⟩
  · exact ⟨_, _, rfl⟩
  · exact ⟨_, _, rfl⟩
  · exact ⟨_, _, rfl⟩

theorem patchConfig_checked {cfg : Config} {made : List Request}
    (rest : ∀ rs, rs.filterMap Request.block = [] → q.Checked good (made ++ rs)) :
    ((aicwfPatchConfig8800d80 cfg).orFail q).Checked good made := by
  have fails := orFail_fails q
  -- The writes at the end, after some reads.
  have writes : ∀ (reads : List Request) (configBase strBase startAddr : UInt32),
      reads.filterMap Request.block = [] →
      ((sendAll (patchWrites cfg configBase strBase startAddr)).bind fun err =>
        if err ≠ 0 then .done (-1) else q).Checked good (made ++ reads) := by
    intro reads configBase strBase startAddr none
    have each := patchWrites_writes cfg configBase strBase startAddr
    apply sendAll_checked
    · intro r member
      obtain ⟨a, d, rfl⟩ := each r member
      rfl
    · exact fails
    · rw [if_neg (by simp), List.append_assoc]
      apply rest
      rw [List.filterMap_append, none, List.nil_append]
      apply List.filterMap_eq_nil_iff.mpr
      intro r member
      obtain ⟨a, d, rfl⟩ := each r member
      rfl
  unfold aicwfPatchConfig8800d80 orFail
  apply readOr_checked fails
  intro configBase
  apply readOr_checked fails
  intro strBase
  apply readOr_checked fails
  intro version
  split
  · apply readOr_checked fails
    intro buffBase
    simp only [List.append_assoc, List.singleton_append]
    exact writes _ _ _ _ rfl
  · simp only [List.append_assoc, List.singleton_append]
    exact writes _ _ _ _ rfl

theorem download_checked (cfg : Config) (image : List UInt8) :
    (aicfwDownloadFw8800d80 cfg image).Checked
      (fun made => Tiles cfg.fwAddr image (made.filterMap Request.block)) [] := by
  unfold aicfwDownloadFw8800d80 Config.fwAddr
  cases mode : cfg.testmode with
  | normal =>
      dsimp only
      split
      · rename_i old
        rw [old]
        exact upload_checked fun made tiles => startApp_checked tiles
      · rename_i new
        rw [Bool.eq_false_iff.mpr new]
        apply upload_checked
        intro made tiles
        apply patchConfig_checked
        intro rs none
        apply startApp_checked
        simpa [List.filterMap_append, none] using tiles
  | test => exact upload_checked fun made tiles => startApp_checked tiles

end Prog

/-! ## The manager while one call is under way -/

/-- What a step leaves alone that does nothing for the call. -/
structure Passive (m t : CmdMgr) : Prop where
  cmds : t.cmds = m.cmds
  point : t.point = m.point
  cmd : t.cmd = m.cmd
  bufs : t.bufs = m.bufs
  confirmed : t.confirmed = m.confirmed
  state : t.state = m.state
  calls : t.calls = m.calls

/-- Every call but `n` has returned. The buffers have the size of a
    `dbg_mem_read_cfm`. -/
structure Others (n : Nat) (m : CmdMgr) : Prop where
  calls : ∀ k, k ≠ n → m.point k = none ∨ ∃ ret, m.point k = some (.returned ret)
  bufs : ∀ buf, (m.bufs buf).length = 8

/-- Every call has returned, and nothing is queued. -/
structure Idle (m : CmdMgr) : Prop where
  cmds : m.cmds = []
  calls : ∀ k, m.point k = none ∨ ∃ ret, m.point k = some (.returned ret)
  bufs : ∀ buf, (m.bufs buf).length = 8

/-- A returned call does nothing. -/
theorem act_returned {m t : CmdMgr} {k : Nat}
    (back : m.point k = none ∨ ∃ ret, m.point k = some (.returned ret)) :
    m.step (.run k) ≠ some t ∧ m.stuck k = false := by
  cases back with
  | inl none => simp [CmdMgr.step, CmdMgr.stuck, none]
  | inr returned =>
      obtain ⟨ret, at_⟩ := returned
      simp [CmdMgr.step, CmdMgr.stuck, at_, CmdMgr.act]

theorem Passive.of_drain {m : CmdMgr} (empty : m.cmds = []) : Passive m m.cmdMgrDrain where
  cmds := empty.symm
  point := rfl
  cmd := by
    funext k
    simp [CmdMgr.cmdMgrDrain, empty]
  bufs := rfl
  confirmed := rfl
  state := rfl
  calls := rfl

/-- What a step can be while `n` is the only call. -/
theorem step_cases {m t : CmdMgr} {n : Nat} {l : Label} (others : Others n m)
    (only : ∀ k ∈ m.cmds, k = n) (ok : m.Prompt l) (running : ∀ send, l ≠ .call send)
    (went : m.step l = some t) :
    Passive m t ∨
      (∃ p, l = .run n ∧ m.point n = some p ∧ m.act n p = some t) ∨
      (m.stuck n = true ∧ t = m.move n .timedOut) ∨
      ∃ param : List UInt8, n ∈ m.cmds ∧ (m.cmd n).flags.waitCfm = true ∧
        ((m.cmd n).e2aMsg ≠ none → param.length = 8) ∧
        t = m.touch.confirmCmd n (param.take rwnxCmdE2amsgLenMax) := by
  cases l with
  | call send => exact absurd rfl (running send)
  | run k =>
      by_cases same : k = n
      · subst same
        obtain ⟨p, at_, went⟩ := Option.bind_eq_some_iff.mp went
        exact .inr (.inl ⟨p, rfl, at_, went⟩)
      · exact absurd went (act_returned (others.calls k same)).1
  | timeout k =>
      by_cases same : k = n
      · subst same
        simp only [CmdMgr.step, Option.ite_none_right_eq_some] at went
        exact .inr (.inr (.inl ⟨went.1, (Option.some.inj went.2).symm⟩))
      · have idle := (act_returned (t := t) (others.calls k same)).2
        simp [CmdMgr.step, idle] at went
  | signal k => exact ok.elim
  | msgind id param =>
      obtain rfl := Option.some.inj went
      unfold CmdMgr.cmdMgrMsgind
      split
      · exact .inl ⟨rfl, rfl, rfl, rfl, rfl, rfl, rfl⟩
      · rename_i k found
        have member : k ∈ m.cmds := List.mem_of_find?_eq_some found
        have waits := List.find?_some found
        obtain rfl := only k member
        simp only [Bool.and_eq_true] at waits
        exact .inr (.inr (.inr ⟨param, member, waits.2, ok k found, rfl⟩))
  | drain =>
      obtain rfl := Option.some.inj went
      exact .inl (.of_drain ok)
  | bus up =>
      obtain rfl := Option.some.inj went
      exact .inl ⟨rfl, rfl, rfl, rfl, rfl, rfl, rfl⟩

theorem Idle.step {m t : CmdMgr} {l : Label} (h : Idle m) (ok : m.Prompt l)
    (running : ∀ send, l ≠ .call send) (went : m.step l = some t) : Idle t ∧ Passive m t := by
  have passive : Passive m t := by
    rcases step_cases (n := 0) ⟨fun k _ => h.calls k, h.bufs⟩ (by simp [h.cmds]) ok running went with
      passive | ⟨p, rfl, -, -⟩ | ⟨stuck, -⟩ | ⟨-, member, -⟩
    · exact passive
    · exact absurd went (act_returned (h.calls 0)).1
    · exact absurd stuck (by simp [(act_returned (t := t) (h.calls 0)).2])
    · simp [h.cmds] at member
  exact ⟨⟨passive.cmds.trans h.cmds, passive.point ▸ h.calls, passive.bufs ▸ h.bufs⟩, passive⟩

/-- Where a call that wants a confirmation is, and what it has got. -/
inductive Stage (m : CmdMgr) (n : Nat) (send : Send) (before : List (Nat × List UInt8)) : Prop where
  | entering (cmds : m.cmds = []) (confirmed : m.confirmed = before)
      (at_ : m.point n = some (.called send) ∨
        m.point n = some .filled ∧ (m.cmd n).e2aMsg = send.cfm ∧
          (m.cmd n).flags = ⟨false, true, false, false, false, false⟩)
  | queued (state : m.state = .inited) (cmds : m.cmds = [n]) (confirmed : m.confirmed = before)
      (at_ : m.point n = some .linked ∨ m.point n = some .waiting ∨ m.point n = some .timedOut)
      (cfm : (m.cmd n).e2aMsg = send.cfm)
      (flags : (m.cmd n).flags = ⟨false, true, false, false, true, false⟩)
      (complete : (m.cmd n).complete = 0)
  | confirmed (state : m.state = .inited) (cmds : m.cmds = []) (payload : List UInt8)
      (confirmed : m.confirmed = before ++ [(n, payload)])
      (copied : ∀ buf, send.cfm = some buf → payload.length = 8 ∧ m.bufs buf = payload)
      (at_ : (m.point n = some .linked ∨ m.point n = some .waiting) ∧ (m.cmd n).complete = 1 ∨
        m.point n = some .timedOut ∨ m.point n = some .woken ∨ m.point n = some (.returned 0))
      (flags : (m.cmd n).flags.nonblock = false ∧ (m.cmd n).flags.done = true)
  | lost (state : m.state = .crashed) (cmds : m.cmds = []) (ret : Int)
      (at_ : m.point n = some (.returned ret))

theorem Others.passive {m t : CmdMgr} {n : Nat} (h : Others n m) (p : Passive m t) : Others n t :=
  ⟨p.point ▸ h.calls, p.bufs ▸ h.bufs⟩

theorem Others.move {m t : CmdMgr} {n : Nat} (h : Others n m) {p : Point}
    (point : t.point = Function.update m.point n (some p)) (bufs : t.bufs = m.bufs) :
    Others n t where
  calls := by
    intro k other
    rw [point, Function.update_of_ne other]
    exact h.calls k other
  bufs := bufs ▸ h.bufs

section Confirm

variable (m : CmdMgr) (n : Nat)

theorem cmdComplete_cmds : (m.cmdComplete n).cmds = m.cmds.erase n := by
  unfold CmdMgr.cmdComplete
  dsimp only
  split <;> rfl

theorem cmdComplete_rest : (m.cmdComplete n).point = m.point ∧ (m.cmdComplete n).bufs = m.bufs ∧
    (m.cmdComplete n).confirmed = m.confirmed ∧ (m.cmdComplete n).state = m.state ∧
    (m.cmdComplete n).calls = m.calls := by
  unfold CmdMgr.cmdComplete
  dsimp only
  split <;> exact ⟨rfl, rfl, rfl, rfl, rfl⟩

theorem cmdComplete_cmd : (m.cmdComplete n).cmd n = (m.cmd n).finish := by
  unfold CmdMgr.cmdComplete
  dsimp only
  split <;> exact Function.update_self ..

theorem copyParam_bufs (param : List UInt8) (sized : ∀ buf, (m.bufs buf).length = 8)
    (fits : (m.cmd n).e2aMsg ≠ none → param.length = 8) :
    (∀ buf, ((m.copyParam n param).bufs buf).length = 8) ∧
      ∀ buf, (m.cmd n).e2aMsg = some buf → (m.copyParam n param).bufs buf = param := by
  unfold CmdMgr.copyParam
  cases target : (m.cmd n).e2aMsg with
  | none => exact ⟨sized, fun _ some => by cases some⟩
  | some buf =>
      have length : param.length = 8 := fits (by simp [target])
      have filled : param ≠ [] := List.length_pos_iff.mp (by omega)
      have whole : param ++ (m.bufs buf).drop param.length = param := by
        rw [List.drop_of_length_le (by rw [sized, length]), List.append_nil]
      simp only [if_neg filled, whole]
      constructor
      · intro other
        by_cases same : other = buf
        · rw [same, Function.update_self]
          exact length
        · rw [Function.update_of_ne same]
          exact sized other
      · intro other same
        obtain rfl := Option.some.inj same
        exact Function.update_self ..

end Confirm

namespace Stage

variable {m t : CmdMgr} {n : Nat} {send : Send} {before : List (Nat × List UInt8)}

theorem passive (h : Stage m n send before) (p : Passive m t) : Stage t n send before := by
  cases h with
  | entering cmds confirmed at_ =>
      apply entering (p.cmds.trans cmds) (p.confirmed.trans confirmed)
      rw [p.point, p.cmd]
      exact at_
  | queued state cmds confirmed at_ cfm flags complete =>
      apply queued (p.state.trans state) (p.cmds.trans cmds) (p.confirmed.trans confirmed)
      · rw [p.point]
        exact at_
      · rw [p.cmd]
        exact cfm
      · rw [p.cmd]
        exact flags
      · rw [p.cmd]
        exact complete
  | confirmed state cmds payload confirmed copied at_ flags =>
      apply Stage.confirmed (p.state.trans state) (p.cmds.trans cmds) payload
        (p.confirmed.trans confirmed)
      · rw [p.bufs]
        exact copied
      · rw [p.point, p.cmd]
        exact at_
      · rw [p.cmd]
        exact flags
  | lost state cmds ret at_ =>
      apply lost (p.state.trans state) (p.cmds.trans cmds) ret
      rw [p.point]
      exact at_

theorem only (h : Stage m n send before) : ∀ k ∈ m.cmds, k = n := by
  intro k member
  cases h with
  | entering cmds => simp [cmds] at member
  | queued state cmds => simpa [cmds] using member
  | confirmed state cmds => simp [cmds] at member
  | lost state cmds => simp [cmds] at member

/-- A confirmation that finds the command. -/
theorem confirm (h : Stage m n send before) (others : Others n m) {param : List UInt8}
    (member : n ∈ m.cmds) (fits : (m.cmd n).e2aMsg ≠ none → param.length = 8) :
    Stage (m.confirmCmd n param) n send before ∧ Others n (m.confirmCmd n param) := by
  cases h with
  | entering cmds => simp [cmds] at member
  | confirmed state cmds => simp [cmds] at member
  | lost state cmds => simp [cmds] at member
  | queued state cmds confirmed at_ cfm flags complete =>
      have stopped : ((m.modify n RwnxCmd.stopWaiting).cmd n).flags =
          ⟨false, true, false, false, false, false⟩ := by
        simp only [CmdMgr.modify_cmd, RwnxCmd.stopWaiting, flags]
      have finished : (m.cmd n).stopWaiting.finish.complete = 1 ∧
          (m.cmd n).stopWaiting.finish.flags = ⟨false, true, false, false, false, true⟩ := by
        simp [RwnxCmd.finish, RwnxCmd.stopWaiting, CmdFlags.waitComplete, flags, complete]
      obtain ⟨sized, copied⟩ := copyParam_bufs (m.modify n RwnxCmd.stopWaiting) n param others.bufs
        (by simpa [RwnxCmd.stopWaiting] using fits)
      obtain ⟨bufs, overrun, copies, same, -⟩ :=
        Sound.copyParam_eq (m.modify n RwnxCmd.stopWaiting) n param
      rw [same] at sized copied
      have ends : ((m.modify n RwnxCmd.stopWaiting).cmd n).flags.waitComplete = true := by
        rw [stopped]
        rfl
      have run : m.confirmCmd n param =
          ({ m.modify n RwnxCmd.stopWaiting with
            bufs, overrun, copies
            confirmed := m.confirmed ++ [(n, param)] } : CmdMgr).cmdComplete n := by
        unfold CmdMgr.confirmCmd
        dsimp only
        rw [same, if_pos ends]
        rfl
      rw [run]
      generalize eq : ({ m.modify n RwnxCmd.stopWaiting with
            bufs, overrun, copies
            confirmed := m.confirmed ++ [(n, param)] } : CmdMgr) = w
      obtain ⟨point, kept, log, alive, -⟩ := cmdComplete_rest w n
      have cmd : (w.cmdComplete n).cmd n = (m.cmd n).stopWaiting.finish := by
        rw [cmdComplete_cmd, ← eq]
        exact congrArg RwnxCmd.finish (m.modify_cmd n RwnxCmd.stopWaiting)
      constructor
      · apply Stage.confirmed
        · rw [alive, ← eq]
          exact state
        · rw [cmdComplete_cmds, ← eq]
          simp [CmdMgr.modify, cmds]
        · rw [log, ← eq, confirmed]
        · intro buf wants
          rw [kept, ← eq]
          have target : (m.cmd n).e2aMsg = some buf := cfm.trans wants
          exact ⟨fits (by simp [target]), copied buf (by simpa [RwnxCmd.stopWaiting] using target)⟩
        · rw [point, cmd, ← eq]
          rcases at_ with at_ | at_ | at_
          · exact .inl ⟨.inl at_, finished.1⟩
          · exact .inl ⟨.inr at_, finished.1⟩
          · exact .inr (.inl at_)
        · rw [cmd, finished.2]
          exact ⟨rfl, rfl⟩
      · constructor
        · rw [point, ← eq]
          exact others.calls
        · rw [kept, ← eq]
          exact sized

/-- The wait of the call is timed out. -/
theorem timeout (h : Stage m n send before) (stuck : m.stuck n = true) :
    Stage (m.move n .timedOut) n send before := by
  simp only [CmdMgr.stuck, Bool.and_eq_true, beq_iff_eq] at stuck
  obtain ⟨waits, zero⟩ := stuck
  cases h with
  | entering cmds confirmed at_ => simp [waits] at at_
  | queued state cmds confirmed at_ cfm flags complete =>
      exact .queued state cmds confirmed (.inr (.inr (m.move_point n .timedOut))) cfm flags complete
  | confirmed state cmds payload confirmed copied at_ flags => simp [waits, zero] at at_
  | lost state cmds ret at_ => simp [waits] at at_

/-- An action of the call. -/
theorem act (h : Stage m n send before) (wants : send.reqcfm = true) {p : Point}
    (up : ∀ send', p = .called send' → m.busUp = true) (here : m.point n = some p)
    (went : m.act n p = some t) : Stage t n send before := by
  cases h with
  | entering cmds confirmed at_ =>
      rcases at_ with at_ | ⟨at_, cfm, flags⟩
      · obtain rfl := Option.some.inj (here.symm.trans at_)
        obtain rfl := Option.some.inj went
        have sent : m.rwnxSendMsg n send = (m.kzallocCmd n send).move n .filled := by
          simp only [CmdMgr.rwnxSendMsg, up send rfl, wants, if_true]
        rw [sent]
        apply entering
        · exact cmds
        · exact confirmed
        · right
          refine ⟨CmdMgr.move_point _ n .filled, ?_⟩
          simp [CmdMgr.move, CmdMgr.kzallocCmd, wants]
      · obtain rfl := Option.some.inj (here.symm.trans at_)
        obtain rfl := Option.some.inj went
        unfold CmdMgr.cmdMgrQueue
        split
        · rename_i crashed
          exact lost crashed cmds _ (CmdMgr.move_point _ n _)
        · rename_i alive
          have inited : m.state = .inited := by
            cases state : m.state with
            | inited => rfl
            | crashed => exact absurd state alive
          have now : m.defers = false := by simp [CmdMgr.defers, cmds]
          rw [if_neg (by simp [cmds]), now, if_neg Bool.false_ne_true]
          apply queued
          · exact inited
          · simp [CmdMgr.move, CmdMgr.linkCmd, cmds]
          · exact confirmed
          · exact .inl (CmdMgr.move_point _ n .linked)
          · simpa [CmdMgr.move, CmdMgr.linkCmd, CmdMgr.modify, CmdMgr.touch] using cfm
          · simp [CmdMgr.move, CmdMgr.linkCmd, CmdMgr.modify, CmdMgr.touch, flags, now]
          · simp [CmdMgr.move, CmdMgr.linkCmd, CmdMgr.modify, CmdMgr.touch, flags]
  | queued state cmds confirmed at_ cfm flags complete =>
      rcases at_ with at_ | at_ | at_
      · obtain rfl := Option.some.inj (here.symm.trans at_)
        obtain rfl := Option.some.inj went
        have pushed : m.push n = ((m.aicwfSetCmdTx (m.cmd n).a2eMsg).rwnxMsgFree
            (m.cmd n).a2eMsg).move n .waiting := by
          simp [CmdMgr.push, CmdMgr.aicwfSetCmdTx, CmdMgr.rwnxMsgFree, flags]
        rw [pushed]
        exact queued state cmds confirmed (.inr (.inl (CmdMgr.move_point _ n .waiting))) cfm flags complete
      · obtain rfl := Option.some.inj (here.symm.trans at_)
        simp [CmdMgr.act, complete] at went
      · obtain rfl := Option.some.inj (here.symm.trans at_)
        obtain rfl := Option.some.inj went
        have now : ({ m with state := .crashed } : CmdMgr).cmds = [n] := cmds
        generalize eq : ({ m with state := .crashed } : CmdMgr) = w at now
        have pending : (w.cmd n).flags.done = false := by
          rw [← eq]
          simp [flags]
        have crashed : w.state = .crashed := eq ▸ rfl
        have ends : m.giveUp n = ((w.modify n fun c =>
            { c with result := -etimedout }).cmdComplete n).move n (.returned 0) := by
          unfold CmdMgr.giveUp
          rw [eq]
          dsimp only
          rw [if_neg (by simp [pending])]
        rw [ends]
        apply lost
        · exact (cmdComplete_rest _ n).2.2.2.1.trans crashed
        · refine (cmdComplete_cmds _ n).trans ?_
          simp [CmdMgr.modify, now]
        · exact CmdMgr.move_point _ n (.returned 0)
  | confirmed state cmds payload confirmed copied at_ flags =>
      rcases at_ with ⟨at_ | at_, complete⟩ | at_ | at_ | at_
      · obtain rfl := Option.some.inj (here.symm.trans at_)
        obtain rfl := Option.some.inj went
        have pushed : m.push n = ((m.aicwfSetCmdTx (m.cmd n).a2eMsg).rwnxMsgFree
            (m.cmd n).a2eMsg).move n .waiting := by
          simp [CmdMgr.push, CmdMgr.aicwfSetCmdTx, CmdMgr.rwnxMsgFree, flags.1]
        rw [pushed]
        exact .confirmed state cmds payload confirmed copied
          (.inl ⟨.inr (CmdMgr.move_point _ n .waiting), complete⟩) flags
      · obtain rfl := Option.some.inj (here.symm.trans at_)
        simp only [CmdMgr.act, complete, one_ne_zero, if_false] at went
        obtain rfl := Option.some.inj went
        apply Stage.confirmed
        · exact state
        · exact cmds
        · exact confirmed
        · exact copied
        · exact .inr (.inr (.inl (CmdMgr.move_point _ n .woken)))
        · simpa [CmdMgr.move, CmdMgr.modify] using flags
      · obtain rfl := Option.some.inj (here.symm.trans at_)
        obtain rfl := Option.some.inj went
        have ends : m.giveUp n = ({ m with state := .crashed } : CmdMgr).move n (.returned 0) := by
          unfold CmdMgr.giveUp
          dsimp only
          rw [if_pos flags.2]
        rw [ends]
        exact lost rfl cmds 0 (CmdMgr.move_point _ n (.returned 0))
      · obtain rfl := Option.some.inj (here.symm.trans at_)
        obtain rfl := Option.some.inj went
        exact .confirmed state cmds payload confirmed copied
          (.inr (.inr (.inr (CmdMgr.move_point _ n (.returned 0))))) flags
      · obtain rfl := Option.some.inj (here.symm.trans at_)
        cases went
  | lost state cmds ret at_ =>
      obtain rfl := Option.some.inj (here.symm.trans at_)
      cases went

end Stage

/-- What an action leaves alone: the other calls, the buffers, and that no command
    has timed out before. -/
structure Keeps (n : Nat) (m t : CmdMgr) : Prop where
  point : ∃ p, t.point = Function.update m.point n (some p)
  bufs : t.bufs = m.bufs
  calls : t.calls = m.calls
  state : t.state = .inited → m.state = .inited

theorem keeps_move {m w : CmdMgr} {n : Nat} (p : Point) (point : w.point = m.point)
    (bufs : w.bufs = m.bufs) (calls : w.calls = m.calls) (state : w.state = .inited → m.state = .inited) :
    Keeps n m (w.move n p) where
  point := by
    refine ⟨p, ?_⟩
    rw [← point]
    rfl
  bufs := bufs
  calls := calls
  state := state

theorem act_keeps {m t : CmdMgr} {n : Nat} {p : Point} (went : m.act n p = some t) :
    Keeps n m t := by
  cases p with
  | called send =>
      obtain rfl := Option.some.inj went
      unfold CmdMgr.rwnxSendMsg
      split
      · dsimp only
        split
        · exact keeps_move _ rfl rfl rfl id
        · exact keeps_move _ rfl rfl rfl id
      · exact keeps_move _ rfl rfl rfl id
  | filled =>
      obtain rfl := Option.some.inj went
      unfold CmdMgr.cmdMgrQueue
      split
      · exact keeps_move _ rfl rfl rfl id
      · split
        · exact keeps_move _ rfl rfl rfl id
        · exact keeps_move _ rfl rfl rfl id
  | linked =>
      obtain rfl := Option.some.inj went
      unfold CmdMgr.push
      dsimp only
      split
      · exact keeps_move _ rfl rfl rfl id
      · exact keeps_move _ rfl rfl rfl id
  | waiting =>
      simp only [CmdMgr.act, Option.ite_none_left_eq_some] at went
      obtain rfl := Option.some.inj went.2
      exact keeps_move _ rfl rfl rfl id
  | timedOut =>
      obtain rfl := Option.some.inj went
      unfold CmdMgr.giveUp
      dsimp only
      split
      · exact keeps_move _ rfl rfl rfl fun alive => by cases alive
      · have rest := cmdComplete_rest (({ m with state := .crashed } : CmdMgr).modify n fun c =>
          { c with result := -etimedout }) n
        apply keeps_move
        · exact rest.1
        · exact rest.2.1
        · exact rest.2.2.2.2
        · intro alive
          cases rest.2.2.2.1.symm.trans alive
  | woken =>
      obtain rfl := Option.some.inj went
      exact keeps_move _ rfl rfl rfl id
  | returned ret => cases went

theorem Keeps.others {m t : CmdMgr} {n : Nat} (h : Keeps n m t) (others : Others n m) : Others n t := by
  obtain ⟨p, point⟩ := h.point
  exact others.move point h.bufs

theorem confirmCmd_keeps (m : CmdMgr) (n : Nat) (param : List UInt8) :
    (m.confirmCmd n param).calls = m.calls ∧ (m.confirmCmd n param).state = m.state := by
  obtain ⟨bufs, overrun, copies, same, -⟩ := Sound.copyParam_eq (m.modify n RwnxCmd.stopWaiting) n param
  unfold CmdMgr.confirmCmd
  dsimp only
  rw [same]
  split
  · exact ⟨(cmdComplete_rest _ n).2.2.2.2, (cmdComplete_rest _ n).2.2.2.1⟩
  · exact ⟨rfl, rfl⟩

theorem Stage.step {m t : CmdMgr} {n : Nat} {send : Send} {before : List (Nat × List UInt8)}
    {l : Label} (h : Stage m n send before) (wants : send.reqcfm = true) (others : Others n m)
    (ok : m.Prompt l) (running : ∀ send, l ≠ .call send) (went : m.step l = some t) :
    Stage t n send before ∧ Others n t ∧ t.calls = m.calls ∧ (t.state = .inited → m.state = .inited) := by
  rcases step_cases others h.only ok running went with
    passive | ⟨p, rfl, here, acted⟩ | ⟨stuck, rfl⟩ | ⟨param, member, -, fits, rfl⟩
  · exact ⟨h.passive passive, others.passive passive, passive.calls, fun alive => passive.state ▸ alive⟩
  · have keeps := act_keeps acted
    have up : ∀ send', p = .called send' → m.busUp = true := by
      intro send' same
      subst same
      simp only [CmdMgr.Prompt, here] at ok
      apply ok
      cases h with
      | entering cmds confirmed at_ =>
          rcases at_ with at_ | ⟨at_, -⟩
          · obtain rfl := Point.called.inj (Option.some.inj (here.symm.trans at_))
            exact wants
          · cases here.symm.trans at_
      | queued state cmds confirmed at_ => simp [here] at at_
      | confirmed state cmds payload confirmed copied at_ => simp [here] at at_
      | lost state cmds ret at_ => cases here.symm.trans at_
    exact ⟨h.act wants up here acted, keeps.others others, keeps.calls, keeps.state⟩
  · exact ⟨h.timeout stuck, others.move rfl rfl, rfl, id⟩
  · have touched : Passive m m.touch := ⟨rfl, rfl, rfl, rfl, rfl, rfl, rfl⟩
    have short : (m.cmd n).e2aMsg ≠ none → (param.take rwnxCmdE2amsgLenMax).length = 8 := by
      intro buffer
      rw [List.length_take, fits buffer]
      rfl
    obtain ⟨stage, rest⟩ := (h.passive touched).confirm (others.passive touched) member short
    have keeps := confirmCmd_keeps m.touch n (param.take rwnxCmdE2amsgLenMax)
    exact ⟨stage, rest, keeps.1, fun alive => keeps.2 ▸ alive⟩

/-- The start request is sent, whatever the bus does with it. -/
theorem start_step {m t : CmdMgr} {n : Nat} {send : Send} {l : Label} (empty : m.cmds = [])
    (at_ : m.point n = some (.called send) ∨ m.point n = some (.returned 0))
    (plain : send.reqcfm = false) (others : Others n m) (ok : m.Prompt l)
    (running : ∀ send, l ≠ .call send) (went : m.step l = some t) :
    t.cmds = [] ∧ (t.point n = some (.called send) ∨ t.point n = some (.returned 0)) ∧ Others n t ∧
      t.calls = m.calls ∧ t.confirmed = m.confirmed := by
  rcases step_cases others (by simp [empty]) ok running went with
    passive | ⟨p, rfl, here, acted⟩ | ⟨stuck, -⟩ | ⟨param, member, -⟩
  · exact ⟨passive.cmds.trans empty, passive.point ▸ at_, others.passive passive, passive.calls,
      passive.confirmed⟩
  · have keeps := act_keeps acted
    cases at_ with
    | inl called =>
        obtain rfl := Option.some.inj (here.symm.trans called)
        obtain rfl := Option.some.inj acted
        have sent : (m.rwnxSendMsg n send).cmds = m.cmds ∧
            (m.rwnxSendMsg n send).point n = some (.returned 0) ∧
            (m.rwnxSendMsg n send).confirmed = m.confirmed := by
          unfold CmdMgr.rwnxSendMsg
          split
          · dsimp only
            rw [if_neg (by simp [plain])]
            exact ⟨rfl, CmdMgr.move_point _ n _, rfl⟩
          · exact ⟨rfl, CmdMgr.move_point _ n _, rfl⟩
        exact ⟨sent.1.trans empty, .inr sent.2.1, keeps.others others, keeps.calls, sent.2.2⟩
    | inr returned =>
        obtain rfl := Option.some.inj (here.symm.trans returned)
        cases acted
  · simp only [CmdMgr.stuck, Bool.and_eq_true, beq_iff_eq] at stuck
    simp [stuck.1] at at_
  · simp [empty] at member

/-! ## Runs of the loader -/

/-- Requests that were answered, with the confirmation of each. -/
inductive Acked : List Request → List Reply → List (Nat × List UInt8) → Prop where
  | nil : Acked [] [] []
  | snoc {made : List Request} {replies : List Reply} {confirmed : List (Nat × List UInt8)}
      {r : Request} {reply : Reply} {payload : List UInt8} :
      Acked made replies confirmed →
      (∀ buf, r.send.cfm = some buf → payload.length = 8 ∧ reply.cfm = payload) →
      Acked (made ++ [r]) (replies ++ [reply]) (confirmed ++ [(made.length, payload)])

namespace Acked

variable {made : List Request} {replies : List Reply} {confirmed : List (Nat × List UInt8)}

theorem numbers (h : Acked made replies confirmed) :
    confirmed.map Prod.fst = List.range made.length ∧ replies.length = made.length := by
  induction h with
  | nil => exact ⟨rfl, rfl⟩
  | snoc h copied ih =>
      rw [List.map_append, ih.1, List.length_append, List.length_append, List.length_singleton,
        List.length_singleton, ih.2, List.range_succ]
      exact ⟨rfl, rfl⟩

/-- The confirmation of a request, and of a read what the program got. -/
theorem get (h : Acked made replies confirmed) {n : Nat} {r : Request} (at_ : made[n]? = some r) :
    ∃ payload, (n, payload) ∈ confirmed ∧ ∀ addr, r = .memRead addr → payload.length = 8 ∧
      ∃ reply, replies[n]? = some reply ∧ reply.cfm = payload := by
  induction h with
  | nil => simp at at_
  | @snoc made replies confirmed r' reply payload h copied ih =>
      have length := h.numbers.2
      by_cases last : n = made.length
      · subst last
        rw [List.getElem?_concat_length] at at_
        obtain rfl := Option.some.inj at_
        refine ⟨payload, by simp, fun addr read => ?_⟩
        subst read
        obtain ⟨size, same⟩ := copied 0 rfl
        exact ⟨size, reply, by rw [← length, List.getElem?_concat_length], same⟩
      · have bound := (List.getElem?_eq_some_iff.mp at_).1
        rw [List.length_append, List.length_singleton] at bound
        have before : n < made.length := by omega
        rw [List.getElem?_append_left before] at at_
        obtain ⟨payload', member, read⟩ := ih at_
        refine ⟨payload', List.mem_append_left _ member, fun addr same => ?_⟩
        obtain ⟨size, reply', found, copy⟩ := read addr same
        exact ⟨size, reply', by rw [List.getElem?_append_left (by omega), found], copy⟩

end Acked

/-- Where a run is: between two requests, in a request that wants a confirmation, in
    the start request, or at the end. -/
inductive Inv (good : List Request → Prop) (s : Load) : Prop where
  | idle (busy : s.busy = none) (mgr : Idle s.mgr) (calls : s.mgr.calls = s.requests.length)
      (queued : ∀ r ∈ s.requests, r.send.reqcfm = true) (checked : s.prog.Checked good s.requests)
      (acked : s.mgr.state = .inited → Acked s.requests s.replies s.mgr.confirmed)
  | waiting (made : List Request) (r : Request) (next : Reply → Prog)
      (busy : s.busy = some made.length) (prog : s.prog = .send r next)
      (requests : s.requests = made ++ [r]) (calls : s.mgr.calls = made.length + 1)
      (queued : ∀ r ∈ made, r.send.reqcfm = true) (wants : r.send.reqcfm = true)
      (checked : s.prog.Checked good made) (others : Others made.length s.mgr)
      (before : List (Nat × List UInt8)) (stage : Stage s.mgr made.length r.send before)
      (acked : s.mgr.state = .inited → Acked made s.replies before)
  | starting (made : List Request) (r : Request) (next : Reply → Prog)
      (busy : s.busy = some made.length) (prog : s.prog = .send r next)
      (requests : s.requests = made ++ [r]) (plain : r.send.reqcfm = false)
      (others : Others made.length s.mgr) (cmds : s.mgr.cmds = [])
      (at_ : s.mgr.point made.length = some (.called r.send) ∨
        s.mgr.point made.length = some (.returned 0))
      (ready : good made) (ends : ∀ a, a.ret = 0 → next a = .done 0)
      (acked : Acked made s.replies s.mgr.confirmed)
  | started (busy : s.busy = none) (prog : s.prog = .done 0) (mgr : Idle s.mgr)
      (made : List Request) (r : Request) (replies : List Reply) (reply : Reply)
      (requests : s.requests = made ++ [r]) (answered : s.replies = replies ++ [reply])
      (plain : r.send.reqcfm = false) (ready : good made)
      (acked : Acked made replies s.mgr.confirmed)
  | failed (busy : s.busy = none) (err : Int) (nonzero : err ≠ 0) (prog : s.prog = .done err)
      (mgr : Idle s.mgr) (queued : ∀ r ∈ s.requests, r.send.reqcfm = true)

theorem inv_init (cfg : Config) (image : List UInt8) (stack : Vector UInt8 8) :
    Inv (fun made => Tiles cfg.fwAddr image (made.filterMap Request.block))
      (.init cfg image stack) := by
  apply Inv.idle
  · rfl
  · exact ⟨rfl, fun _ => .inl rfl, fun _ => stack.length_toList⟩
  · rfl
  · exact fun r member => by cases member
  · exact Prog.download_checked cfg image
  · exact fun _ => .nil

namespace Inv

variable {good : List Request → Prop} {s t : Load}

theorem mgr (h : Inv good s) {l : Label} {m : CmdMgr} (ok : s.mgr.Prompt l)
    (running : ∀ send, l ≠ .call send) (went : s.mgr.step l = some m) :
    Inv good { s with mgr := m } := by
  cases h with
  | idle busy mgr calls queued checked acked =>
      obtain ⟨idle, passive⟩ := mgr.step ok running went
      refine .idle busy idle (passive.calls.trans calls) queued checked fun alive => ?_
      dsimp only
      rw [passive.confirmed]
      exact acked (passive.state ▸ alive)
  | waiting made r next busy prog requests calls queued wants checked others before stage acked =>
      obtain ⟨stage, others, count, alive⟩ := stage.step wants others ok running went
      exact .waiting made r next busy prog requests (count.trans calls) queued wants checked others before
        stage fun state => acked (alive state)
  | starting made r next busy prog requests plain others cmds at_ ready ends acked =>
      obtain ⟨cmds, at_, others, -, confirmed⟩ := start_step cmds at_ plain others ok running went
      exact .starting made r next busy prog requests plain others cmds at_ ready ends (confirmed ▸ acked)
  | started busy prog mgr made r replies reply requests answered plain ready acked =>
      obtain ⟨idle, passive⟩ := mgr.step ok running went
      exact .started busy prog idle made r replies reply requests answered plain ready
        (passive.confirmed ▸ acked)
  | failed busy err nonzero prog mgr queued =>
      exact .failed busy err nonzero prog (mgr.step ok running went).1 queued

/-- The manager, when the call of a request has begun. -/
theorem startCall_others {m : CmdMgr} (h : Idle m) (send : Send) :
    Others m.calls (m.startCall send) ∧ (m.startCall send).point m.calls = some (.called send) := by
  have others : Others m.calls m := ⟨fun k _ => h.calls k, h.bufs⟩
  exact ⟨others.move rfl rfl, Function.update_self ..⟩

theorem request (h : Inv good s) {alloc : Bool} (ok : s.Guard (.request alloc))
    (went : s.step (.request alloc) = some t) : Inv good t := by
  simp only [Load.step] at went
  split at went
  · rename_i r next busy prog
    cases h with
    | idle _ mgr calls queued checked acked =>
        rw [prog, Prog.Checked] at checked
        simp only [Load.Guard, prog] at ok
        obtain ⟨fails, rest⟩ := checked
        split at went
        · obtain rfl := Option.some.inj went
          obtain ⟨others, at_⟩ := startCall_others mgr r.send
          rw [calls] at others at_
          cases wants : r.send.reqcfm with
          | true =>
              apply Inv.waiting s.requests r next
              · exact congrArg some calls
              · exact prog
              · rfl
              · exact congrArg (· + 1) calls
              · exact queued
              · exact wants
              · rw [prog, Prog.Checked]
                exact ⟨fails, rest⟩
              · exact others
              · exact .entering mgr.cmds rfl (.inl at_)
              · exact acked
          | false =>
              rw [if_neg (by simp [wants])] at rest
              apply Inv.starting s.requests r next
              · exact congrArg some calls
              · exact prog
              · rfl
              · exact wants
              · exact others
              · exact mgr.cmds
              · exact .inl at_
              · exact rest.1
              · exact rest.2
              · exact acked (ok wants)
        · obtain rfl := Option.some.inj went
          obtain ⟨err, nonzero, ends⟩ := fails ⟨-enomem, s.mgr.bufs 0⟩ (by simp [enomem])
          exact .failed busy err nonzero ends mgr queued
    | waiting made r next busy' => cases busy.symm.trans busy'
    | starting made r next busy' => cases busy.symm.trans busy'
    | started busy' prog' => cases prog.symm.trans prog'
    | failed busy' err nonzero prog' => cases prog.symm.trans prog'
  · cases went

/-- The manager, when the call under way has returned. -/
theorem idle_of_returned {m : CmdMgr} {n : Nat} {ret : Int} (others : Others n m)
    (cmds : m.cmds = []) (at_ : m.point n = some (.returned ret)) : Idle m where
  cmds := cmds
  calls := by
    intro k
    by_cases same : k = n
    · exact .inr ⟨ret, same ▸ at_⟩
    · exact others.calls k same
  bufs := others.bufs

theorem resume (h : Inv good s) (went : s.step .resume = some t) : Inv good t := by
  simp only [Load.step] at went
  split at went
  · rename_i n r next busy prog
    split at went
    · rename_i ret at_
      obtain rfl := Option.some.inj went
      cases h with
      | idle busy' => cases busy.symm.trans busy'
      | started busy' => cases busy.symm.trans busy'
      | failed busy' => cases busy.symm.trans busy'
      | waiting made r' next' busy' prog' requests calls queued wants checked others before stage acked =>
          obtain rfl := Option.some.inj (busy.symm.trans busy')
          obtain ⟨rfl, rfl⟩ := Prog.send.inj (prog.symm.trans prog')
          rw [prog, Prog.Checked] at checked
          obtain ⟨fails, rest⟩ := checked
          rw [if_pos wants] at rest
          have all : ∀ r' ∈ s.requests, r'.send.reqcfm = true := by
            rw [requests]
            intro r' member
            cases List.mem_append.mp member with
            | inl old => exact queued r' old
            | inr new =>
                obtain rfl := List.mem_singleton.mp new
                exact wants
          have count : s.mgr.calls = s.requests.length := by
            rw [calls, requests, List.length_append, List.length_singleton]
          cases stage with
          | entering cmds confirmed here => simp [at_] at here
          | queued state cmds confirmed here => simp [at_] at here
          | confirmed state cmds payload confirmed copied here flags =>
              have zero : ret = 0 := by simpa [at_] using here
              subst zero
              refine .idle rfl (idle_of_returned others cmds at_) count all ?_ fun alive => ?_
              · dsimp only
                rw [requests]
                exact rest (s.mgr.bufs 0)
              · dsimp only
                rw [requests, confirmed]
                refine (acked alive).snoc fun buf same => ?_
                have only : buf = 0 := by
                  cases r with
                  | memRead addr => exact (Option.some.inj same).symm
                  | memBlockWrite addr data => cases same
                  | memWrite addr data => cases same
                  | startApp addr bootType => cases same
                subst only
                exact copied 0 same
          | lost state cmds ret' here =>
              have idle := idle_of_returned others cmds here
              by_cases zero : ret = 0
              · subst zero
                refine .idle rfl idle count all ?_ fun alive => ?_
                · dsimp only
                  rw [requests]
                  exact rest (s.mgr.bufs 0)
                · cases state.symm.trans alive
              · obtain ⟨err, nonzero, ends⟩ := fails ⟨ret, s.mgr.bufs 0⟩ zero
                exact .failed rfl err nonzero ends idle all
      | starting made r' next' busy' prog' requests plain others cmds here ready ends acked =>
          obtain rfl := Option.some.inj (busy.symm.trans busy')
          obtain ⟨rfl, rfl⟩ := Prog.send.inj (prog.symm.trans prog')
          have zero : ret = 0 := by simpa [at_] using here
          subst zero
          exact .started rfl (ends _ rfl) (idle_of_returned others cmds at_) made r s.replies _ requests rfl
            plain ready acked
    · cases went
  · cases went

theorem step (h : Inv good s) {l : LoadLabel} (ok : s.Guard l) (went : s.step l = some t) :
    Inv good t := by
  cases l with
  | request alloc => exact h.request ok went
  | resume => exact h.resume went
  | mgr l =>
      by_cases calls : ∃ send, l = .call send
      · obtain ⟨send, rfl⟩ := calls
        cases went
      · have running : ∀ send, l ≠ .call send := fun send same => calls ⟨send, same⟩
        have stepped : (s.mgr.step l).map (fun mgr => { s with mgr }) = some t := by
          cases l with
          | call send => cases went
          | run n => exact went
          | timeout n => exact went
          | signal n => exact went
          | msgind id param => exact went
          | drain => exact went
          | bus up => exact went
        obtain ⟨m, moved, rfl⟩ := Option.map_eq_some_iff.mp stepped
        exact h.mgr ok running moved

/-- What is so when the start request was made, and all before it was answered. -/
theorem loaded_of_start {cfg : Config} {image : List UInt8} {made : List Request} {r : Request}
    {replies rest : List Reply} (plain : r.send.reqcfm = false) (requests : s.requests = made ++ [r])
    (answered : s.replies = replies ++ rest)
    (ready : Tiles cfg.fwAddr image (made.filterMap Request.block))
    (acked : Acked made replies s.mgr.confirmed) : Loaded cfg image s where
  blocks := by
    have none : [r].filterMap Request.block = [] := by
      cases r with
      | startApp addr bootType => rfl
      | memBlockWrite addr data => cases plain
      | memRead addr => cases plain
      | memWrite addr data => cases plain
    rw [requests, List.filterMap_append, none, List.append_nil]
    exact ready
  acked := by
    intro n r' at_ wants
    rw [requests] at at_
    by_cases before : n < made.length
    · rw [List.getElem?_append_left before] at at_
      obtain ⟨payload, member, read⟩ := acked.get at_
      refine ⟨payload, member, fun addr same => ?_⟩
      obtain ⟨size, reply, found, copy⟩ := read addr same
      have bound : n < replies.length := by
        rw [acked.numbers.2]
        exact before
      exact ⟨size, reply, by rw [answered, List.getElem?_append_left bound, found], copy⟩
    · have bound := (List.getElem?_eq_some_iff.mp at_).1
      rw [List.length_append, List.length_singleton] at bound
      have last : n = made.length := by omega
      rw [last, List.getElem?_concat_length] at at_
      obtain rfl := Option.some.inj at_
      cases plain.symm.trans wants
  order := by
    rw [acked.numbers.1]
    exact List.pairwise_lt_range

theorem loaded {cfg : Config} {image : List UInt8}
    (h : Inv (fun made => Tiles cfg.fwAddr image (made.filterMap Request.block)) s)
    (finished : s.prog = .done 0 ∨ ∃ r ∈ s.requests, r.send.reqcfm = false) : Loaded cfg image s := by
  cases h with
  | idle busy mgr calls queued checked acked =>
      cases finished with
      | inl done =>
          rw [done] at checked
          exact absurd rfl checked
      | inr start =>
          obtain ⟨r, member, plain⟩ := start
          cases (queued r member).symm.trans plain
  | waiting made r next busy prog requests calls queued wants =>
      cases finished with
      | inl done => cases prog.symm.trans done
      | inr start =>
          obtain ⟨r', member, plain⟩ := start
          rw [requests] at member
          cases List.mem_append.mp member with
          | inl old => cases (queued r' old).symm.trans plain
          | inr new =>
              obtain rfl := List.mem_singleton.mp new
              cases wants.symm.trans plain
  | starting made r next busy prog requests plain others cmds at_ ready ends acked =>
      exact loaded_of_start plain requests (List.append_nil _).symm ready acked
  | started busy prog mgr made r replies reply requests answered plain ready acked =>
      exact loaded_of_start plain requests answered ready acked
  | failed busy err nonzero prog mgr queued =>
      cases finished with
      | inl done => exact absurd (Prog.done.inj (prog.symm.trans done)) nonzero
      | inr start =>
          obtain ⟨r, member, plain⟩ := start
          cases (queued r member).symm.trans plain

end Inv

/-- In every run whose steps meet the condition, the start of the firmware is
    requested, and success reported, only when the whole image and every read have
    been acknowledged. -/
theorem download_fail_stop (cfg : Config) (image : List UInt8) (stack : Vector UInt8 8) (s : Load)
    (run : Run.Reachable Load.step Load.Guard (.init cfg image stack) s)
    (finished : s.prog = .done 0 ∨ ∃ r ∈ s.requests, r.send.reqcfm = false) : Loaded cfg image s := by
  have inv := run.invariant (Inv fun made => Tiles cfg.fwAddr image (made.filterMap Request.block))
    (inv_init cfg image stack) fun _ _ _ h ok went => h.step ok went
  exact inv.loaded finished

def Prog.ret : Prog → Option Int
  | .done ret => some ret
  | .send _ _ => none

theorem Prog.ret_eq {p : Prog} {ret : Int} (h : p.ret = some ret) : p = .done ret := by
  cases p with
  | done ret' => exact congrArg Prog.done (Option.some.inj h)
  | send r next => cases h

/-- A request whose confirmation arrives while it waits. -/
def confirmedRun (n id : Nat) (param : List UInt8) : List LoadLabel :=
  [.request true, .mgr (.run n), .mgr (.run n), .mgr (.run n), .mgr (.msgind id param), .mgr (.run n),
    .mgr (.run n), .resume]

/-- The download to a chip after the first revision, of an image of two blocks. -/
def downloadRun : List LoadLabel :=
  confirmedRun 0 1036 [] ++ confirmedRun 1 1036 [] ++
    [2, 3, 4].flatMap (fun n => confirmedRun n 1025 [0, 0, 0x12, 0, 7, 0, 0, 0]) ++
    (List.range' 5 14).flatMap (fun n => confirmedRun n 1027 []) ++
    [.request true, .mgr (.run 19), .resume]

def sampleConfig (u01 : Bool) : Config :=
  ⟨⟨true, false, false, false, false⟩, false, u01, .normal⟩

theorem download_fail_stop_patched :
    ∃ s, s.prog = .done 0 ∧ s.requests.length = 20 ∧
      Loaded (sampleConfig false) (List.replicate 1030 7) s := by
  have facts : (Run.exec Load.step
      (.init (sampleConfig false) (List.replicate 1030 7) (.replicate 8 0)) downloadRun).map
        (fun s => (s.prog.ret, s.requests.length)) = some (some 0, 20) := by decide +kernel
  obtain ⟨s, run, ends⟩ := Option.map_eq_some_iff.mp facts
  obtain ⟨ret, length⟩ := Prod.mk.inj ends
  have done := Prog.ret_eq ret
  exact ⟨s, done, length, download_fail_stop _ _ _ s
    (Run.Reachable.exec_guarded (fun _ _ => of_decide_eq_true) _ .init run (by decide +kernel))
    (.inl done)⟩

/-- The only block of an image is never confirmed. -/
def unconfirmedRun : List LoadLabel :=
  [.request true, .mgr (.run 0), .mgr (.run 0), .mgr (.run 0), .mgr (.timeout 0), .mgr (.run 0),
    .resume, .request true, .mgr (.run 1), .resume]

/-- A chip of the first revision is started, and success reported, though its image
    was not acknowledged. -/
theorem unconfirmed_image_started :
    ∃ s, Run.Reachable Load.step Run.Free (.init (sampleConfig true) [1, 2, 3] (.replicate 8 0)) s ∧
      s.prog = .done 0 ∧ s.mgr.confirmed = [] ∧ ¬ Loaded (sampleConfig true) [1, 2, 3] s := by
  have facts : (Run.exec Load.step (.init (sampleConfig true) [1, 2, 3] (.replicate 8 0))
      unconfirmedRun).map (fun s => (s.prog.ret, s.mgr.confirmed, s.requests)) =
        some (some 0, [], [.memBlockWrite 0x100000 [1, 2, 3], .startApp 0x100000 1]) := by
    decide +kernel
  obtain ⟨s, run, ends⟩ := Option.map_eq_some_iff.mp facts
  obtain ⟨ret, rest⟩ := Prod.mk.inj ends
  obtain ⟨confirmed, requests⟩ := Prod.mk.inj rest
  refine ⟨s, Run.Reachable.exec _ .init run, Prog.ret_eq ret, confirmed, fun loaded => ?_⟩
  obtain ⟨payload, member, -⟩ := loaded.acked 0 (.memBlockWrite 0x100000 [1, 2, 3])
    (by simp [requests]) rfl
  simp [confirmed] at member

end Aic8800.Loader
