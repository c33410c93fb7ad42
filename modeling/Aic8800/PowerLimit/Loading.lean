import Aic8800.PowerLimit.Lines

/-! # The lines that the parser goes through

What a line has to be like in the state in front of it, so that the parser stays in the buffer and
in its arrays and frees what it allocated.
-/

namespace Aic8800.PowerLimit

open Lib LoadState

/-! ## Memory for the names -/

/-- These calls of `kmalloc` gave what is not freed yet. -/
structure Heap.Holds (h : Heap) (ids : List Nat) : Prop where
  live : h.live.Perm ids
  nodup : ids.Nodup
  old : ∀ id ∈ ids, id < h.calls

section Heap

variable {env : Env} {h : Heap} {ids : List Nat} {id n : Nat} {held : List (Nat × Bytes)}
  {slots : List Slot} {t rest : Bytes}

theorem Heap.Holds.nil (holds : h.Holds []) : h.live = [] := holds.live.eq_nil

theorem Heap.Holds.perm {other : List Nat} (holds : h.Holds ids) (same : ids.Perm other) :
    h.Holds other :=
  ⟨holds.live.trans same, same.nodup_iff.mp holds.nodup, fun id there =>
    holds.old id (same.mem_iff.mpr there)⟩

variable (env) in
theorem Heap.Holds.kmalloc (holds : h.Holds ids) :
    if env.kmalloc h.calls then
      h.kmalloc env = (some h.calls, ⟨h.calls + 1, h.calls :: h.live⟩) ∧
        Heap.Holds ⟨h.calls + 1, h.calls :: h.live⟩ (h.calls :: ids)
    else
      h.kmalloc env = (none, ⟨h.calls + 1, h.live⟩) ∧ Heap.Holds ⟨h.calls + 1, h.live⟩ ids := by
  unfold Heap.kmalloc
  split
  · refine ⟨rfl, holds.live.cons _, List.nodup_cons.mpr ⟨fun there => ?_, holds.nodup⟩, ?_⟩
    · exact Nat.lt_irrefl _ (holds.old _ there)
    · intro id there
      rcases List.mem_cons.mp there with rfl | there
      · exact Nat.lt_succ_self _
      · exact Nat.lt_succ_of_lt (holds.old id there)
  · exact ⟨rfl, holds.live, holds.nodup, fun id there => Nat.lt_succ_of_lt (holds.old id there)⟩

theorem Heap.Holds.kfree (holds : h.Holds (id :: ids)) :
    ∃ h', h.kfree id = some h' ∧ h'.Holds ids := by
  have there : id ∈ h.live := holds.live.mem_iff.mpr List.mem_cons_self
  refine ⟨{ h with live := h.live.erase id }, if_pos there, ?_, holds.nodup.of_cons, ?_⟩
  · have erased := holds.live.erase id
    rwa [List.erase_cons_head] at erased
  · exact fun other behind => holds.old other (List.mem_cons_of_mem _ behind)

variable (n slots) in
/-- The names that are held are freed one after the other. -/
theorem freeSlots_held (holds : h.Holds (held.map Prod.fst ++ ids)) :
    ∃ h', h'.Holds ids ∧
      freeSlots (held.length + n) (held.map Slot.ofName ++ slots) h = freeSlots n slots h' := by
  induction held generalizing h with
  | nil => exact ⟨h, holds, by rw [List.length_nil, Nat.zero_add]; rfl⟩
  | cons name held ih =>
      obtain ⟨h₁, freed, holds⟩ := holds.kfree
      obtain ⟨h₂, holds, went⟩ := ih holds
      refine ⟨h₂, holds, ?_⟩
      rw [List.length_cons, Nat.add_right_comm, List.map_cons, List.cons_append, Slot.ofName,
        freeSlots, freed]
      exact went

/-- The first name that there is no memory for is the last one. -/
def NamesFit (env : Env) (calls n : Nat) : Prop :=
  ∀ k < n, (∀ j < k, env.kmalloc (calls + j) = true) → env.kmalloc (calls + k) = false → k + 1 = n

variable (env) in
/-- As many names are held as there is memory for, up to the first that there is none for. -/
theorem loadNames_text (n : Nat) (t rest : Bytes) (holds : h.Holds ids) :
    ∃ (held : List (Nat × Bytes)) (h' : Heap), h'.Holds (held.map Prod.fst ++ ids) ∧
      ((∀ j < n, env.kmalloc (h.calls + j) = true) ∧ held.map Prod.snd = words n t ∧
          loadNames env n (t ++ 0 :: rest) h = some (held.map Slot.ofName, h', true) ∨
        ∃ m, n = held.length + 1 + m ∧ (∀ j < held.length, env.kmalloc (h.calls + j) = true) ∧
          env.kmalloc (h.calls + held.length) = false ∧
          loadNames env n (t ++ 0 :: rest) h =
            some (held.map Slot.ofName ++ .null :: List.replicate m .unset, h', false)) := by
  induction n generalizing h t ids with
  | zero => exact ⟨[], h, holds, .inl ⟨fun j less => absurd less (Nat.not_lt_zero j), rfl, rfl⟩⟩
  | succ n ih =>
      have memory := holds.kmalloc env
      rw [loadNames, Texts.skip_text (by rfl)]
      simp only
      rw [Texts.span_text (by rfl)]
      simp only
      split at memory
      · rename_i first
        obtain ⟨given, holds'⟩ := memory
        obtain ⟨held, h', holds'', went⟩ := ih ((t.dropWhile isBlank).dropWhile isWord) holds'
        refine ⟨(h.calls, (t.dropWhile isBlank).takeWhile isWord) :: held, h',
          holds''.perm List.perm_middle, ?_⟩
        have calls : ∀ k, (∀ j < k, env.kmalloc (h.calls + 1 + j) = true) →
            ∀ j < k + 1, env.kmalloc (h.calls + j) = true := by
          intro k all j less
          cases j with
          | zero => exact first
          | succ j =>
              rw [Nat.add_comm j, ← Nat.add_assoc]
              exact all j (Nat.lt_of_succ_lt_succ less)
        rw [given]
        rcases went with ⟨all, texts, loaded⟩ | ⟨m, count, all, last, loaded⟩
        · refine .inl ⟨calls n all, by rw [List.map_cons, texts, words], ?_⟩
          simp only [loaded]
          rfl
        · refine .inr ⟨m, ?_, calls _ all, ?_, ?_⟩
          · rw [List.length_cons]
            omega
          · rw [List.length_cons, Nat.add_comm held.length, ← Nat.add_assoc]
            exact last
          · simp only [loaded]
            rfl
      · rename_i none'
        obtain ⟨given, holds'⟩ := memory
        refine ⟨[], _, holds', .inr ⟨n, Nat.add_comm ..,
          fun j less => absurd less (Nat.not_lt_zero j), ?_, ?_⟩⟩
        · exact Bool.eq_false_iff.mpr none'
        · rw [given]
          rfl

/-- What is freed behind a failure is all that there is, if the failure was for the last name. -/
theorem freeSlots_failed (holds : h.Holds (held.map Prod.fst ++ ids)) (m : Nat) :
    if m = 0 then
      ∃ h', h'.Holds ids ∧ freeSlots (held.length + 1 + m)
        (held.map Slot.ofName ++ .null :: List.replicate m .unset) h = some h'
    else
      freeSlots (held.length + 1 + m)
        (held.map Slot.ofName ++ .null :: List.replicate m .unset) h = none := by
  obtain ⟨h', holds', went⟩ := freeSlots_held (1 + m) (.null :: List.replicate m .unset) holds
  rw [Nat.add_assoc, went]
  cases m with
  | zero => exact ⟨h', holds', rfl⟩
  | succ m =>
      rw [if_neg (Nat.succ_ne_zero m), Nat.add_comm 1, freeSlots]
      rfl

theorem namesFit_of_all (all : ∀ j < n, env.kmalloc (h.calls + j) = true) :
    NamesFit env h.calls n := by
  intro k inside _ fails
  cases fails.symm.trans (all k inside)

/-- The first failure is the one that is come to. -/
theorem namesFit_iff {k m : Nat} (all : ∀ j < k, env.kmalloc (h.calls + j) = true)
    (fails : env.kmalloc (h.calls + k) = false) (count : n = k + 1 + m) :
    NamesFit env h.calls n ↔ m = 0 := by
  constructor
  · intro fit
    have last := fit k (by omega) all fails
    omega
  · rintro rfl k' inside all' fails'
    rcases Nat.lt_trichotomy k' k with before | rfl | behind
    · cases fails'.symm.trans (all k' before)
    · exact count.symm
    · cases fails.symm.trans (all' k behind)

end Heap

/-! ## Lines -/

namespace LoadState

/-- Names are held where rows are read, and nowhere else. -/
def Good (s : LoadState) : Prop :=
  match s.loadingStage with
  | .chRow => ∃ (id : Nat) (held : List (Nat × Bytes)),
      s.regName = some (id, held.map Slot.ofName) ∧ held.length = s.colNum.toNat ∧
        s.heap.Holds (held.map Prod.fst ++ [id])
  | _ => s.regName = none ∧ s.heap.Holds []

/-- A line does no harm if the parser goes on well or frees everything. -/
def Outcome.Leads : Outcome → Prop
  | .next s => s.Good
  | .exit s => ∃ h, s.freeNames = some h ∧ h.live = []

/-- The parser leaves its memory at the line, or behind it. -/
def Faults : Option Outcome → Prop
  | none => True
  | some (.exit s) => s.freeNames = none
  | some (.next _) => False

/-- A line that is read fits the arrays and the memory that there is. -/
def LineFits (env : Env) (s : LoadState) (l rest : Bytes) : Prop :=
  passed l = false →
    match s.loadingStage with
    | .excMapping | .tabDefine => tagged l = true → LabelFits env l
    | .tabStart => True
    | .columnDefine => tagged l = true → env.kmalloc s.heap.calls = true →
        NamesFit env (s.heap.calls + 1) s.colNum.toNat
    | .chRow => tagged l = false → isCh l = true →
        ((l.drop 2).takeWhile isDigit).length ≤ 10 ∧
          LimitsFit env s.bandCc s.bwCc ((l.drop 2).takeWhile isDigit) rest s.colNum.toNat
            ((l.drop 2).dropWhile isDigit)

section Lines

variable {env : Env} {s : LoadState} {l rest : Bytes} {h : Heap}

theorem freeNames_none (none' : s.regName = none) (holds : s.heap.Holds []) :
    ∃ h, s.freeNames = some h ∧ h.Holds [] := by
  refine ⟨s.heap, ?_, holds⟩
  rw [freeNames, none']

theorem freeNames_held {id : Nat} {held : List (Nat × Bytes)}
    (names : s.regName = some (id, held.map Slot.ofName)) (count : held.length = s.colNum.toNat)
    (holds : s.heap.Holds (held.map Prod.fst ++ [id])) :
    ∃ h, s.freeNames = some h ∧ h.Holds [] := by
  obtain ⟨h₁, holds₁, went⟩ := freeSlots_held 0 [] holds
  obtain ⟨h₂, freed, holds₂⟩ := holds₁.kfree
  refine ⟨h₂, ?_, holds₂⟩
  rw [List.append_nil, Nat.add_zero, count] at went
  rw [freeNames, names]
  simp only [went, freeSlots, Option.bind_eq_bind, Option.bind_some, freed]

theorem Good.freeNames (good : s.Good) : ∃ h, s.freeNames = some h ∧ h.Holds [] := by
  unfold Good at good
  split at good
  · obtain ⟨id, held, names, count, holds⟩ := good
    exact freeNames_held names count holds
  · exact freeNames_none good.1 good.2

variable (env rest) in
/-- A table may be labelled here. -/
theorem tabDefine_leads (other : s.loadingStage ≠ .chRow) (none' : s.regName = none)
    (holds : s.heap.Holds []) (clean : 0 ∉ l) :
    (tagged l = true → LabelFits env l) ∧
        (∃ o, tabDefine env s (l ++ 0 :: rest) = some o ∧ o.Leads) ∨
      ¬(tagged l = true → LabelFits env l) ∧ tabDefine env s (l ++ 0 :: rest) = none := by
  have good : s.Good := by
    unfold Good
    split
    · exact absurd ‹_› other
    · exact ⟨none', holds⟩
  cases tag : tagged l with
  | false =>
      refine .inl ⟨nofun, .next s, ?_, good⟩
      rw [tabDefine, isTagged_text, tag]
      rfl
  | true =>
      rw [forall_prop_of_true rfl]
      rcases tabDefine_text env s clean tag rest with ⟨fits, went⟩ | ⟨long, went⟩
      · refine .inl ⟨fits, _, went, ?_⟩
        unfold labelOutcome
        split
        · obtain ⟨h, freed, left⟩ := good.freeNames
          exact ⟨h, freed, left.nil⟩
        · exact ⟨none', holds⟩
      · exact .inr ⟨long, went⟩

/-- The stage of a table is told with what is found there. -/
theorem tabStart_text (tag : tagged l = true) :
    tabStart s (l ++ 0 :: rest) = some (if startLabel.isPrefixOf (behindTag l) then
      .next { s with loadingStage := .columnDefine } else .exit s) := by
  rw [tabStart, isTagged_text, tag]
  simp only [Option.bind_eq_bind, Option.bind_some, Bool.not_true, Bool.false_eq_true, if_false,
    skip_behindTag tag]
  rw [Texts.startsWith_text (by decide)]
  simp only [Option.bind_some]
  split <;> rfl

theorem tabStart_leads (none' : s.regName = none) (holds : s.heap.Holds [])
    (stage : s.loadingStage = .tabStart) :
    ∃ o, tabStart s (l ++ 0 :: rest) = some o ∧ o.Leads := by
  have good : s.Good := by
    rw [Good, stage]
    exact ⟨none', holds⟩
  cases tag : tagged l with
  | false =>
      refine ⟨.next s, ?_, good⟩
      rw [tabStart, isTagged_text, tag]
      rfl
  | true =>
      refine ⟨_, tabStart_text tag, ?_⟩
      split
      · exact ⟨none', holds⟩
      · obtain ⟨h, freed, left⟩ := good.freeNames
        exact ⟨h, freed, left.nil⟩

variable (env rest) in
/-- The columns of a table are loaded, up to the first name that there is no memory for. -/
theorem columnDefine_text {ids : List Nat} (holds : s.heap.Holds ids) (tag : tagged l = true) :
    (env.kmalloc s.heap.calls = false ∧
        columnDefine env s (l ++ 0 :: rest) =
          some (.exit { s with heap := ⟨s.heap.calls + 1, s.heap.live⟩ })) ∨
      env.kmalloc s.heap.calls = true ∧ ∃ (held : List (Nat × Bytes)) (h : Heap),
        h.Holds (held.map Prod.fst ++ s.heap.calls :: ids) ∧
          ((NamesFit env (s.heap.calls + 1) s.colNum.toNat ∧
              held.map Prod.snd = words s.colNum.toNat (behindTag l) ∧
              columnDefine env s (l ++ 0 :: rest) = some (.next { s with
                loadingStage := .chRow
                regName := some (s.heap.calls, held.map Slot.ofName)
                heap := h })) ∨
            ∃ m, s.colNum.toNat = held.length + 1 + m ∧
              (NamesFit env (s.heap.calls + 1) s.colNum.toNat ↔ m = 0) ∧
              columnDefine env s (l ++ 0 :: rest) = some (.exit { s with
                regName := some (s.heap.calls,
                  held.map Slot.ofName ++ .null :: List.replicate m .unset)
                heap := h })) := by
  rw [columnDefine, isTagged_text, tag]
  simp only [Option.bind_eq_bind, Option.bind_some, Bool.not_true, Bool.false_eq_true, if_false,
    skip_behindTag tag]
  have memory := holds.kmalloc env
  split at memory
  · rename_i array
    obtain ⟨given, holds'⟩ := memory
    obtain ⟨held, h, holds'', loaded⟩ := loadNames_text env s.colNum.toNat (behindTag l) rest holds'
    refine .inr ⟨array, held, h, holds'', ?_⟩
    rcases loaded with ⟨all, texts, loaded⟩ | ⟨m, count, all, fails, loaded⟩
    · refine .inl ⟨namesFit_of_all (h := ⟨s.heap.calls + 1, _⟩) all, texts, ?_⟩
      rw [given]
      simp only [loaded]
      rfl
    · refine .inr ⟨m, count, namesFit_iff (h := ⟨s.heap.calls + 1, _⟩) all fails count, ?_⟩
      rw [given]
      simp only [loaded]
      rfl
  · rename_i poor
    refine .inl ⟨Bool.eq_false_iff.mpr poor, ?_⟩
    rw [memory.1]
    rfl

/-- What the columns of a table lead to -/
theorem columnDefine_leads (none' : s.regName = none) (holds : s.heap.Holds [])
    (stage : s.loadingStage = .columnDefine) :
    (tagged l = true → env.kmalloc s.heap.calls = true →
        NamesFit env (s.heap.calls + 1) s.colNum.toNat) ∧
        (∃ o, columnDefine env s (l ++ 0 :: rest) = some o ∧ o.Leads) ∨
      ¬(tagged l = true → env.kmalloc s.heap.calls = true →
        NamesFit env (s.heap.calls + 1) s.colNum.toNat) ∧
        Faults (columnDefine env s (l ++ 0 :: rest)) := by
  cases tag : tagged l with
  | false =>
      refine .inl ⟨nofun, .next s, ?_, ?_⟩
      · rw [columnDefine, isTagged_text, tag]
        rfl
      · rw [Outcome.Leads, Good, stage]
        exact ⟨none', holds⟩
  | true =>
      rcases columnDefine_text env rest holds tag with
        ⟨poor, went⟩ | ⟨array, held, h, holds', ⟨fit, texts, went⟩ | ⟨m, count, fit, went⟩⟩
      · refine .inl ⟨fun _ array => absurd (poor.symm.trans array) Bool.false_ne_true, _, went, ?_⟩
        exact ⟨⟨s.heap.calls + 1, s.heap.live⟩, by simp only [freeNames, none'], holds.nil⟩
      · refine .inl ⟨fun _ _ => fit, _, went, s.heap.calls, held, rfl, ?_, holds'⟩
        rw [← List.length_map Prod.snd, texts, length_words]
      · have freed := freeSlots_failed holds' m
        rw [array, went, forall_prop_of_true rfl, forall_prop_of_true rfl, fit]
        split at freed
        · rename_i last
          obtain ⟨h₁, holds₁, freed⟩ := freed
          obtain ⟨h₂, kfreed, holds₂⟩ := holds₁.kfree
          refine .inl ⟨last, _, rfl, h₂, ?_, holds₂.nil⟩
          rw [← count] at freed
          simp only [freeNames, freed, Option.bind_eq_bind, Option.bind_some, kfreed]
        · rename_i more
          refine .inr ⟨more, ?_⟩
          rw [← count] at freed
          simp only [Faults, freeNames, freed, Option.bind_eq_bind, Option.bind_none]

/-- The end of a table is told with what is found there. -/
theorem chRow_end (tag : tagged l = true) (freed : s.freeNames = some h) :
    chRow env s (l ++ 0 :: rest) = some (if endLabel.isPrefixOf (behindTag l) then
      .next { s with loadingStage := .tabDefine, heap := h, regName := none, colNum := 0 }
      else .exit s) := by
  rw [chRow, isTagged_text, tag]
  simp only [Option.bind_eq_bind, Option.bind_some, if_true, skip_behindTag tag]
  rw [Texts.startsWith_text (by decide)]
  simp only [Option.bind_some]
  split
  · rw [freed]
    rfl
  · rfl

variable (env rest) in
/-- A row is read column by column. -/
theorem chRow_row {id : Nat} {held : List (Nat × Bytes)} (clean : 0 ∉ l) (tag : tagged l = false)
    (row : isCh l = true) (names : s.regName = some (id, held.map Slot.ofName))
    (count : held.length = s.colNum.toNat) :
    let channel := (l.drop 2).takeWhile isDigit
    let t := (l.drop 2).dropWhile isDigit
    (channel.length ≤ 10 ∧ LimitsFit env s.bandCc s.bwCc channel rest s.colNum.toNat t) ∧
        (∃ o, chRow env s (l ++ 0 :: rest) = some o ∧
          rowOutcome s (addLimits s.info s.bandCc s.bwCc channel (held.map Prod.snd) t) o) ∨
      ¬(channel.length ≤ 10 ∧ LimitsFit env s.bandCc s.bwCc channel rest s.colNum.toNat t) ∧
        chRow env s (l ++ 0 :: rest) = none := by
  intro channel t
  have digits : channel.all isDigit = true := List.all_takeWhile
  have cleanBehind : 0 ∉ t := fun there =>
    clean (List.mem_of_mem_drop ((List.dropWhile_sublist _).subset there))
  rw [chRow, isTagged_text, tag]
  simp only [Option.bind_eq_bind, Option.bind_some, Bool.false_eq_true, if_false, isChannel_text,
    row, Bool.not_true, names, drop_text (length_of_isCh row), load_zeroed (p := isDigit) rfl]
  by_cases fits : channel.length ≤ 10
  · rw [if_pos fits, Option.bind_some, ← count]
    rcases loadLimits_text env s rest digits held cleanBehind with
      ⟨all, o, went, result⟩ | ⟨less, went⟩
    · exact .inl ⟨⟨fits, all⟩, o, went, result⟩
    · exact .inr ⟨fun all => less all.2, went⟩
  · rw [if_neg fits]
    exact .inr ⟨fun all => fits all.1, rfl⟩

variable (env rest) in
theorem chRow_leads (good : s.Good) (stage : s.loadingStage = .chRow) (clean : 0 ∉ l)
    (some' : l ≠ []) :
    (tagged l = false → isCh l = true →
        ((l.drop 2).takeWhile isDigit).length ≤ 10 ∧
          LimitsFit env s.bandCc s.bwCc ((l.drop 2).takeWhile isDigit) rest s.colNum.toNat
            ((l.drop 2).dropWhile isDigit)) ∧
        (∃ o, chRow env s (l ++ 0 :: rest) = some o ∧ o.Leads) ∨
      ¬(tagged l = false → isCh l = true →
        ((l.drop 2).takeWhile isDigit).length ≤ 10 ∧
          LimitsFit env s.bandCc s.bwCc ((l.drop 2).takeWhile isDigit) rest s.colNum.toNat
            ((l.drop 2).dropWhile isDigit)) ∧
        chRow env s (l ++ 0 :: rest) = none := by
  obtain ⟨h, freed, left⟩ := good.freeNames
  cases tag : tagged l with
  | true =>
      refine .inl ⟨nofun, _, chRow_end tag freed, ?_⟩
      split
      · exact ⟨rfl, left⟩
      · exact ⟨h, freed, left.nil⟩
  | false =>
      cases row : isCh l with
      | false =>
          refine .inl ⟨fun _ => nofun, .next s, ?_, good⟩
          rw [chRow, isTagged_text, tag]
          simp only [Option.bind_eq_bind, Option.bind_some, Bool.false_eq_true, if_false,
            isChannel_text, row, Bool.not_false, if_true]
          obtain ⟨c, l, rfl⟩ := List.exists_cons_of_ne_nil some'
          cases env.logError <;> cases l <;> rfl
      | true =>
          have held := good
          rw [Good, stage] at held
          obtain ⟨id, held, names, count, holds⟩ := held
          rcases chRow_row env rest clean tag row names count with
            ⟨fits, o, went, result⟩ | ⟨long, went⟩
          · refine .inl ⟨fun _ _ => fits, o, went, ?_⟩
            revert result
            generalize addLimits s.info s.bandCc s.bwCc _ _ _ = made
            intro result
            cases made with
            | some info =>
                cases o with
                | next s' =>
                    obtain rfl := result
                    exact good
                | exit => cases result
            | none =>
                cases o with
                | next => cases result
                | exit s' =>
                    obtain ⟨info, rfl, -⟩ := result
                    exact ⟨h, freed, left.nil⟩
          · exact .inr ⟨fun fits => long (fits rfl rfl), went⟩

variable (rest) in
theorem hasHash_text (some' : l ≠ []) :
    ∃ found, hasHash (l ++ 0 :: rest) = some found ∧ (tagged l = true → found = true) := by
  obtain ⟨c, l, rfl⟩ := List.exists_cons_of_ne_nil some'
  unfold hasHash
  by_cases first : c = hash
  · subst first
    exact ⟨true, rfl, fun _ => rfl⟩
  · have other : tagged (c :: l) ≠ true := by
      intro tag
      exact first (List.cons_prefix_cons.mp (List.isPrefixOf_iff_prefix.mp tag)).1.symm
    simp only [List.cons_append, List.getElem?_cons_zero, Option.bind_eq_bind, Option.bind_some,
      first, if_false]
    cases l with
    | nil => exact ⟨_, rfl, fun tag => absurd tag other⟩
    | cons c' l => exact ⟨_, rfl, fun tag => absurd tag other⟩

variable (env rest) in
theorem step_passed (clean : 0 ∉ l) (skips : passed l = true) :
    s.step env (l ++ 0 :: rest) = some (.next s) := by
  rw [step, isAllSpaceOrTab_text clean, isCommentString_text]
  simp only [Option.bind_eq_bind, Option.bind_some]
  rcases Bool.or_eq_true_iff.mp skips with blank | comment
  · rw [if_pos blank]
    rfl
  · rw [if_pos comment]
    split <;> rfl

variable (env s rest) in
/-- Any other line is read by the stage. -/
theorem step_read (clean : 0 ∉ l) (reads : passed l = false) :
    s.step env (l ++ 0 :: rest) =
      match s.loadingStage with
      | .excMapping => (hasHash (l ++ 0 :: rest)).bind fun found =>
          if found then tabDefine env { s with loadingStage := .tabDefine } (l ++ 0 :: rest)
          else some (.next s)
      | .tabDefine => tabDefine env s (l ++ 0 :: rest)
      | .tabStart => tabStart s (l ++ 0 :: rest)
      | .columnDefine => columnDefine env s (l ++ 0 :: rest)
      | .chRow => chRow env s (l ++ 0 :: rest) := by
  obtain ⟨blank, comment⟩ := Bool.or_eq_false_iff.mp reads
  rw [step, isAllSpaceOrTab_text clean, isCommentString_text, blank, comment]
  rfl

variable (env rest) in
/-- A line that fits leads on, and any other one to a fault. -/
theorem step_text (good : s.Good) (clean : 0 ∉ l) :
    LineFits env s l rest ∧ (∃ o, s.step env (l ++ 0 :: rest) = some o ∧ o.Leads) ∨
      ¬LineFits env s l rest ∧ Faults (s.step env (l ++ 0 :: rest)) := by
  unfold LineFits
  cases skips : passed l with
  | true => exact .inl ⟨nofun, .next s, step_passed env rest clean skips, good⟩
  | false =>
      have some' : l ≠ [] := by
        rintro rfl
        cases skips
      rw [forall_prop_of_true rfl, step_read env s rest clean skips]
      have held := good
      unfold Good at held
      cases stage : s.loadingStage with
      | excMapping =>
          rw [stage] at held
          obtain ⟨found, read, hashed⟩ := hasHash_text rest some'
          simp only [read, Option.bind_some]
          cases found with
          | false =>
              exact .inl ⟨fun tag => absurd (hashed tag) Bool.false_ne_true, .next s, rfl, good⟩
          | true =>
              rcases tabDefine_leads env rest (s := { s with loadingStage := .tabDefine }) nofun
                held.1 held.2 clean with fit | ⟨long, went⟩
              · exact .inl fit
              · refine .inr ⟨long, ?_⟩
                rw [if_pos rfl, went]
                trivial
      | tabDefine =>
          rw [stage] at held
          rcases tabDefine_leads env rest (by rw [stage]; nofun) held.1 held.2
            clean with fit | ⟨long, went⟩
          · exact .inl fit
          · refine .inr ⟨long, ?_⟩
            simp only [went]
            trivial
      | tabStart =>
          rw [stage] at held
          exact .inl ⟨trivial, tabStart_leads held.1 held.2 stage⟩
      | columnDefine =>
          rw [stage] at held
          exact columnDefine_leads held.1 held.2 stage
      | chRow =>
          rcases chRow_leads env rest good stage clean some' with
            fit | ⟨long, went⟩
          · exact .inl fit
          · refine .inr ⟨long, ?_⟩
            simp only [went]
            trivial

end Lines

/-- Every line that is come to is ended, and fits in the state in front of it. -/
inductive TextFits (env : Env) : LoadState → Bytes → Prop where
  | last {s : LoadState} {l rest : Bytes} : Texts.Plain newline 0 l → LineFits env s l rest →
      TextFits env s (l ++ 0 :: rest)
  | exit {s s' : LoadState} {l rest : Bytes} : Texts.Plain newline 0 l → LineFits env s l rest →
      s.step env (l ++ 0 :: rest) = some (.exit s') → TextFits env s (l ++ newline :: rest)
  | next {s s' : LoadState} {l rest : Bytes} : Texts.Plain newline 0 l → LineFits env s l rest →
      s.step env (l ++ 0 :: rest) = some (.next s') → TextFits env s' rest →
      TextFits env s (l ++ newline :: rest)

/-- The text is parsed to its end: the parser goes on behind every line. -/
inductive TextEnds (env : Env) : LoadState → Bytes → Prop where
  | last {s s' : LoadState} {l rest : Bytes} : Texts.Plain newline 0 l →
      s.step env (l ++ 0 :: rest) = some (.next s') → TextEnds env s (l ++ 0 :: rest)
  | next {s s' : LoadState} {l rest : Bytes} : Texts.Plain newline 0 l →
      s.step env (l ++ 0 :: rest) = some (.next s') → TextEnds env s' rest →
      TextEnds env s (l ++ newline :: rest)

end LoadState

/-! ## Texts -/

section Texts

variable {env : Env} {s : LoadState} {l rest : Bytes}

/-- `flags |= POWER_LIMIT_CC_MATCHED_BIT`, behind the last line -/
def LoadState.matched (s : LoadState) : LoadState :=
  { s with info := { s.info with ccMatched := true } }

theorem parseLines_last (plain : Texts.Plain newline 0 l) (rest : Bytes) :
    parseLines env s (l ++ 0 :: rest) =
      match s.step env (l ++ 0 :: rest) with
      | none => none
      | some (.exit s) => some s
      | some (.next s) => some s.matched := by
  have line := Texts.strsep_zero (by decide) plain rest
  rw [parseLines]
  split
  · rename_i none'
    cases line.symm.trans none'
  · rename_i szLine ptmp' found
    cases line.symm.trans found
    cases s.step env (l ++ 0 :: rest) with
    | none => rfl
    | some o => cases o <;> rfl

theorem parseLines_next (plain : Texts.Plain newline 0 l) (rest : Bytes) :
    parseLines env s (l ++ newline :: rest) =
      match s.step env (l ++ 0 :: rest) with
      | none => none
      | some (.exit s) => some s
      | some (.next s) => parseLines env s rest := by
  have line := Texts.strsep_sep plain rest
  rw [parseLines]
  split
  · rename_i none'
    cases line.symm.trans none'
  · rename_i szLine ptmp' found
    cases line.symm.trans found
    cases s.step env (l ++ 0 :: rest) with
    | none => rfl
    | some o => cases o <;> rfl

theorem parseLines_unended (none' : Texts.strsep newline 0 l = none) :
    parseLines env s l = none := by
  rw [parseLines]
  split
  · rfl
  · rename_i found
    cases none'.symm.trans found

theorem textFits_last (plain : Texts.Plain newline 0 l) :
    TextFits env s (l ++ 0 :: rest) ↔ LineFits env s l rest := by
  refine ⟨fun fits => ?_, .last plain⟩
  generalize same : l ++ 0 :: rest = text at fits
  cases fits with
  | last plain' fits =>
      obtain ⟨rfl, -, rfl⟩ := plain.unique plain' (.inr rfl) (.inr rfl) same
      exact fits
  | exit plain' | next plain' =>
      obtain ⟨-, other, -⟩ := plain.unique plain' (.inr rfl) (.inl rfl) same
      cases other

theorem textFits_next (plain : Texts.Plain newline 0 l) :
    TextFits env s (l ++ newline :: rest) ↔ LineFits env s l rest ∧
      ((∃ s', s.step env (l ++ 0 :: rest) = some (.exit s')) ∨
        ∃ s', s.step env (l ++ 0 :: rest) = some (.next s') ∧ TextFits env s' rest) := by
  constructor
  · intro fits
    generalize same : l ++ newline :: rest = text at fits
    cases fits with
    | last plain' =>
        obtain ⟨-, other, -⟩ := plain.unique plain' (.inl rfl) (.inr rfl) same
        cases other
    | exit plain' fits went =>
        obtain ⟨rfl, -, rfl⟩ := plain.unique plain' (.inl rfl) (.inl rfl) same
        exact ⟨fits, .inl ⟨_, went⟩⟩
    | next plain' fits went behind =>
        obtain ⟨rfl, -, rfl⟩ := plain.unique plain' (.inl rfl) (.inl rfl) same
        exact ⟨fits, .inr ⟨_, went, behind⟩⟩
  · rintro ⟨fits, ⟨s', went⟩ | ⟨s', went, behind⟩⟩
    · exact .exit plain fits went
    · exact .next plain fits went behind

theorem textEnds_last (plain : Texts.Plain newline 0 l) (ends : TextEnds env s (l ++ 0 :: rest)) :
    ∃ s', s.step env (l ++ 0 :: rest) = some (.next s') := by
  generalize same : l ++ 0 :: rest = text at ends
  cases ends with
  | last plain' went =>
      obtain ⟨rfl, -, rfl⟩ := plain.unique plain' (.inr rfl) (.inr rfl) same
      exact ⟨_, went⟩
  | next plain' =>
      obtain ⟨-, other, -⟩ := plain.unique plain' (.inr rfl) (.inl rfl) same
      cases other

theorem textEnds_next (plain : Texts.Plain newline 0 l)
    (ends : TextEnds env s (l ++ newline :: rest)) :
    ∃ s', s.step env (l ++ 0 :: rest) = some (.next s') ∧ TextEnds env s' rest := by
  generalize same : l ++ newline :: rest = text at ends
  cases ends with
  | last plain' =>
      obtain ⟨-, other, -⟩ := plain.unique plain' (.inl rfl) (.inr rfl) same
      cases other
  | next plain' went behind =>
      obtain ⟨rfl, -, rfl⟩ := plain.unique plain' (.inl rfl) (.inl rfl) same
      exact ⟨_, went, behind⟩

theorem strays_of_faults {o : Option Outcome} {next : LoadState → Option LoadState}
    (faults : Faults o) :
    (match o with
      | none => none
      | some (.exit s) => some s
      | some (.next s) => next s).bind LoadState.freeNames = none := by
  match o, faults with
  | none, _ => rfl
  | some (.exit s), stuck => exact stuck

variable (env) in
/-- A text that fits is read with everything freed, and any other is read on behind its end. -/
theorem parseLines_text (good : s.Good) (text : Bytes) :
    TextFits env s text ∧ (∃ s' h, parseLines env s text = some s' ∧ s'.freeNames = some h ∧
        h.live = []) ∨
      ¬TextFits env s text ∧ (parseLines env s text).bind LoadState.freeNames = none := by
  induction size : text.length using Nat.strong_induction_on generalizing s text with
  | _ n ih =>
      cases line : Texts.strsep newline 0 text with
      | none =>
          refine .inr ⟨fun fits => ?_, by rw [parseLines_unended line]; rfl⟩
          cases fits with
          | last plain => cases line.symm.trans (Texts.strsep_zero (by decide) plain _)
          | exit plain | next plain => cases line.symm.trans (Texts.strsep_sep plain _)
      | some found =>
          obtain ⟨l, rest, plain, -, ⟨rfl, -⟩ | ⟨rfl, -⟩⟩ := Texts.strsep_eq_some line
          · rw [textFits_next plain, parseLines_next plain]
            rcases step_text env rest good plain.not_mem with
              ⟨fits, o, went, leads⟩ | ⟨long, faults⟩
            · rw [went]
              cases o with
              | exit s' =>
                  obtain ⟨h, freed, left⟩ := leads
                  exact .inl ⟨⟨fits, .inl ⟨s', rfl⟩⟩, s', h, rfl, freed, left⟩
              | next s' =>
                  have shorter : rest.length < n := by
                    rw [← size, List.length_append, List.length_cons]
                    omega
                  rcases ih _ shorter (s := s') leads rest rfl with ⟨behind, ends⟩ | ⟨more, strays⟩
                  · exact .inl ⟨⟨fits, .inr ⟨s', rfl, behind⟩⟩, ends⟩
                  · refine .inr ⟨?_, strays⟩
                    rintro ⟨-, ⟨_, left⟩ | ⟨_, same, behind⟩⟩
                    · cases left
                    · cases same
                      exact more behind
            · exact .inr ⟨fun fits => long fits.1, strays_of_faults faults⟩
          · rw [textFits_last plain, parseLines_last plain]
            rcases step_text env rest good plain.not_mem with
              ⟨fits, o, went, leads⟩ | ⟨long, faults⟩
            · rw [went]
              cases o with
              | exit s' =>
                  obtain ⟨h, freed, left⟩ := leads
                  exact .inl ⟨fits, s', h, rfl, freed, left⟩
              | next s' =>
                  obtain ⟨h, freed, left⟩ := Good.freeNames leads
                  exact .inl ⟨fits, s'.matched, h, rfl, freed, left.nil⟩
            · exact .inr ⟨long, strays_of_faults faults⟩

end Texts

end Aic8800.PowerLimit
