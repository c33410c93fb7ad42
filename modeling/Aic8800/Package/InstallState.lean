import Aic8800.Lib.Run
import Aic8800.Package.Agreement
import Mathlib.Data.List.Lex

/-! # The installation record

`begin_install` and `finish_install` keep a record of what is installed in
`install.json`. The file outlives the calls, and any of them can fail or be killed
before or after `os.replace` puts a new record in its place.
-/

namespace Aic8800.Package

open Lib

inductive Status where
  | pending
  | installed
  deriving DecidableEq

/-- A record of `install.json`. -/
structure State where
  record : Record
  status : Status
  deriving DecidableEq

namespace State

def fields : List Str :=
  ["schema_version".toList, "build".toList, "payload_sha256".toList, "files".toList,
    "status".toList]

def statusText : Status → Str
  | .pending => "pending".toList
  | .installed => "installed".toList

def toJson (s : State) : Json :=
  .obj
    [("build".toList, s.record.build.toJson),
      ("files".toList, .obj (s.record.files.map fun entry => (entry.1, .str entry.2))),
      ("payload_sha256".toList, .str s.record.payloadSha256), ("schema_version".toList, .int 1),
      ("status".toList, .str (statusText s.status))]

end State

/-- `value == 1`, where a `float` is compared by `floatIsOne`. -/
def isOne (floatIsOne : Str → Bool) : Json → Bool
  | .int n => n == 1
  | .bool b => b
  | .float text => floatIsOne text
  | _ => false

def readStatus (v : Json) : Option Status :=
  if v = .str "pending".toList then some .pending
  else if v = .str "installed".toList then some .installed
  else none

/-- The check of one item of the recorded `files`. -/
def readInstalled (entry : Str × Json) : Option (Str × Str) :=
  match entry.2 with
  | .str sha => if isNormal entry.1 && isSha256 sha then some (entry.1, sha) else none
  | _ => none

def readFiles (v : Json) : Option (List (Str × Str)) :=
  match v with
  | .obj entries => if entries.isEmpty then none else entries.mapM readInstalled
  | _ => none

/-- The checks of `read_state` on the value of the file. -/
def readValue (floatIsOne : Str → Bool) (v : Json) : Option State :=
  if v.hasFields State.fields && (v.get "schema_version".toList).any (isOne floatIsOne) then
    ((v.get "status".toList).bind readStatus).bind fun status =>
      (v.getStr "payload_sha256".toList).bind fun payloadSha256 =>
        ((v.get "files".toList).bind readFiles).bind fun files =>
          ((v.get "build".toList).bind validateBuild).bind fun build =>
            if isSha256 payloadSha256 then some ⟨{ build, payloadSha256, files }, status⟩ else none
  else none

/-- `install.json`: absent, not to be read, or the value in it. -/
inductive StateFile where
  | absent
  | unreadable
  | holds (v : Json)

/-- `read_state`: the record, if there is a file. -/
def readState (floatIsOne : Str → Bool) : StateFile → Option (Option State)
  | .absent => some none
  | .unreadable => none
  | .holds v => (readValue floatIsOne v).map some

/-- What a call finds in the target system. -/
structure System where
  /-- `read_file` of a `system_path` -/
  readFile : Str → Option Bytes
  /-- The names of all that lies below the directory of the kernel's modules. -/
  moduleFiles : Option (List Str)

/-- `name.split(".ko", 1)[0]` of a name with `.ko` in it. -/
def beforeKo : Str → Option Str
  | [] => none
  | c :: rest =>
      if ".ko".toList.isPrefixOf (c :: rest) then some [] else (beforeKo rest).map (c :: ·)

def isDriver (name : Str) : Bool :=
  match beforeKo name with
  | some stem => stem == "aic8800_fdrv".toList || stem == "aic_load_fw".toList
  | none => false

/-- Whether `installed_matches` returns. -/
def installedMatches (lib : Library) (system : System) (record : Record) : Bool :=
  record.files.all fun entry => (system.readFile entry.1).map lib.digest == some entry.2

/-- `after["version"]` or `after["build_number"]` is older. -/
def isOlder (after before : Build) : Bool :=
  decide (after.buildNumber < before.buildNumber) ||
    decide (versionKey after.version < versionKey before.version)

/-- The checks of `begin_install` on the record that is there. -/
def mayBegin (lib : Library) (system : System) (candidate : Record) : Option State → Bool
  | some previous =>
      match previous.status with
      | .pending => previous.record == candidate
      | .installed =>
          !isOlder candidate.build previous.record.build &&
            !(candidate.build.buildNumber == previous.record.build.buildNumber &&
              previous.record != candidate) &&
            installedMatches lib system previous.record
  | none =>
      match system.moduleFiles with
      | some names => !names.any isDriver
      | none => false

section Calls

variable (lib : Library) (floatIsOne : Str → Bool)

/-- `begin_install`: the record to save. -/
def beginInstall (root : Root) (file : StateFile) (system : System) : Option State :=
  (verify lib root).bind fun candidate => (readState floatIsOne file).bind fun previous =>
    if mayBegin lib system candidate previous then some ⟨candidate, .pending⟩ else none

/-- The token that a call of `begin_install` returns. -/
def tokenOf (pending : State) : Str := lib.digest (lib.encoded pending.toJson)

/-- `finish_install`: the record to save. -/
def finishInstall (root : Root) (file : StateFile) (system : System) (token : Str) : Option State :=
  (verify lib root).bind fun candidate =>
    if readState floatIsOne file = some (some ⟨candidate, .pending⟩) ∧
        tokenOf lib ⟨candidate, .pending⟩ = token ∧ installedMatches lib system candidate = true then
      some ⟨candidate, .installed⟩
    else none

/-- A call with its arguments. -/
inductive Call where
  | beginInstall (root : Root) (system : System)
  | finishInstall (root : Root) (system : System) (token : Str)

/-- The record that a call tries to save, if it gets that far. -/
def toSave (file : StateFile) : Call → Option State
  | .beginInstall root system => beginInstall lib floatIsOne root file system
  | .finishInstall root system token => finishInstall lib floatIsOne root file system token

/-- A call, and whether it gets as far as `os.replace`. -/
structure Attempt where
  call : Call
  replaces : Bool

/-- A call that is rejected, or that fails or dies before `os.replace`, leaves the file;
    one that dies later has replaced it. -/
def installStep (file : StateFile) (attempt : Attempt) : Option StateFile :=
  match toSave lib floatIsOne file attempt.call with
  | some saved => some (if attempt.replaces then .holds saved.toJson else file)
  | none => some file

end Calls

/-! ## What is saved is read back -/

/-- What `verify` makes sure of in a record, and `read_state` checks again. -/
structure Record.Sound (record : Record) : Prop where
  build : record.build.valid = true
  payload : isSha256 record.payloadSha256 = true
  nonempty : record.files ≠ []
  files : ∀ entry ∈ record.files, isNormal entry.1 = true ∧ isSha256 entry.2 = true

theorem validateBuild_toJson {b : Build} (h : b.valid = true) : validateBuild b.toJson = some b := by
  have fields : b.toJson.hasFields Build.fields = true := rfl
  have platform : b.toJson.getStr "platform".toList = some "module".toList := rfl
  have application : b.toJson.getStr "application_id".toList = some packageId := rfl
  have machine : b.toJson.getStr "architecture".toList = some architecture := rfl
  have target : b.toJson.getStr "variant".toList = some variant := rfl
  have official : b.toJson.get "local_validation".toList = some (.bool false) := rfl
  have version : b.toJson.getStr "version".toList = some b.version := rfl
  have runId : b.toJson.getStr "run_id".toList = some b.runId := rfl
  have buildNumber : b.toJson.getNat "build_number".toList = some b.buildNumber := rfl
  have commit : b.toJson.getStr "source_commit_sha".toList = some b.sourceCommitSha := rfl
  have input : b.toJson.getStr "input_sha256".toList = some b.inputSha256 := rfl
  simp only [validateBuild, official, fields, platform, application, machine, target, version, runId,
    buildNumber, commit, input, beq_self_eq_true, Bool.and_self, if_true, Option.bind_some, h]

theorem isNormal_below {first name : Str} (part : IsPart first) (notParent : first ≠ ['.', '.'])
    (plain : '\\' ∉ first) (normal : isNormal name = true) (notDot : name ≠ ['.']) :
    isNormal (first ++ '/' :: name) = true := by
  simp only [isNormal, pathStr, Bool.and_eq_true, Bool.not_eq_true', beq_iff_eq] at normal
  obtain ⟨⟨⟨-, noParent⟩, noBackslash⟩, whole⟩ := normal
  have parts : (pathParts name).isEmpty = false := by
    cases empty : (pathParts name).isEmpty with
    | false => rfl
    | true =>
        rw [empty, if_pos rfl] at whole
        exact absurd whole.symm notDot
  rw [parts, if_neg Bool.false_ne_true] at whole
  have joined : first ++ '/' :: name = joinPath (first :: pathParts name) := by
    cases split : pathParts name with
    | nil =>
        rw [split] at parts
        cases parts
    | cons next later =>
        rw [split] at whole
        rw [← whole]
        simp [joinPath, List.intercalate_cons_cons]
  rw [joined]
  apply isNormal_joinPath (List.cons_ne_nil _ _)
  · intro other member
    cases List.mem_cons.mp member with
    | inl here => exact here ▸ part
    | inr there => exact (mem_pathParts there).1
  · intro member
    cases List.mem_cons.mp member with
    | inl here => exact notParent here.symm
    | inr there => simp [there] at noParent
  · intro other member
    cases List.mem_cons.mp member with
    | inl here => exact here ▸ plain
    | inr there =>
        intro inside
        have among := (mem_pathParts there).2 _ inside
        simp [among] at noBackslash

theorem destination_modules : ∀ name ∈ moduleNames.map (modulePrefix ++ ·),
    ∀ path ∈ destination name, isNormal path = true := by decide

/-- Only normal names have a destination, and it is a normal name. -/
theorem isNormal_destination {name path : Str} (normal : isNormal name = true)
    (h : destination name = some path) : isNormal path = true := by
  by_cases module : modulePrefix.isPrefixOf name ∧
      moduleNames.contains (name.drop modulePrefix.length) = true
  · obtain ⟨start, known⟩ := module
    obtain ⟨rest, rfl⟩ := List.isPrefixOf_iff_prefix.mp start
    rw [List.drop_left, List.contains_iff_mem] at known
    exact destination_modules _ (List.mem_map.mpr ⟨rest, known, rfl⟩) path h
  · have notModule : (modulePrefix.isPrefixOf name &&
        moduleNames.contains (name.drop modulePrefix.length)) = false := by
      simpa using module
    simp only [destination, notModule, Bool.false_eq_true, if_false] at h
    split at h
    · rename_i firmware
      obtain rfl := Option.some.inj h
      have part : IsPart "lib".toList := ⟨by decide, by decide, by decide⟩
      apply isNormal_below part (by decide) (by decide) normal
      rintro rfl
      revert firmware
      decide
    · split at h
      · obtain rfl := Option.some.inj h
        decide
      · split at h
        · obtain rfl := Option.some.inj h
          decide
        · cases h

theorem verify_sound {lib : Library} {root : Root} {record : Record}
    (h : verify lib root = some record) : record.Sound := by
  obtain ⟨build, sums, expected, verified, rfl⟩ := verify_iff.mp h
  obtain ⟨value, -, valid⟩ := Option.bind_eq_some_iff.mp verified.identity
  obtain ⟨text, -, entries⟩ := readSums_entries verified.parsed
  have same : (sortItems (installed expected)).Perm (installed expected) :=
    List.perm_insertionSort _ _
  refine ⟨(validateBuild_spec valid).2, lib.digest_isSha256 sums, ?_, ?_⟩
  · intro empty
    have none : installed expected = [] := List.nil_perm.mp (empty ▸ same)
    have firmware := verified.firmware
    rw [none] at firmware
    cases firmware
  · intro entry member
    obtain ⟨name, listed, toward⟩ := mem_installed.mp (same.mem_iff.mp member)
    obtain ⟨line, -, -, normal, sha⟩ := entries _ listed
    exact ⟨isNormal_destination normal toward, sha⟩

theorem readFiles_saved {files : List (Str × Str)} (nonempty : files ≠ [])
    (each : ∀ entry ∈ files, isNormal entry.1 = true ∧ isSha256 entry.2 = true) :
    readFiles (.obj (files.map fun entry => (entry.1, .str entry.2))) = some files := by
  have some : (files.map fun entry => (entry.1, Json.str entry.2)).isEmpty = false := by
    simpa using nonempty
  simp only [readFiles, some, Bool.false_eq_true, if_false]
  clear nonempty some
  induction files with
  | nil => rfl
  | cons entry rest ih =>
      have first := each entry List.mem_cons_self
      have later := ih fun other member => each other (List.mem_cons_of_mem entry member)
      rw [List.map_cons, List.mapM_cons]
      simp only [readInstalled, first.1, first.2, Bool.and_self, if_true, later]
      rfl

theorem readValue_toJson (floatIsOne : Str → Bool) {s : State} (sound : s.record.Sound) :
    readValue floatIsOne s.toJson = some s := by
  have fields : s.toJson.hasFields State.fields = true := rfl
  have schema : (s.toJson.get "schema_version".toList).any (isOne floatIsOne) = true := rfl
  have status : (s.toJson.get "status".toList).bind readStatus = some s.status := by
    cases s with
    | mk record status => cases status <;> rfl
  have payload : s.toJson.getStr "payload_sha256".toList = some s.record.payloadSha256 := rfl
  have files : (s.toJson.get "files".toList).bind readFiles = some s.record.files :=
    readFiles_saved sound.nonempty sound.files
  have build : (s.toJson.get "build".toList).bind validateBuild = some s.record.build :=
    validateBuild_toJson sound.build
  simp only [readValue, fields, schema, status, payload, files, build, sound.payload, Bool.and_self,
    if_true, Option.bind_some]

/-! ## Runs of calls -/

/-- The record in the file, if it is one that `read_state` accepts. -/
def recorded (floatIsOne : Str → Bool) (file : StateFile) : Option State :=
  (readState floatIsOne file).join

/-- How the record may change: neither the build number nor the version gets smaller,
    and one number stands for one package. -/
structure Later (before after : Record) : Prop where
  number : before.build.buildNumber ≤ after.build.buildNumber
  version : versionKey before.build.version ≤ versionKey after.build.version
  same : before.build.buildNumber = after.build.buildNumber → before = after

theorem Later.refl (record : Record) : Later record record :=
  ⟨le_rfl, le_rfl, fun _ => rfl⟩

theorem Later.trans {a b c : Record} (h : Later a b) (h' : Later b c) : Later a c where
  number := le_trans h.number h'.number
  version := le_trans h.version h'.version
  same := by
    intro equal
    have first : a.build.buildNumber = b.build.buildNumber := by
      have low := h.number
      have high := h'.number
      omega
    exact (h.same first).trans (h'.same (first ▸ equal))

/-- A record, and another that comes after it. -/
structure Follows (p q : State) : Prop where
  later : Later p.record q.record
  pending : p.status = .pending → q.record = p.record

section Calls

variable {lib : Library} {floatIsOne : Str → Bool}

theorem mayBegin_later {system : System} {candidate : Record} {p : State}
    (h : mayBegin lib system candidate (some p) = true) : Follows p ⟨candidate, .pending⟩ := by
  simp only [mayBegin] at h
  cases status : p.status with
  | pending =>
      rw [status] at h
      have same : p.record = candidate := by simpa using h
      exact ⟨same ▸ Later.refl _, fun _ => same.symm⟩
  | installed =>
      rw [status] at h
      simp only [isOlder, Bool.and_eq_true, Bool.not_eq_true', Bool.or_eq_false_iff,
        decide_eq_false_iff_not, Bool.and_eq_false_imp, beq_iff_eq, bne_eq_false_iff_eq] at h
      obtain ⟨⟨⟨number, version⟩, same⟩, -⟩ := h
      refine ⟨⟨Nat.le_of_not_lt number, le_of_not_gt version, fun equal => ?_⟩, fun pending => ?_⟩
      · exact same equal.symm
      · rw [status] at pending
        cases pending

/-- A saved record is sound, and it follows the one that was there. -/
theorem toSave_follows {file : StateFile} {call : Call} {saved : State}
    (h : toSave lib floatIsOne file call = some saved) :
    saved.record.Sound ∧ ∀ p, recorded floatIsOne file = some p → Follows p saved := by
  cases call with
  | beginInstall root system =>
      simp only [toSave, beginInstall] at h
      obtain ⟨candidate, verified, h⟩ := Option.bind_eq_some_iff.mp h
      obtain ⟨previous, read, h⟩ := Option.bind_eq_some_iff.mp h
      rw [Option.ite_none_right_eq_some] at h
      obtain ⟨may, h⟩ := h
      obtain rfl := Option.some.inj h
      refine ⟨verify_sound verified, fun p found => ?_⟩
      have here : previous = some p := by
        rw [recorded, read, Option.join_some] at found
        exact found
      subst here
      exact mayBegin_later may
  | finishInstall root system token =>
      simp only [toSave, finishInstall] at h
      obtain ⟨candidate, verified, h⟩ := Option.bind_eq_some_iff.mp h
      rw [Option.ite_none_right_eq_some] at h
      obtain ⟨⟨read, -, -⟩, h⟩ := h
      obtain rfl := Option.some.inj h
      refine ⟨verify_sound verified, fun p found => ?_⟩
      rw [recorded, read, Option.join_some] at found
      obtain rfl := Option.some.inj found
      exact ⟨Later.refl _, fun _ => rfl⟩

/-- One call, whatever becomes of it. -/
theorem installStep_follows {file next : StateFile} {attempt : Attempt} {p : State}
    (h : installStep lib floatIsOne file attempt = some next)
    (found : recorded floatIsOne file = some p) :
    ∃ q, recorded floatIsOne next = some q ∧ Follows p q := by
  have unchanged : Follows p p := ⟨Later.refl _, fun _ => rfl⟩
  simp only [installStep] at h
  split at h
  · rename_i saved saves
    obtain ⟨sound, follows⟩ := toSave_follows saves
    obtain rfl := Option.some.inj h
    split
    · refine ⟨saved, ?_, follows p found⟩
      rw [recorded, readState, readValue_toJson floatIsOne sound]
      rfl
    · exact ⟨p, found, unchanged⟩
  · obtain rfl := Option.some.inj h
    exact ⟨p, found, unchanged⟩

end Calls

/-- From whatever record the file holds, later records never have a smaller number or
    version or another package under the same number, and a pending record is replaced
    by one of the same package only. -/
theorem install_monotone (lib : Library) (floatIsOne : Str → Bool) (file later : StateFile) (p : State)
    (found : recorded floatIsOne file = some p)
    (run : Run.Reachable (installStep lib floatIsOne) Run.Free file later) :
    ∃ q, recorded floatIsOne later = some q ∧ Later p.record q.record ∧
      ∀ attempt next, installStep lib floatIsOne later attempt = some next →
        ∃ r, recorded floatIsOne next = some r ∧ Later p.record r.record ∧
          (q.status = .pending → r.record = q.record) := by
  have kept : ∃ q, recorded floatIsOne later = some q ∧ Later p.record q.record := by
    apply run.invariant (fun s => ∃ q, recorded floatIsOne s = some q ∧ Later p.record q.record)
    · exact ⟨p, found, Later.refl _⟩
    · intro s attempt t holds _ step
      obtain ⟨q, here, since⟩ := holds
      obtain ⟨r, there, follows⟩ := installStep_follows step here
      exact ⟨r, there, since.trans follows.later⟩
  obtain ⟨q, here, since⟩ := kept
  refine ⟨q, here, since, fun attempt next step => ?_⟩
  obtain ⟨r, there, follows⟩ := installStep_follows step here
  exact ⟨r, there, since.trans follows.later, follows.pending⟩

/-- A first installation that is begun twice. -/
theorem install_monotone_retried : ∃ file later p q,
    Run.Reachable (installStep Sample.library fun _ => false) Run.Free .absent file ∧
      recorded (fun _ => false) file = some p ∧ p.status = .pending ∧
      Run.Reachable (installStep Sample.library fun _ => false) Run.Free file later ∧
      recorded (fun _ => false) later = some q ∧ Later p.record q.record := by
  obtain ⟨root, record, verified⟩ := Sample.verified
  let pending : State := ⟨record, .pending⟩
  let attempt : Attempt := ⟨.beginInstall root ⟨fun _ => none, some []⟩, true⟩
  have read : readState (fun _ => false) (.holds pending.toJson) = some (some pending) := by
    rw [readState, readValue_toJson _ (verify_sound verified)]
    rfl
  have first : installStep Sample.library (fun _ => false) .absent attempt =
      some (.holds pending.toJson) := by
    simp [installStep, toSave, beginInstall, attempt, verified, readState, mayBegin, pending]
  have again : installStep Sample.library (fun _ => false) (.holds pending.toJson) attempt =
      some (.holds pending.toJson) := by
    simp [installStep, toSave, beginInstall, attempt, verified, read, mayBegin, pending]
  have found : recorded (fun _ => false) (.holds pending.toJson) = some pending := by
    rw [recorded, read]
    rfl
  have run : Run.Reachable (installStep Sample.library fun _ => false) Run.Free
      (.holds pending.toJson) (.holds pending.toJson) := .next attempt .init trivial again
  obtain ⟨q, here, since, -⟩ := install_monotone Sample.library (fun _ => false) _ _ pending found run
  exact ⟨_, _, pending, q, .next attempt .init trivial first, found, rfl, run, here, since⟩

end Aic8800.Package
