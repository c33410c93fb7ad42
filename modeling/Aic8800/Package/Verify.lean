import Aic8800.Package.Json
import Mathlib.Data.Char
import Mathlib.Data.List.Lex
import Mathlib.Data.List.Sort

/-! # The verifier of an unpacked package

`verify_package.py` checks a directory against its `SHA256SUMS` and names the files
that an installation writes. A check that raises an exception has the result `none`.
-/

namespace Aic8800.Package

def kernel : Str := "6.17.0-14-generic".toList

def architecture : Str := "x86_64".toList

def variant : Str := "ubuntu24.04-kernel".toList ++ kernel

def packageId : Str := "ugreen-ax900".toList

def moduleNames : List Str := ["aic8800_fdrv.ko.zst".toList, "aic_load_fw.ko.zst".toList]

def modulePrefix : Str := "modules/".toList ++ kernel ++ ['/'] ++ architecture ++ ['/']

def firmwarePrefix : Str := "firmware/aic8800D80/".toList

def sumsName : Str := "SHA256SUMS".toList

/-- What a path below the package's root is, links not followed. -/
inductive Node where
  | file (data : Bytes)
  | dir
  | symlink
  | special
  deriving DecidableEq

/-- The unpacked directory: what lies below its root, by relative path. -/
structure Root where
  entries : List (Str × Node)

/-- `read_file` of a file that lies directly in the root. -/
def Root.readFile (root : Root) (name : Str) : Option Bytes :=
  match root.entries.lookup name with
  | some (.file data) => some data
  | _ => none

/-- The identity that `validate_build` accepts. The fields that have one value only
    are left out. -/
structure Build where
  version : Str
  runId : Str
  buildNumber : Nat
  sourceCommitSha : Str
  inputSha256 : Str
  deriving DecidableEq

namespace Build

def fields : List Str :=
  ["version".toList, "platform".toList, "application_id".toList, "architecture".toList,
    "variant".toList, "local_validation".toList, "run_id".toList, "build_number".toList,
    "source_commit_sha".toList, "input_sha256".toList]

/-- The conditions on the fields that vary. -/
def valid (b : Build) : Bool :=
  isVersion b.version && decide (0 < b.buildNumber) && decide (b.buildNumber ≤ 9007199254740991) &&
    b.runId.any (fun c => !isSpace c) && isHex 40 b.sourceCommitSha && isSha256 b.inputSha256

def toJson (b : Build) : Json :=
  .obj
    [("application_id".toList, .str packageId), ("architecture".toList, .str architecture),
      ("build_number".toList, .int b.buildNumber), ("input_sha256".toList, .str b.inputSha256),
      ("local_validation".toList, .bool false), ("platform".toList, .str "module".toList),
      ("run_id".toList, .str b.runId), ("source_commit_sha".toList, .str b.sourceCommitSha),
      ("variant".toList, .str variant), ("version".toList, .str b.version)]

end Build

def validateBuild (v : Json) : Option Build :=
  match v.get "local_validation".toList with
  | some (.bool false) =>
      if v.hasFields Build.fields && v.getStr "platform".toList == some "module".toList &&
          v.getStr "application_id".toList == some packageId &&
          v.getStr "architecture".toList == some architecture &&
          v.getStr "variant".toList == some variant then
        (v.getStr "version".toList).bind fun version => (v.getStr "run_id".toList).bind fun runId =>
          (v.getNat "build_number".toList).bind fun buildNumber =>
            (v.getStr "source_commit_sha".toList).bind fun sourceCommitSha =>
              (v.getStr "input_sha256".toList).bind fun inputSha256 =>
                let b : Build := { version, runId, buildNumber, sourceCommitSha, inputSha256 }
                if b.valid then some b else none
      else none
  | _ => none

theorem validateBuild_spec {v : Json} {b : Build} (h : validateBuild v = some b) :
    v.getStr "version".toList = some b.version ∧ b.valid = true := by
  simp only [validateBuild] at h
  split at h
  · rw [Option.ite_none_right_eq_some] at h
    obtain ⟨-, h⟩ := h
    obtain ⟨version, found, h⟩ := Option.bind_eq_some_iff.mp h
    obtain ⟨runId, -, h⟩ := Option.bind_eq_some_iff.mp h
    obtain ⟨buildNumber, -, h⟩ := Option.bind_eq_some_iff.mp h
    obtain ⟨sourceCommitSha, -, h⟩ := Option.bind_eq_some_iff.mp h
    obtain ⟨inputSha256, -, h⟩ := Option.bind_eq_some_iff.mp h
    rw [Option.ite_none_right_eq_some] at h
    obtain ⟨valid, h⟩ := h
    obtain rfl := Option.some.inj h
    exact ⟨found, valid⟩
  · cases h

/-- Where an installation puts the file, below the root of the target. -/
def destination (name : Str) : Option Str :=
  if modulePrefix.isPrefixOf name && moduleNames.contains (name.drop modulePrefix.length) then
    some ("lib/modules/".toList ++ kernel ++ "/updates/dkms/".toList ++ pathName name)
  else if firmwarePrefix.isPrefixOf name then some ("lib/".toList ++ name)
  else if name == "udev/aic.rules".toList then some "usr/lib/udev/rules.d/aic.rules".toList
  else if name == "modules-load/aic8800.conf".toList then
    some "etc/modules-load.d/aic8800.conf".toList
  else none

/-- One line of `SHA256SUMS`, with the names of the lines before. -/
def readSum (expected : List (Str × Str)) (line : Str) : Option (List (Str × Str)) :=
  let name := line.drop 66
  if decide (67 ≤ line.length) && (line.drop 64).take 2 == "  ".toList && isSha256 (line.take 64) &&
      isNormal name && !(expected.map Prod.fst).contains name && name != sumsName then
    some (expected ++ [(name, line.take 64)])
  else none

/-- The names and digests that `SHA256SUMS` lists. -/
def readSums (sums : Bytes) : Option (List (Str × Str)) :=
  (decodeAscii sums).bind fun text => (splitlines text).foldlM readSum []

theorem readSum_entry {expected read : List (Str × Str)} {line : Str}
    (h : readSum expected line = some read) :
    read = expected ++ [(line.drop 66, line.take 64)] ∧ isNormal (line.drop 66) = true ∧
      isSha256 (line.take 64) = true := by
  simp only [readSum, Option.ite_none_right_eq_some, Option.some.injEq, Bool.and_eq_true] at h
  obtain ⟨⟨⟨⟨⟨-, sha⟩, normal⟩, -⟩, -⟩, rfl⟩ := h
  exact ⟨rfl, normal, sha⟩

theorem readLines_entries {lines : List Str} {expected read : List (Str × Str)}
    (h : lines.foldlM readSum expected = some read) :
    ∀ entry ∈ read, entry ∈ expected ∨ ∃ line ∈ lines, entry = (line.drop 66, line.take 64) ∧
      isNormal entry.1 = true ∧ isSha256 entry.2 = true := by
  induction lines generalizing expected with
  | nil =>
      obtain rfl := Option.some.inj h
      exact fun entry member => .inl member
  | cons line rest ih =>
      rw [List.foldlM_cons] at h
      obtain ⟨next, taken, later⟩ := Option.bind_eq_some_iff.mp h
      obtain ⟨rfl, normal, sha⟩ := readSum_entry taken
      intro entry member
      cases ih later entry member with
      | inl earlier =>
          cases List.mem_append.mp earlier with
          | inl old => exact .inl old
          | inr new =>
              obtain rfl := List.mem_singleton.mp new
              exact .inr ⟨line, List.mem_cons_self, rfl, normal, sha⟩
      | inr found =>
          obtain ⟨other, among, same⟩ := found
          exact .inr ⟨other, List.mem_cons_of_mem line among, same⟩

/-- What is read of `SHA256SUMS` comes from one of its lines. -/
theorem readSums_entries {sums : Bytes} {expected : List (Str × Str)}
    (h : readSums sums = some expected) : ∃ text, decodeAscii sums = some text ∧
      ∀ entry ∈ expected, ∃ line ∈ splitlines text, entry = (line.drop 66, line.take 64) ∧
        isNormal entry.1 = true ∧ isSha256 entry.2 = true := by
  obtain ⟨text, decoded, read⟩ := Option.bind_eq_some_iff.mp h
  refine ⟨text, decoded, fun entry member => ?_⟩
  cases readLines_entries read entry member with
  | inl none => cases none
  | inr found => exact found

def required : List Str :=
  ["VERSION".toList, "build.json".toList, "native.json".toList, "LICENSE".toList,
    "NOTICE.md".toList, "README.release.md".toList, "scripts/install_prebuilt.sh".toList,
    "scripts/collect_diagnostics.sh".toList, "scripts/verify_package.py".toList,
    "udev/aic.rules".toList, "modules-load/aic8800.conf".toList] ++
    moduleNames.map (modulePrefix ++ ·)

/-- The check of one path that `rglob` finds. -/
def checkEntry (lib : Library) (expected : List (Str × Str)) : Str × Node → Bool
  | (_, .symlink) | (_, .special) => false
  | (_, .dir) => true
  | (name, .file data) => name == sumsName || expected.lookup name == some (lib.digest data)

def Node.isFile : Node → Bool
  | .file _ => true
  | _ => false

def Root.fileNames (root : Root) : List Str :=
  (root.entries.filter fun entry => entry.2.isFile).map Prod.fst

/-- The check of one module's facts against the digests. -/
def checkFacts (expected : List (Str × Str)) (entry : Str × Json) : Bool :=
  match entry.2.getStr "compressed_sha256".toList, entry.2.getStr "vermagic".toList with
  | some sha, some vermagic =>
      expected.lookup (modulePrefix ++ entry.1) == some sha &&
        entry.2.getStr "architecture".toList == some architecture &&
        (kernel ++ [' ']).isPrefixOf vermagic
  | _, _ => false

/-- The checks of `native.json`. -/
def checkNative (native : Json) (expected : List (Str × Str)) : Bool :=
  native.getStr "kernel".toList == some kernel &&
    native.getStr "architecture".toList == some architecture &&
    match native.get "modules".toList with
    | some (.obj modules) =>
        (Json.obj modules).hasFields moduleNames && modules.all (checkFacts expected)
    | _ => false

/-- What is recorded of a package. The dict `files` is in the order of its keys. -/
structure Record where
  build : Build
  payloadSha256 : Str
  files : List (Str × Str)
  deriving DecidableEq

/-- The items of a dict in the order of the keys. -/
def sortItems {α : Type} (items : List (Str × α)) : List (Str × α) :=
  items.insertionSort fun a b => a.1 ≤ b.1

/-- The files to install, with their digests. -/
def installed (expected : List (Str × Str)) : List (Str × Str) :=
  expected.filterMap fun (name, sha) => (destination name).map fun path => (path, sha)

theorem mem_installed {expected : List (Str × Str)} {path sha : Str} :
    (path, sha) ∈ installed expected ↔
      ∃ name, (name, sha) ∈ expected ∧ destination name = some path := by
  constructor
  · intro member
    obtain ⟨⟨name, digest⟩, listed, goes⟩ := List.mem_filterMap.mp member
    obtain ⟨target, toward, same⟩ := Option.map_eq_some_iff.mp goes
    obtain ⟨rfl, rfl⟩ := Prod.mk.inj same
    exact ⟨name, listed, toward⟩
  · rintro ⟨name, listed, toward⟩
    exact List.mem_filterMap.mpr ⟨(name, sha), listed, Option.map_eq_some_iff.mpr ⟨path, toward, rfl⟩⟩

def verify (lib : Library) (root : Root) : Option Record :=
  ((root.readFile "build.json".toList).bind lib.loads).bind fun value =>
    (validateBuild value).bind fun build =>
      if root.readFile "VERSION".toList = some (encode (build.version ++ ['\n'])) then
        (root.readFile sumsName).bind fun sums => (readSums sums).bind fun expected =>
          let names := expected.map Prod.fst
          if required.all names.contains &&
              names.all (fun name => required.contains name || firmwarePrefix.isPrefixOf name) &&
              root.entries.all (checkEntry lib expected) &&
              names.all root.fileNames.contains && root.fileNames.contains sumsName then
            ((root.readFile "native.json".toList).bind lib.loads).bind fun native =>
              if checkNative native expected &&
                  (installed expected).any ("lib/firmware/aic8800D80/".toList.isPrefixOf ·.1) then
                some
                  { build, payloadSha256 := lib.digest sums
                    files := sortItems (installed expected) }
              else none
          else none
      else none

/-- The checks of `verify`, with what it has read. -/
structure Verified (lib : Library) (root : Root) (build : Build) (sums : Bytes)
    (expected : List (Str × Str)) : Prop where
  identity : ((root.readFile "build.json".toList).bind lib.loads).bind validateBuild = some build
  version : root.readFile "VERSION".toList = some (encode (build.version ++ ['\n']))
  found : root.readFile sumsName = some sums
  parsed : readSums sums = some expected
  complete : ∀ name ∈ required, name ∈ expected.map Prod.fst
  declared : ∀ name ∈ expected.map Prod.fst,
    name ∈ required ∨ firmwarePrefix.isPrefixOf name = true
  entries : root.entries.all (checkEntry lib expected) = true
  present : ∀ name ∈ expected.map Prod.fst, name ∈ root.fileNames
  sumsPresent : sumsName ∈ root.fileNames
  native : ∃ native, (root.readFile "native.json".toList).bind lib.loads = some native ∧
    checkNative native expected = true
  firmware : (installed expected).any ("lib/firmware/aic8800D80/".toList.isPrefixOf ·.1) = true

theorem verify_iff {lib : Library} {root : Root} {record : Record} :
    verify lib root = some record ↔ ∃ build sums expected, Verified lib root build sums expected ∧
      record =
        { build, payloadSha256 := lib.digest sums, files := sortItems (installed expected) } := by
  constructor
  · intro h
    simp only [verify] at h
    obtain ⟨value, read, h⟩ := Option.bind_eq_some_iff.mp h
    obtain ⟨build, valid, h⟩ := Option.bind_eq_some_iff.mp h
    rw [Option.ite_none_right_eq_some] at h
    obtain ⟨version, h⟩ := h
    obtain ⟨sums, found, h⟩ := Option.bind_eq_some_iff.mp h
    obtain ⟨expected, parsed, h⟩ := Option.bind_eq_some_iff.mp h
    rw [Option.ite_none_right_eq_some] at h
    obtain ⟨files, h⟩ := h
    obtain ⟨native, facts, h⟩ := Option.bind_eq_some_iff.mp h
    rw [Option.ite_none_right_eq_some, Bool.and_eq_true] at h
    obtain ⟨⟨same, firmware⟩, h⟩ := h
    simp only [Bool.and_eq_true, List.all_eq_true, List.contains_iff_mem, Bool.or_eq_true] at files
    obtain ⟨⟨⟨⟨complete, declared⟩, entries⟩, present⟩, sumsPresent⟩ := files
    refine ⟨build, sums, expected, ?_, (Option.some.inj h).symm⟩
    exact
      { identity := by rw [read, Option.bind_some, valid]
        version, found, parsed, complete, declared
        entries := List.all_eq_true.mpr entries
        present, sumsPresent, native := ⟨native, facts, same⟩, firmware }
  · rintro ⟨build, sums, expected, h, rfl⟩
    obtain ⟨value, read, valid⟩ := Option.bind_eq_some_iff.mp h.identity
    obtain ⟨native, facts, same⟩ := h.native
    have complete : required.all (expected.map Prod.fst).contains = true := by
      simpa using h.complete
    have declared : (expected.map Prod.fst).all (fun name =>
        required.contains name || firmwarePrefix.isPrefixOf name) = true := by
      simpa using h.declared
    have present : (expected.map Prod.fst).all root.fileNames.contains = true := by
      simpa using h.present
    have sumsPresent : root.fileNames.contains sumsName = true := by simpa using h.sumsPresent
    simp only [verify, read, valid, h.version, h.found, h.parsed, complete, declared, h.entries,
      present, sumsPresent, facts, same, h.firmware, Option.bind_some, Bool.and_self, if_true]

end Aic8800.Package
