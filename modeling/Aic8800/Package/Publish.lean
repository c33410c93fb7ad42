import Aic8800.Lib.Loop
import Aic8800.Package.Agreement
import Mathlib

/-! # How a formal build publishes a package

`build` writes the tarball and its receipt below a new temporary directory, and then links each of
them to its name, where nothing may be that is not the same. Between any two steps the build can be
killed; then it leaves what it has written.
-/

namespace Aic8800.Package.Publish

open Lib Loop

/-- An absolute path, by its components. -/
abbrev Path := List Str

/-- What is at each path, links not followed. -/
abbrev Fs := Path → Option Node

inductive PyError where
  | valueError (message : Str)
  | osError
  | tarError
  deriving DecidableEq

/-- The output of an independent run. -/
structure RunOutput where
  parent : Path
  name : Str
  /-- The path is absolute, and there is no symbolic link in it. -/
  canonical : Bool

/-- A formal build that has its inputs and the files of the package. -/
structure Job where
  lib : Library
  value : Json
  tree : SourceTree
  version : Str
  buildNumber : Nat
  /-- All files but `SHA256SUMS`. -/
  contents : List (Str × Bytes × Nat)
  /-- `tarfile` and `gzip`, which are given no time of their own. -/
  pack : List Member → Bytes
  read : Bytes → Option (List Member)
  /-- The identity when the package has been packed. -/
  again : Json
  /-- What the Core reads of a tarball. -/
  core : Bytes → Json
  root : Path
  artifact : Option RunOutput
  formal : value.get "local_validation".toList = some (.bool false)
  versionOf : value.getStr "version".toList = some version
  numberOf : value.getNat "build_number".toList = some buildNumber
  inputs : packageFiles lib value tree = some contents

/-- The name of a formal artifact -/
def artifactName (version : Str) (buildNumber : Nat) : Str :=
  packagePrefix ++ ['-'] ++ variant ++ ['-'] ++ architecture ++ ['-'] ++ version ++
    "-build".toList ++ (toString buildNumber).toList ++ ".tar.gz".toList

/-- The names that `mkdtemp` chooses, behind its prefixes. -/
structure Temps where
  package : Str
  driverRun : Str
  plain : '.' ∉ package ∧ '.' ∉ driverRun

namespace Job

variable (j : Job)

def files : List (Str × Bytes × Nat) := allFiles j.lib j.contents

def bytes : Bytes := j.pack ((sortItems j.files).map tarMember)

/-- What `verify` returns of a tarball. -/
def report (data : Bytes) : Json :=
  .obj
    [("artifact_bytes".toList, .int data.length),
      ("artifact_sha256".toList, .str (j.lib.digest data)), ("build".toList, j.value),
      ("schema_version".toList, .int 1)]

/-- The bytes of the receipt -/
def receiptBytes : Bytes := j.lib.encoded (j.report j.bytes)

/-- The check of one member of a tarball. -/
def checkMember (item : Member) : Bool :=
  match j.files.lookup (item.name.drop (packagePrefix.length + 1)) with
  | some (data, mode) => item.node == .file data && item.mode == mode
  | none => false

/-- `verify` -/
def verifyTar (data : Bytes) : Except PyError Json :=
  match j.read data with
  | none => .error .tarError
  | some entries =>
      if ¬(entries.map Member.name).Perm
          (j.files.map fun item => packagePrefix ++ ['/'] ++ item.1) then
        .error (.valueError "最终 tar 文件集合不同".toList)
      else if entries.all j.checkMember = false then
        .error (.valueError "最终 tar 字节或权限不一致".toList)
      else .ok (j.report data)

def output : Path := j.root ++ ["dist".toList]

def name : Str := artifactName j.version j.buildNumber

def path : Path := j.output ++ [j.name]

def receipt : Path := j.output ++ [j.name ++ ".json".toList]

end Job

def RunOutput.path (o : RunOutput) : Path := o.parent ++ [o.name]

section Paths

variable (j : Job) (tmp : Temps)

def temporary : Path := j.output ++ [".package-".toList ++ tmp.package]

def candidate : Path := temporary j tmp ++ ["package.tar.gz".toList]

def receiptCandidate : Path := temporary j tmp ++ ["receipt.json".toList]

def runTemporary (o : RunOutput) : Path := o.parent ++ [".driver-run-".toList ++ tmp.driverRun]

def runCandidate (o : RunOutput) : Path := runTemporary tmp o ++ ["package.tar.gz".toList]

end Paths

/-- Where a build is. -/
inductive Point where
  | start
  | mkdir
  | mkdtemp
  | pack
  | check
  | compare
  | linkArtifact
  | writeReceipt
  | linkReceipt
  /-- The temporary directory is removed, also after an exception. -/
  | leave (raised : Option PyError)
  | runMkdtemp (o : RunOutput)
  | copy (o : RunOutput)
  | runCheck (o : RunOutput)
  | linkRun (o : RunOutput)
  | runLeave (o : RunOutput) (raised : Option PyError)
  | returned (path : Path) (report : Json)
  | raised (e : PyError)

structure State where
  fs : Fs
  point : Point

namespace Fs

def put (fs : Fs) (p : Path) (node : Node) : Fs := Function.update fs p (some node)

def remove (fs : Fs) (p : Path) : Fs := Function.update fs p none

/-- `read_bytes` -/
def readBytes (fs : Fs) (p : Path) : Except PyError Bytes :=
  match fs p with
  | some (.file data) => .ok data
  | _ => .error .osError

/-- `os.link`, and the comparison with what is there already. -/
def publish (fs : Fs) (source target : Path) (expected : Bytes) (message : Str) :
    Except PyError Fs :=
  match fs target with
  | none => (fs.readBytes source).map fun data => fs.put target (.file data)
  | some (.file data) => if data = expected then .ok fs else .error (.valueError message)
  | some .symlink => .error (.valueError message)
  | some _ => .error .osError

end Fs

section Build

variable (j : Job) (tmp : Temps)

/-- The checks on the tarball before it is published. -/
def Job.check (data : Bytes) : Except PyError Unit := do
  if j.again ≠ j.value then .error (.valueError "打包期间冻结身份发生变化".toList)
  else
    let report ← j.verifyTar data
    if j.core data ≠ report then .error (.valueError "Core 最终 tar 回读不一致".toList) else .ok ()

/-- The checks on the names before anything is published. -/
def Job.compare (fs : Fs) : Except PyError Unit :=
  if fs j.path = some .symlink ∨ fs j.receipt = some .symlink then
    .error (.valueError "制品与收据不能是符号链接".toList)
  else if fs j.receipt = none then .ok ()
  else do
    let data ← fs.readBytes j.receipt
    if data ≠ j.receiptBytes then .error (.valueError "同号已有不同收据，拒绝覆盖".toList)
    else .ok ()

/-- The checks on the path of an independent run. -/
def RunOutput.accepted (o : RunOutput) (fs : Fs) : Prop :=
  o.canonical ∧ ".tar.gz".toList <:+ o.name ∧ fs o.parent = some .dir ∧ fs o.path ≠ some .symlink

instance (o : RunOutput) (fs : Fs) : Decidable (o.accepted fs) :=
  inferInstanceAs (Decidable (_ ∧ _))

/-- One step in the `with` block, which is left where the step raises. -/
def within (s : State) (result : Except PyError Fs) (next : Point) : State :=
  match result with
  | .ok fs => ⟨fs, next⟩
  | .error e => ⟨s.fs, .leave (some e)⟩

/-- The same in the second one. -/
def withinRun (s : State) (o : RunOutput) (result : Except PyError Fs) (next : Point) : State :=
  match result with
  | .ok fs => ⟨fs, next⟩
  | .error e => ⟨s.fs, .runLeave o (some e)⟩

/-- The steps of `build`. -/
def turn (s : State) : Option State :=
  match s.point with
  | .start =>
      if ∃ o ∈ j.artifact, ¬o.accepted s.fs then
        some ⟨s.fs, .raised (.valueError
          "正式 run 的输出必须是已有目录下的绝对 tar.gz 路径，且不得经过符号链接".toList)⟩
      else if s.fs j.output = some .symlink then
        some ⟨s.fs, .raised (.valueError "dist 不能是符号链接".toList)⟩
      else some ⟨s.fs, .mkdir⟩
  | .mkdir =>
      match s.fs j.output with
      | none => some ⟨s.fs.put j.output .dir, .mkdtemp⟩
      | some .dir => some ⟨s.fs, .mkdtemp⟩
      | some _ => some ⟨s.fs, .raised .osError⟩
  | .mkdtemp =>
      if s.fs (temporary j tmp) = none then some ⟨s.fs.put (temporary j tmp) .dir, .pack⟩
      else some ⟨s.fs, .raised .osError⟩
  | .pack => some ⟨s.fs.put (candidate j tmp) (.file j.bytes), .check⟩
  | .check =>
      some (within s (((s.fs.readBytes (candidate j tmp)).bind j.check).map fun _ => s.fs) .compare)
  | .compare => some (within s ((j.compare s.fs).map fun _ => s.fs) .linkArtifact)
  | .linkArtifact =>
      some (within s ((s.fs.readBytes (candidate j tmp)).bind fun data =>
        s.fs.publish (candidate j tmp) j.path data "同号已有不同制品，拒绝覆盖".toList) .writeReceipt)
  | .writeReceipt =>
      some ⟨s.fs.put (receiptCandidate j tmp) (.file j.receiptBytes), .linkReceipt⟩
  | .linkReceipt =>
      some (within s (s.fs.publish (receiptCandidate j tmp) j.receipt j.receiptBytes
        "同号已有不同收据，拒绝覆盖".toList) (.leave none))
  | .leave raised =>
      let fs := ((s.fs.remove (candidate j tmp)).remove (receiptCandidate j tmp)).remove
        (temporary j tmp)
      match raised, j.artifact with
      | some e, _ => some ⟨fs, .raised e⟩
      | none, none => some ⟨fs, .returned j.path (j.report j.bytes)⟩
      | none, some o => some ⟨fs, .runMkdtemp o⟩
  | .runMkdtemp o =>
      if s.fs (runTemporary tmp o) = none then
        some ⟨s.fs.put (runTemporary tmp o) .dir, .copy o⟩
      else some ⟨s.fs, .raised .osError⟩
  | .copy o =>
      some (withinRun s o
        ((s.fs.readBytes j.path).map fun data => s.fs.put (runCandidate tmp o) (.file data))
        (.runCheck o))
  | .runCheck o =>
      some (withinRun s o ((s.fs.readBytes (runCandidate tmp o)).bind fun data =>
        (j.verifyTar data).bind fun report =>
          if report = j.report j.bytes then .ok s.fs
          else .error (.valueError "独立 run 包复制后回读不同".toList)) (.linkRun o))
  | .linkRun o =>
      some (withinRun s o ((s.fs.readBytes (runCandidate tmp o)).bind fun data =>
        s.fs.publish (runCandidate tmp o) o.path data "独立 run 路径已有不同制品，拒绝覆盖".toList)
        (.runLeave o none))
  | .runLeave o raised =>
      let fs := (s.fs.remove (runCandidate tmp o)).remove (runTemporary tmp o)
      match raised with
      | some e => some ⟨fs, .raised e⟩
      | none => some ⟨fs, .returned o.path (j.report j.bytes)⟩
  | .returned _ _ | .raised _ => none

end Build

end Aic8800.Package.Publish
