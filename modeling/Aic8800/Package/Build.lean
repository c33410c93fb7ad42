import Aic8800.Package.NativeModule

/-! # The builder of a package

`build_package.py` takes the payload out of a prebuilt archive, adds the scripts and
the identity, and writes a tarball. An archive is the list of its members here, as
`tarfile` reads them. Of `build` the model leaves out what concerns `dist` and the
Core's own reading of the tarball: both can only make a build fail.
-/

namespace Aic8800.Package

def packagePrefix : Str := "ugreen-ax900-prebuilt".toList

/-- A member of a tar archive. -/
structure Member where
  name : Str
  node : Node
  mode : Nat
  deriving DecidableEq

/-- The file in `release_assets`: its digest, and its members if it is an archive. -/
structure Asset where
  sha256 : Str
  members : Option (List Member)

/-- What a build reads of the source tree. -/
structure SourceTree where
  prebuiltSource : Bytes
  asset : Str → Option Asset
  installPrebuilt : Bytes
  collectDiagnostics : Bytes
  verifyPackage : Bytes
  license : Bytes
  notice : Bytes

abbrev Files := List (Str × Bytes)

/-- `files[name] = data` -/
def Files.set (files : Files) (name : Str) (data : Bytes) : Files :=
  if (files.map Prod.fst).contains name then
    files.map fun item => if item.1 = name then (name, data) else item
  else files ++ [(name, data)]

/-- `str.rstrip("/")` -/
def rstripSlash (name : Str) : Str := (name.reverse.dropWhile (· == '/')).reverse

/-- The checks on a member of the prebuilt archive, with the names before it. -/
def allowed (names : List Str) (item : Member) : Bool :=
  !isAbsolute item.name && !(pathParts item.name).contains ['.', '.'] && !item.name.contains '\\' &&
    !names.contains item.name && rstripSlash item.name == pathStr item.name &&
    match item.node with
    | .file _ | .dir => true
    | _ => false

/-- The name in the package and the data of a member that is payload. An empty path
    has no `parts[0]`. -/
def payloadOf (archivePrefix : Str) (item : Member) : Option (Option (Str × Bytes)) :=
  match item.node with
  | .file data =>
      match pathParts item.name with
      | [] => none
      | first :: parts =>
          if first != archivePrefix || (first :: parts).any ("._".toList.isPrefixOf ·) then some none
          else
            let relative := joinPath parts
            if "modules/".toList.isPrefixOf relative || "firmware/".toList.isPrefixOf relative ||
                relative == "udev/aic.rules".toList || relative == "modules-load/aic8800.conf".toList then
              some (some (relative, data))
            else some none
  | _ => some none

/-- One turn of the loop over the members. -/
def takeMember (archivePrefix : Str) (state : List Str × Files) (item : Member) :
    Option (List Str × Files) :=
  if allowed state.1 item then
    (payloadOf archivePrefix item).map fun
      | some (name, data) => (state.1 ++ [item.name], state.2.set name data)
      | none => (state.1 ++ [item.name], state.2)
  else none

def isPrefixChar (c : Char) : Bool := c.isAlphanum || c == '_' || c == '-'

def sourceFields : List Str :=
  ["file".toList, "url".toList, "sha256".toList, "prefix".toList, "kernel".toList,
    "architecture".toList]

/-- The declaration of the prebuilt archive. -/
structure Source where
  file : Str
  sha256 : Str
  archivePrefix : Str
  deriving DecidableEq

def readSource (source : Json) : Option Source :=
  if source.hasFields sourceFields && source.getStr "kernel".toList == some kernel &&
      source.getStr "architecture".toList == some architecture then
    (source.getStr "file".toList).bind fun file => (source.getStr "sha256".toList).bind fun sha256 =>
      (source.getStr "prefix".toList).bind fun archivePrefix =>
        if pathName file == file && isSha256 sha256 && !archivePrefix.isEmpty &&
            archivePrefix.all isPrefixChar then
          some { file, sha256, archivePrefix }
        else none
  else none

/-- The members of the archive that the source tree declares. -/
def archiveMembers (lib : Library) (tree : SourceTree) : Option (Json × Source × List Member) :=
  (lib.loads tree.prebuiltSource).bind fun value => (readSource value).bind fun source =>
    (tree.asset source.file).bind fun asset =>
      if asset.sha256 = source.sha256 then
        asset.members.map fun members => (value, source, members)
      else none

def expectedModules : List Str :=
  ["aic8800_fdrv".toList, "aic_load_fw".toList].map fun name => modulePrefix ++ name ++ ".ko.zst".toList

/-- The facts of one module, under its file's name. -/
def moduleFacts (lib : Library) (files : Files) (name : Str) : Option (Str × Json) :=
  (files.lookup name).bind fun data => (nativeModule lib data).bind fun fact =>
    if name = modulePrefix ++ fact.name ++ ".ko.zst".toList then some (pathName name, fact.toJson)
    else none

/-- The content of `native.json`. -/
def nativeRecord (source : Json) (modules : List (Str × Json)) : Json :=
  .obj
    [("architecture".toList, .str architecture), ("kernel".toList, .str kernel),
      ("modules".toList, .obj modules), ("source".toList, source)]

def sourcePayload (lib : Library) (tree : SourceTree) : Option (Files × Json) :=
  (archiveMembers lib tree).bind fun (value, source, members) =>
    (members.foldlM (takeMember source.archivePrefix) ([], [])).bind fun (_, files) =>
      let names := files.map Prod.fst
      if names.all (fun name => !"modules/".toList.isPrefixOf name || expectedModules.contains name) &&
          expectedModules.all names.contains then
        (expectedModules.mapM (moduleFacts lib files)).bind fun modules =>
          if names.any firmwarePrefix.isPrefixOf && names.contains "udev/aic.rules".toList &&
              names.contains "modules-load/aic8800.conf".toList then
            some (files, nativeRecord value modules)
          else none
      else none

def readme : Str :=
  "# UGREEN AX900 驱动分发包\n\n目标：Ubuntu 24.04 / ".toList ++ kernel ++ " / ".toList ++ architecture ++
    "\n\n正式包先执行 \x60python3 scripts/verify_package.py verify .\x60，再由 root 执行 ".toList ++
    "\x60bash scripts/install_prebuilt.sh\x60。本地验证包拒绝安装。安装后按 README 的硬件边界物理拔插并运行 ".toList ++
    "\x60bash scripts/collect_diagnostics.sh\x60。本包保留厂商模块版本，产品身份见 build.json。\n".toList

/-- The files that a build adds to the payload, with their modes. -/
def addedFiles (lib : Library) (tree : SourceTree) (value native : Json) (version : Str) :
    List (Str × Bytes × Nat) :=
  [("scripts/install_prebuilt.sh".toList, tree.installPrebuilt, 0o755),
    ("scripts/collect_diagnostics.sh".toList, tree.collectDiagnostics, 0o755),
    ("scripts/verify_package.py".toList, tree.verifyPackage, 0o755),
    ("LICENSE".toList, tree.license, 0o644), ("NOTICE.md".toList, tree.notice, 0o644),
    ("VERSION".toList, encode (version ++ ['\n']), 0o644),
    ("build.json".toList, lib.encoded value, 0o644),
    ("native.json".toList, lib.encoded native, 0o644),
    ("README.release.md".toList, encode readme, 0o644)]

def checksums (lib : Library) (files : List (Str × Bytes × Nat)) : Bytes :=
  encode ((sortItems files).flatMap fun (name, data, _) => lib.digest data ++ [' ', ' '] ++ name ++ ['\n'])

/-- All files of a package with their modes, but for `SHA256SUMS`. -/
def packageFiles (lib : Library) (value : Json) (tree : SourceTree) : Option (List (Str × Bytes × Nat)) :=
  (sourcePayload lib tree).bind fun (payload, native) =>
    (value.getStr "version".toList).map fun version =>
      payload.map (fun (name, data) => (name, data, 0o644)) ++
        addedFiles lib tree value native version

/-- `tarfile.TarInfo(PREFIX + "/" + name)` and its data. -/
def tarMember (item : Str × Bytes × Nat) : Member :=
  { name := packagePrefix ++ ['/'] ++ item.1, node := .file item.2.1, mode := item.2.2 }

/-- All files of a package. -/
def allFiles (lib : Library) (files : List (Str × Bytes × Nat)) : List (Str × Bytes × Nat) :=
  files ++ [(sumsName, checksums lib files, 0o644)]

/-- The tarball of the identity `value`: its members, in order. -/
def build (lib : Library) (value : Json) (tree : SourceTree) : Option (List Member) :=
  (packageFiles lib value tree).map fun files => (sortItems (allFiles lib files)).map tarMember

end Aic8800.Package
