import Aic8800.Package.InstallState
import Mathlib

/-! # What the verifier vouches for

The verifier walks a directory that somebody else has made. What it accepts is told here of the
directory: which files are in it, how they are reached, and where an installation puts them.
-/

namespace Aic8800.Package

/-- A directory on disk. What lies below it is told by the components of its path. -/
structure Directory where
  /-- The root, or a directory above it, is a symbolic link. -/
  linked : Bool
  entries : List (List Str × Node)
  once : (entries.map Prod.fst).Nodup
  named : ∀ entry ∈ entries,
    entry.1 ≠ [] ∧ ∀ part ∈ entry.1, IsPart part ∧ part ≠ ['.', '.']
  nested : ∀ entry ∈ entries, ∀ n < entry.1.length, 0 < n → (entry.1.take n, Node.dir) ∈ entries

namespace Directory

/-- What `rglob("*")` finds, with the names of `relative_to(root).as_posix()`. -/
def root (d : Directory) : Root := ⟨d.entries.map fun entry => (joinPath entry.1, entry.2)⟩

end Directory

/-- The `dict` that `verify` returns. -/
def Record.toJson (record : Record) : Json :=
  .obj
    [("build".toList, record.build.toJson),
      ("files".toList, .obj (record.files.map fun entry => (entry.1, .str entry.2))),
      ("payload_sha256".toList, .str record.payloadSha256), ("schema_version".toList, .int 1)]

namespace Directory

variable {d : Directory} {name : Str} {data : Bytes}

end Directory

/-! ## What is verified -/

section Vouched

variable {lib : Library} {d : Directory} {record : Record} {build : Build} {sums : Bytes}
  {expected : List (Str × Str)}

end Vouched

namespace Sample

/-- The files of a package in order, but for the list of them. -/
def files : Files :=
  [("LICENSE".toList, []), ("NOTICE.md".toList, []), ("README.release.md".toList, []),
    ("VERSION".toList, encode "1.0.0\n".toList), ("build.json".toList, text identity.toJson),
    ("firmware/aic8800D80/fw.bin".toList, []), ("modules-load/aic8800.conf".toList, []),
    (modulePrefix ++ "aic8800_fdrv.ko.zst".toList, compressed fdrv),
    (modulePrefix ++ "aic_load_fw.ko.zst".toList, compressed loadFw),
    ("native.json".toList, text (native archive)), ("scripts/collect_diagnostics.sh".toList, []),
    ("scripts/install_prebuilt.sh".toList, []), ("scripts/verify_package.py".toList, []),
    ("udev/aic.rules".toList, [])]

/-- The list of them. -/
def sums : Bytes :=
  encode (files.flatMap fun item => library.digest item.2 ++ [' ', ' '] ++ item.1 ++ ['\n'])

instance (part : Str) : Decidable (IsPart part) :=
  decidable_of_iff (part ≠ [] ∧ part ≠ ['.'] ∧ '/' ∉ part)
    ⟨fun ⟨nonempty, notDot, noSlash⟩ => ⟨nonempty, notDot, noSlash⟩,
      fun part => ⟨part.nonempty, part.notDot, part.noSlash⟩⟩

/-- SHA-256 of the list -/
def sumsSha : Nat := 0x27e2c0f7b9b1d6d1634ef18afcf71c04cf9ce1a45f6aaf3820ab17dae7e731d8

def emptySha : Str :=
  hex 64 0xe3b0c44298fc1c149afbf4c8996fb92427ae41e4649b934ca495991b7852b855

/-- What the verifier says of the package. -/
def record : Record where
  build := identity
  payloadSha256 := hex 64 sumsSha
  files :=
    [("etc/modules-load.d/aic8800.conf".toList, emptySha),
      ("lib/firmware/aic8800D80/fw.bin".toList, emptySha),
      ("lib/modules/".toList ++ kernel ++ "/updates/dkms/aic8800_fdrv.ko.zst".toList,
        hex 64 0xfd9d6b516a1b4e8b87ff50c3bef44169e78a0bb38e4041a75621b1ca82fd6c99),
      ("lib/modules/".toList ++ kernel ++ "/updates/dkms/aic_load_fw.ko.zst".toList,
        hex 64 0x4758ce7b01dd237564e9786d2bf4c8a5282d8cce136ad7808f7fed055b56cc01),
      ("usr/lib/udev/rules.d/aic.rules".toList, emptySha)]

end Sample

end Aic8800.Package
