import Aic8800.Package.Verify

/-! # The facts of a prebuilt module

`native_module` of `build_package.py` decompresses a kernel module and reads its
`.modinfo` from the ELF sections.
-/

namespace Aic8800.Package

/-- A little-endian number of `n` bytes at the offset `at`. -/
def unpack (n : Nat) (data : Bytes) (offset : Nat) : Nat :=
  ((data.drop offset).take n).foldr (fun b rest => b.toNat + 256 * rest) 0

def slice (data : Bytes) (offset size : Nat) : Bytes := (data.drop offset).take size

/-- Of a section header the fields that are read. -/
structure Section where
  name : Nat
  offset : Nat
  size : Nat

def readSection (data : Bytes) (start : Nat) : Section :=
  ⟨unpack 4 data start, unpack 8 data (start + 24), unpack 8 data (start + 32)⟩

/-- The section headers and the string table with their names. -/
def readSections (data : Bytes) : Option (List Section × Bytes) :=
  let offset := unpack 8 data 40
  let size := unpack 2 data 58
  let count := unpack 2 data 60
  let namesIndex := unpack 2 data 62
  if size = 64 ∧ 0 < namesIndex ∧ namesIndex < count ∧ offset + count * size ≤ data.length then
    let sections := (List.range count).map fun i => readSection data (offset + i * size)
    (sections[namesIndex]?).bind fun names =>
      if names.offset + names.size ≤ data.length then
        some (sections, slice data names.offset names.size)
      else none
  else none

/-- The records of one section, if it is a `.modinfo`. -/
def modinfoOf (data stringTable : Bytes) (s : Section) : Option (List Bytes) :=
  if s.name < stringTable.length then
    if (stringTable.drop s.name).takeWhile (· != 0) = encode ".modinfo".toList then
      if s.offset + s.size ≤ data.length then some ((slice data s.offset s.size).splitOn 0) else none
    else some []
  else none

/-- The one value of the key among the records. -/
def modinfoValue (records : List Bytes) (key : Str) : Option Str :=
  let start := encode (key ++ ['='])
  ((records.filter start.isPrefixOf).mapM fun item => decodeAscii (item.drop start.length)).bind
    fun
      | [value] => some value
      | _ => none

structure Facts where
  name : Str
  version : Str
  srcversion : Str
  vermagic : Str
  elfSha256 : Str
  elfBytes : Nat
  compressedSha256 : Str

def Facts.toJson (f : Facts) : Json :=
  .obj
    [("architecture".toList, .str architecture), ("compressed_sha256".toList, .str f.compressedSha256),
      ("elf_bytes".toList, .int f.elfBytes), ("elf_sha256".toList, .str f.elfSha256),
      ("name".toList, .str f.name), ("srcversion".toList, .str f.srcversion),
      ("vermagic".toList, .str f.vermagic), ("version".toList, .str f.version)]

def nativeModule (lib : Library) (compressed : Bytes) : Option Facts :=
  (lib.decompress compressed).bind fun data =>
    if 64 ≤ data.length ∧ data.take 6 = [0x7f, 0x45, 0x4c, 0x46, 0x02, 0x01] ∧
        unpack 2 data 16 = 1 ∧ unpack 2 data 18 = 62 then
      (readSections data).bind fun (sections, stringTable) =>
        (sections.mapM (modinfoOf data stringTable)).bind fun parts =>
          let records := parts.flatten
          (modinfoValue records "name".toList).bind fun name =>
            (modinfoValue records "version".toList).bind fun version =>
              (modinfoValue records "srcversion".toList).bind fun srcversion =>
                (modinfoValue records "vermagic".toList).bind fun vermagic =>
                  if (kernel ++ [' ']).isPrefixOf vermagic then
                    some
                      { name, version, srcversion, vermagic, elfSha256 := lib.digest data
                        elfBytes := data.length, compressedSha256 := lib.digest compressed }
                  else none
    else none

/-- What the verifier will ask of the facts. -/
theorem nativeModule_facts {lib : Library} {compressed : Bytes} {f : Facts}
    (h : nativeModule lib compressed = some f) :
    f.compressedSha256 = lib.digest compressed ∧ (kernel ++ [' ']).isPrefixOf f.vermagic = true := by
  simp only [nativeModule] at h
  obtain ⟨data, -, h⟩ := Option.bind_eq_some_iff.mp h
  rw [Option.ite_none_right_eq_some] at h
  obtain ⟨-, h⟩ := h
  obtain ⟨⟨sections, stringTable⟩, -, h⟩ := Option.bind_eq_some_iff.mp h
  obtain ⟨parts, -, h⟩ := Option.bind_eq_some_iff.mp h
  obtain ⟨name, -, h⟩ := Option.bind_eq_some_iff.mp h
  obtain ⟨version, -, h⟩ := Option.bind_eq_some_iff.mp h
  obtain ⟨srcversion, -, h⟩ := Option.bind_eq_some_iff.mp h
  obtain ⟨vermagic, -, h⟩ := Option.bind_eq_some_iff.mp h
  rw [Option.ite_none_right_eq_some] at h
  obtain ⟨target, h⟩ := h
  obtain rfl := Option.some.inj h
  exact ⟨rfl, target⟩

end Aic8800.Package
