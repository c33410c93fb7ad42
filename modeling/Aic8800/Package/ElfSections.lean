import Aic8800.Lib.Runs
import Aic8800.Package.NativeModule
import Mathlib

/-! # Which bytes of a module are read

Here `native_module` is taken step by step from the decompressed bytes on. Every range of the file
that is unpacked or sliced is noted, as Python asks for it: a slice is cut short where the file
ends, `struct.unpack_from` raises `struct.error`. The first error ends it.
-/

namespace Aic8800.Package.ElfSections

open Lib Runs

inductive PyError where
  | valueError (message : Str)
  | unicodeDecodeError
  | structError
  | indexError
  deriving DecidableEq

/-- Bytes that were asked for. -/
structure Range where
  start : Nat
  stop : Nat
  deriving DecidableEq

def Range.Inside (r : Range) (data : Bytes) : Prop := r.start ≤ r.stop ∧ r.stop ≤ data.length

/-- Python code that reads the file. -/
abbrev Reader := ExceptT PyError (StateM (List Range))

/-- `if c: raise e` -/
def raiseIf (c : Prop) [Decidable c] (e : PyError) : Reader Unit := if c then throw e else return ()

def touch (r : Range) : Reader Unit := modify (r :: ·)

def unpackFields (data : Bytes) : List Nat → Nat → List Nat
  | [], _ => []
  | width :: format, offset => unpack width data offset :: unpackFields data format (offset + width)

/-- `struct.unpack_from`, of unsigned numbers of these widths -/
def unpackFrom (data : Bytes) (format : List Nat) (offset : Nat) : Reader (List Nat) := do
  raiseIf (data.length < offset + format.sum) .structError
  touch ⟨offset, offset + format.sum⟩
  return unpackFields data format offset

/-- `data[start:stop]`, where `data` begins at `base` in the file -/
def pySlice (base : Nat) (data : Bytes) (start stop : Nat) : Reader Bytes := do
  touch ⟨base + start, base + stop⟩
  return slice data start (stop - start)

def decode (data : Bytes) : Reader Str :=
  match decodeAscii data with
  | some text => return text
  | none => throw .unicodeDecodeError

/-- `"<IIQQQQIIQQ"` -/
def sectionFormat : List Nat := [4, 4, 8, 8, 8, 8, 4, 4, 8, 8]

def notElf : PyError := .valueError "预编译模块必须是真实 x86_64 ELF 可重定位对象".toList

def checkMagic (data : Bytes) : Reader Unit := do
  raiseIf (data.length < 64) notElf
  let ident ← pySlice 0 data 0 6
  raiseIf (ident ≠ [0x7f, 0x45, 0x4c, 0x46, 0x02, 0x01]) notElf
  let kind ← unpackFrom data [2, 2] 16
  raiseIf (kind ≠ [1, 62]) notElf

/-- The section headers, and the one of the names. -/
def sectionTable (data : Bytes) : Reader (List (List Nat) × List Nat) := do
  let offset := (← unpackFrom data [8] 40).getD 0 0
  let header ← unpackFrom data [2, 2, 2] 58
  let size := header.getD 0 0
  let count := header.getD 1 0
  let namesIndex := header.getD 2 0
  raiseIf
    (size ≠ 64 ∨ ¬(0 < namesIndex ∧ namesIndex < count) ∨ data.length < offset + count * size)
    (.valueError "ELF section 表越界".toList)
  let sections ← (List.range count).mapM fun i => unpackFrom data sectionFormat (offset + i * size)
  match sections[namesIndex]? with
  | none => throw .indexError
  | some names => return (sections, names)

/-- The bytes of a section, which the error tells of when they are not in the file. -/
def sectionBytes (data : Bytes) (s : List Nat) (message : Str) : Reader Bytes := do
  raiseIf (data.length < s.getD 4 0 + s.getD 5 0) (.valueError message)
  pySlice 0 data (s.getD 4 0) (s.getD 4 0 + s.getD 5 0)

/-- The records of one section. The name ends with a zero byte or with the string table. -/
def sectionRecords (data stringTable : Bytes) (base : Nat) (s : List Nat) :
    Reader (List Bytes) := do
  raiseIf (stringTable.length ≤ s.getD 0 0) (.valueError "ELF section 名越界".toList)
  let rest ← pySlice base stringTable (s.getD 0 0) stringTable.length
  if rest.takeWhile (· != 0) = encode ".modinfo".toList then
    let bytes ← sectionBytes data s "ELF modinfo 越界".toList
    return bytes.splitOn 0
  else return []

/-- The one value of the key. -/
def fact (records : List Bytes) (key : Str) : Reader (Str × Str) := do
  let start := encode (key ++ ['='])
  let values ← (records.filter start.isPrefixOf).mapM fun item => decode (item.drop start.length)
  match values with
  | [value] => return (key, value)
  | _ => throw (.valueError ("内核模块字段缺失或不唯一：".toList ++ key))

def keys : List Str :=
  ["name".toList, "version".toList, "srcversion".toList, "vermagic".toList]

/-- `native_module`, from where it has decompressed the module to where it has the facts. -/
def nativeModule (data : Bytes) : Reader (List (Str × Str)) := do
  checkMagic data
  let (sections, names) ← sectionTable data
  let stringTable ← sectionBytes data names "ELF 字符串表越界".toList
  let records ← sections.mapM (sectionRecords data stringTable (names.getD 4 0))
  let facts ← keys.mapM (fact records.flatten)
  raiseIf ((kernel ++ [' ']).isPrefixOf ((facts.lookup "vermagic".toList).getD []) = false)
    (.valueError "实际内核模块 vermagic 与目标不一致".toList)
  return facts

/-- What comes of it, and what was read. -/
def readModule (data : Bytes) : Except PyError (List (Str × Str)) × List Range :=
  (nativeModule data).run.run []

/-! ## What the file says -/

/-- The section header `i` of the file. -/
def header (data : Bytes) (i : Nat) : Section := readSection data (unpack 8 data 40 + i * 64)

/-- The string table with the names of the sections. -/
def stringTable (data : Bytes) : Bytes :=
  slice data (header data (unpack 2 data 62)).offset (header data (unpack 2 data 62)).size

/-- The file has a section `i` that is named exactly `.modinfo`. -/
structure ModinfoSection (data : Bytes) (i : Nat) : Prop where
  there : i < unpack 2 data 60
  name : ((stringTable data).drop (header data i).name).takeWhile (· != 0) =
    encode ".modinfo".toList

/-- In a section `.modinfo`, at the place `p`, there is a string that begins with the key. -/
structure Occurs (data : Bytes) (key : Str) (i p : Nat) (value : Bytes) : Prop where
  modinfo : ModinfoSection data i
  string : IsRun 0 (slice data (header data i).offset (header data i).size) p
    (encode (key ++ ['=']) ++ value)

/-- What is reported for a key is its only occurrence, which is inside the file. -/
def Reported (data : Bytes) (key value : Str) : Prop :=
  ∃ i p text, Occurs data key i p text ∧ decodeAscii text = some value ∧
    (header data i).offset + (header data i).size ≤ data.length ∧
    ∀ i' p' text', Occurs data key i' p' text' → i' = i ∧ p' = p ∧ text' = text

/-- The only errors are those that the caller takes for a bad module. A `UnicodeDecodeError` is a
    `ValueError` as well. -/
def PyError.Expected : PyError → Prop
  | .valueError _ | .unicodeDecodeError => True
  | .structError | .indexError => False

/-! ## Reading within the file -/

/-- The code reads inside the file only, raises what is expected, and otherwise returns something
    good. -/
def Reads {α : Type} (data : Bytes) (m : Reader α) (good : α → Prop) : Prop :=
  ∀ log : List Range, (∀ r ∈ log, r.Inside data) →
    (∀ r ∈ (m.run.run log).2, r.Inside data) ∧
      match (m.run.run log).1 with
      | .ok a => good a
      | .error e => e.Expected

section Reading

variable {α β : Type} {data : Bytes} {m : Reader α} {good : α → Prop} {good' : β → Prop}

theorem Reads.pure {a : α} (h : good a) : Reads data (return a) good :=
  fun _ inside => ⟨inside, h⟩

theorem Reads.raise {e : PyError} (h : e.Expected) : Reads data (throw e : Reader α) good :=
  fun _ inside => ⟨inside, h⟩

theorem run_bind {f : α → Reader β} {log : List Range} :
    (m >>= f).run.run log = match m.run.run log with
      | (.ok a, log) => (f a).run.run log
      | (.error e, log) => (.error e, log) := by
  rw [ExceptT.run_bind, StateT.run_bind]
  cases m.run.run log with
  | mk result log =>
      cases result with
      | ok a => rfl
      | error e => rfl

theorem Reads.bind {f : α → Reader β} (h : Reads data m good)
    (next : ∀ a, good a → Reads data (f a) good') : Reads data (m >>= f) good' := by
  intro log inside
  obtain ⟨inside', outcome⟩ := h log inside
  rw [run_bind]
  cases done : m.run.run log with
  | mk result log' =>
      rw [done] at inside' outcome
      cases result with
      | ok a => exact next a outcome log' inside'
      | error e => exact ⟨inside', outcome⟩

theorem Reads.mono (h : Reads data m good) {good' : α → Prop} (weaker : ∀ a, good a → good' a) :
    Reads data m good' := by
  intro log inside
  obtain ⟨inside', outcome⟩ := h log inside
  refine ⟨inside', ?_⟩
  cases result : (m.run.run log).1 with
  | ok a =>
      rw [result] at outcome
      exact weaker a outcome
  | error e =>
      rw [result] at outcome
      exact outcome

theorem Reads.touch {r : Range} (h : r.Inside data) : Reads data (touch r) fun _ => True := by
  intro log inside
  refine ⟨?_, trivial⟩
  show ∀ r' ∈ r :: log, r'.Inside data
  exact List.forall_mem_cons.mpr ⟨h, inside⟩

theorem Reads.raiseIf {c : Prop} [Decidable c] {e : PyError} (expected : c → e.Expected) :
    Reads data (raiseIf c e) fun _ => ¬c := by
  unfold ElfSections.raiseIf
  split
  · exact .raise (expected ‹_›)
  · exact .pure ‹_›

theorem Reads.unpackFrom {format : List Nat} {offset : Nat}
    (inside : offset + format.sum ≤ data.length) :
    Reads data (unpackFrom data format offset) fun fields =>
      fields = unpackFields data format offset := by
  refine .bind (.raiseIf fun outside => absurd inside (Nat.not_le_of_lt outside)) fun _ _ => ?_
  exact .bind (.touch ⟨Nat.le_add_right _ _, inside⟩) fun _ _ => .pure rfl

theorem Reads.pySlice {base start stop : Nat} {xs : Bytes} (order : start ≤ stop)
    (inside : base + stop ≤ data.length) :
    Reads data (pySlice base xs start stop) fun bytes => bytes = slice xs start (stop - start) :=
  .bind (.touch ⟨Nat.add_le_add_left order base, inside⟩) fun _ _ => .pure rfl

/-- A list is gone through, and something good comes of each of its elements. -/
theorem Reads.mapM {f : α → Reader β} {good : α → β → Prop} (xs : List α)
    (each : ∀ x ∈ xs, Reads data (f x) (good x)) :
    Reads data (xs.mapM f) fun ys => List.Forall₂ good xs ys := by
  induction xs with
  | nil => exact .pure .nil
  | cons x xs ih =>
      rw [List.forall_mem_cons] at each
      rw [List.mapM_cons]
      refine .bind each.1 fun y here => ?_
      exact .bind (ih each.2) fun ys rest => .pure (.cons here rest)

theorem eq_map_of_forall₂ {g : α → β} {xs : List α} {ys : List β}
    (h : List.Forall₂ (fun x y => y = g x) xs ys) : ys = xs.map g := by
  induction h with
  | nil => rfl
  | cons here _ ih => rw [here, ih, List.map_cons]

theorem forall₂_left {good : α → β → Prop} {xs : List α} {ys : List β}
    (h : List.Forall₂ good xs ys) : ∀ x ∈ xs, ∃ y, good x y := by
  induction h with
  | nil => exact nofun
  | cons here _ ih => exact List.forall_mem_cons.mpr ⟨⟨_, here⟩, ih⟩

theorem forall₂_right {good : α → β → Prop} {xs : List α} {ys : List β}
    (h : List.Forall₂ good xs ys) : ∀ y ∈ ys, ∃ x, good x y := by
  induction h with
  | nil => exact nofun
  | cons here _ ih => exact List.forall_mem_cons.mpr ⟨⟨_, here⟩, ih⟩

end Reading

section Module

variable {data : Bytes}

theorem reads_checkMagic (data : Bytes) :
    Reads data (checkMagic data) fun _ => 64 ≤ data.length := by
  refine .bind (.raiseIf fun _ => trivial) fun _ long => ?_
  have long := Nat.le_of_not_lt long
  refine .bind (.pySlice (Nat.zero_le _) (by omega)) fun ident _ => ?_
  refine .bind (.raiseIf fun _ => trivial) fun _ _ => ?_
  refine .bind (.unpackFrom (show 16 + 4 ≤ data.length by omega)) fun kind _ => ?_
  have relocatable : Reads data (raiseIf (kind ≠ [1, 62]) notElf) fun _ => ¬kind ≠ [1, 62] :=
    .raiseIf fun _ => trivial
  exact relocatable.mono fun _ _ => long

/-- The fields of the section header `i`. -/
def sectionFields (data : Bytes) (i : Nat) : List Nat :=
  unpackFields data sectionFormat (unpack 8 data 40 + i * 64)

/-- The section header of the names, among all of them -/
theorem sections_names (index : unpack 2 data 62 < unpack 2 data 60) :
    ((List.range (unpack 2 data 60)).map (sectionFields data))[unpack 2 data 62]? =
      some (sectionFields data (unpack 2 data 62)) := by
  rw [List.getElem?_map, List.getElem?_range index]
  rfl

theorem reads_sectionTable (long : 64 ≤ data.length) :
    Reads data (sectionTable data) fun table => unpack 2 data 62 < unpack 2 data 60 ∧
      table = ((List.range (unpack 2 data 60)).map (sectionFields data),
        sectionFields data (unpack 2 data 62)) := by
  refine .bind (.unpackFrom (show 40 + 8 ≤ data.length by omega)) ?_
  rintro _ rfl
  refine .bind (.unpackFrom (show 58 + 6 ≤ data.length by omega)) ?_
  rintro _ rfl
  refine .bind (.raiseIf fun _ => trivial) fun _ fits => ?_
  rw [not_or, not_or, not_not, not_not] at fits
  obtain ⟨size, ⟨-, index⟩, fits⟩ := fits
  have size : unpack 2 data 58 = 64 := size
  have index : unpack 2 data 62 < unpack 2 data 60 := index
  have fits : unpack 8 data 40 + unpack 2 data 60 * unpack 2 data 58 ≤ data.length :=
    Nat.le_of_not_lt fits
  refine .bind (.mapM _ fun i member => .unpackFrom ?_) fun sections each => ?_
  · have below := List.mem_range.mp member
    have product : (i + 1) * 64 ≤ unpack 2 data 60 * 64 := Nat.mul_le_mul_right 64 below
    rw [size] at fits
    show unpack 8 data 40 + i * unpack 2 data 58 + 64 ≤ data.length
    rw [size]
    omega
  · have table : sections = (List.range (unpack 2 data 60)).map (sectionFields data) := by
      rw [eq_map_of_forall₂ each]
      apply List.map_congr_left
      intro i _
      show unpackFields data sectionFormat (unpack 8 data 40 + i * unpack 2 data 58) = _
      rw [size]
      rfl
    have names : sections[unpack 2 data 62]? = some (sectionFields data (unpack 2 data 62)) := by
      rw [table, sections_names index]
    show Reads data (match sections[unpack 2 data 62]? with
      | none => throw .indexError
      | some names => return (sections, names)) _
    rw [names]
    exact .pure ⟨index, by rw [table]⟩

theorem reads_sectionBytes (s : List Nat) (message : Str) :
    Reads data (sectionBytes data s message) fun bytes =>
      s.getD 4 0 + s.getD 5 0 ≤ data.length ∧ bytes = slice data (s.getD 4 0) (s.getD 5 0) := by
  refine .bind (.raiseIf fun _ => trivial) fun _ fits => ?_
  have fits := Nat.le_of_not_lt fits
  refine (Reads.pySlice (Nat.le_add_right _ _) (by omega)).mono ?_
  rintro bytes rfl
  exact ⟨fits, by rw [Nat.add_sub_cancel_left]⟩

/-- The name of the section `i` is the one that is looked for. -/
def Named (data : Bytes) (i : Nat) : Prop :=
  ((stringTable data).drop (header data i).name).takeWhile (· != 0) = encode ".modinfo".toList

instance (data : Bytes) (i : Nat) : Decidable (Named data i) := inferInstanceAs (Decidable (_ = _))

/-- The records of the section `i`. -/
def recordsOf (data : Bytes) (i : Nat) : List Bytes :=
  if Named data i then (slice data (header data i).offset (header data i).size).splitOn 0 else []

theorem reads_sectionRecords {base : Nat} (inside : base + (stringTable data).length ≤ data.length)
    (i : Nat) : Reads data (sectionRecords data (stringTable data) base (sectionFields data i))
      fun records => records = recordsOf data i ∧
        (Named data i → (header data i).offset + (header data i).size ≤ data.length) := by
  refine .bind (.raiseIf fun _ => trivial) fun _ below => ?_
  have below := Nat.lt_of_not_le below
  refine .bind (.pySlice (Nat.le_of_lt below) inside) ?_
  rintro rest rfl
  have whole : slice (stringTable data) ((sectionFields data i).getD 0 0)
      ((stringTable data).length - (sectionFields data i).getD 0 0) =
        (stringTable data).drop (header data i).name := by
    rw [slice, ← List.length_drop, List.take_length]
    rfl
  rw [whole]
  split
  · rename_i named
    refine .bind (reads_sectionBytes _ _) ?_
    rintro bytes ⟨fits, rfl⟩
    have records : recordsOf data i = _ := if_pos named
    exact .pure ⟨records.symm, fun _ => fits⟩
  · rename_i other
    have records : recordsOf data i = _ := if_neg other
    exact .pure ⟨records.symm, fun named => absurd named other⟩

theorem reads_decode (bytes : Bytes) :
    Reads data (decode bytes) fun text => decodeAscii bytes = some text := by
  unfold decode
  cases decodeAscii bytes with
  | none => exact .raise trivial
  | some text => exact .pure rfl

theorem reads_fact (records : List Bytes) (key : Str) :
    Reads data (fact records key) fun entry => entry.1 = key ∧
      ∃ item, records.filter (encode (key ++ ['='])).isPrefixOf = [item] ∧
        decodeAscii (item.drop (encode (key ++ ['='])).length) = some entry.2 := by
  refine .bind (.mapM _ fun item _ => reads_decode _) fun values each => ?_
  generalize records.filter (encode (key ++ ['='])).isPrefixOf = items at each ⊢
  cases each with
  | nil => exact .raise trivial
  | cons here rest =>
      cases rest with
      | nil => exact .pure ⟨rfl, _, rfl, here⟩
      | cons _ _ => exact .raise trivial

/-! ## What is reported -/

/-- The records of all sections, with their sections and places. -/
def places (data : Bytes) : List (Nat × Nat × Bytes) :=
  (List.range (unpack 2 data 60)).flatMap fun i =>
    if Named data i then
      (runs 0 0 (slice data (header data i).offset (header data i).size)).map fun r => (i, r)
    else []

theorem places_records (data : Bytes) : (places data).map (fun place => place.2.2) =
    ((List.range (unpack 2 data 60)).map (recordsOf data)).flatten := by
  rw [places, List.map_flatMap, List.flatMap]
  congr 1
  apply List.map_congr_left
  intro i _
  unfold recordsOf
  split
  · rw [List.map_map, ← runs_snd 0 0]
    rfl
  · rfl

theorem mem_places {i p : Nat} {s : Bytes} : (i, p, s) ∈ places data ↔
    ModinfoSection data i ∧ IsRun 0 (slice data (header data i).offset (header data i).size) p s := by
  rw [places, List.mem_flatMap]
  constructor
  · rintro ⟨j, below, member⟩
    split at member
    · rename_i named
      obtain ⟨r, there, same⟩ := List.mem_map.mp member
      obtain ⟨rfl, rfl⟩ := Prod.mk.inj same
      rw [← Nat.zero_add p, mem_runs] at there
      exact ⟨⟨List.mem_range.mp below, named⟩, there⟩
    · cases member
  · rintro ⟨modinfo, run⟩
    refine ⟨i, List.mem_range.mpr modinfo.there, ?_⟩
    have named : Named data i := modinfo.name
    rw [if_pos named]
    refine List.mem_map.mpr ⟨(p, s), ?_, rfl⟩
    rw [← Nat.zero_add p, mem_runs]
    exact run

/-- The only record that begins with the key is the only occurrence of the key. -/
theorem reported {key value : Str} {item : Bytes}
    (inside : ∀ i < unpack 2 data 60, Named data i →
      (header data i).offset + (header data i).size ≤ data.length)
    (only : ((List.range (unpack 2 data 60)).map (recordsOf data)).flatten.filter
      (encode (key ++ ['='])).isPrefixOf = [item])
    (decoded : decodeAscii (item.drop (encode (key ++ ['='])).length) = some value) :
    Reported data key value := by
  rw [← places_records, List.filter_map, List.map_eq_singleton_iff] at only
  obtain ⟨⟨i, p, string⟩, single, same⟩ := only
  obtain rfl : string = item := same
  have begins : ∀ place, (place ∈ places data ∧
      (encode (key ++ ['='])).isPrefixOf place.2.2 = true) ↔ place = (i, p, string) := by
    intro place
    have filtered : place ∈ [(i, p, string)] ↔ place ∈ places data ∧
        (encode (key ++ ['='])).isPrefixOf place.2.2 = true := by
      rw [← single, List.mem_filter]
      rfl
    exact filtered.symm.trans List.mem_singleton
  obtain ⟨there, start⟩ := (begins (i, p, string)).mpr rfl
  obtain ⟨modinfo, run⟩ := mem_places.mp there
  obtain ⟨text, whole⟩ := List.isPrefixOf_iff_prefix.mp start
  dsimp only at whole
  subst whole
  rw [List.drop_left] at decoded
  refine ⟨i, p, text, ⟨modinfo, run⟩, decoded, inside i modinfo.there modinfo.name, ?_⟩
  intro i' p' text' occurs
  have other := (begins (i', p', encode (key ++ ['=']) ++ text')).mp
    ⟨mem_places.mpr ⟨occurs.modinfo, occurs.string⟩, List.isPrefixOf_iff_prefix.mpr ⟨text', rfl⟩⟩
  obtain ⟨rfl, rest⟩ := Prod.mk.inj other
  obtain ⟨rfl, same⟩ := Prod.mk.inj rest
  exact ⟨rfl, rfl, List.append_cancel_left same⟩

theorem reads_nativeModule (data : Bytes) : Reads data (nativeModule data) fun facts =>
    facts.map Prod.fst = keys ∧ ∀ entry ∈ facts, Reported data entry.1 entry.2 := by
  refine .bind (reads_checkMagic data) fun _ long => ?_
  refine .bind (reads_sectionTable long) ?_
  rintro _ ⟨index, rfl⟩
  refine .bind (reads_sectionBytes _ _) ?_
  rintro table ⟨fits, rfl⟩
  have inTable : (header data (unpack 2 data 62)).offset + (stringTable data).length ≤
      data.length := by
    have length : (stringTable data).length ≤ (header data (unpack 2 data 62)).size :=
      List.length_take_le _ _
    exact (Nat.add_le_add_left length _).trans fits
  have records : Reads data (((List.range (unpack 2 data 60)).map (sectionFields data)).mapM
      (sectionRecords data (stringTable data) (header data (unpack 2 data 62)).offset)) fun parts =>
        List.Forall₂ (fun i records => records = recordsOf data i ∧
          (Named data i → (header data i).offset + (header data i).size ≤ data.length))
            (List.range (unpack 2 data 60)) parts := by
    rw [List.mapM_map]
    exact .mapM _ fun i _ => reads_sectionRecords inTable i
  refine .bind records fun parts each => ?_
  have inside : ∀ i < unpack 2 data 60, Named data i →
      (header data i).offset + (header data i).size ≤ data.length := by
    intro i below
    obtain ⟨_, -, fits⟩ := forall₂_left each i (List.mem_range.mpr below)
    exact fits
  have parts_eq : parts = (List.range (unpack 2 data 60)).map (recordsOf data) :=
    eq_map_of_forall₂ (each.imp fun _ _ both => both.1)
  refine .bind (.mapM keys fun key _ => reads_fact _ key) fun facts found => ?_
  refine .bind (.raiseIf fun _ => trivial) fun _ _ => .pure ?_
  rw [parts_eq] at found
  constructor
  · have names := found.imp fun _ _ both => both.1.symm
    exact (eq_map_of_forall₂ names.flip).symm
  · intro entry member
    obtain ⟨key, rfl, item, only, decoded⟩ := forall₂_right found entry member
    exact reported inside only decoded

end Module

/-- For any bytes, what is read is in the file, what is raised is expected, and what is reported
    for each key is the only string of the sections named `.modinfo` that begins with it. -/
theorem readModule_bounds (data : Bytes) :
    (∀ r ∈ (readModule data).2, r.Inside data) ∧
      match (readModule data).1 with
      | .error e => e.Expected
      | .ok facts => facts.map Prod.fst = keys ∧ ∀ entry ∈ facts, Reported data entry.1 entry.2 := by
  obtain ⟨inside, outcome⟩ := reads_nativeModule data [] nofun
  refine ⟨inside, ?_⟩
  unfold readModule
  split
  · rename_i e raised
    rw [raised] at outcome
    exact outcome
  · rename_i facts returned
    rw [returned] at outcome
    exact outcome

/-! ## The facts that the builder takes -/

/-- What comes of the code, if no error is raised, whatever has been read before -/
def Gives {α : Type} (m : Reader α) (o : Option α) : Prop :=
  ∀ log : List Range, (m.run.run log).1.toOption = o

section Giving

variable {α β : Type} {m : Reader α} {o : Option α} {f : α → Reader β} {o' : Option β}

theorem Gives.pure (a : α) : Gives (return a) (some a) := fun _ => rfl

theorem Gives.raise (e : PyError) : Gives (throw e : Reader α) none := fun _ => rfl

theorem Gives.bind {g : α → Option β} (h : Gives m o)
    (next : ∀ a, o = some a → Gives (f a) (g a)) : Gives (m >>= f) (o.bind g) := by
  intro log
  have first := h log
  rw [run_bind]
  cases done : m.run.run log with
  | mk result log' =>
      rw [done] at first
      subst first
      cases result with
      | ok a => exact next a rfl log'
      | error e => rfl

/-- A part that raises no error -/
theorem Gives.after {a : α} (h : Gives m (some a)) (next : Gives (f a) o') : Gives (m >>= f) o' := by
  refine @Gives.bind _ _ _ _ _ (fun _ => o') h fun b same => ?_
  obtain rfl := Option.some.inj same
  exact next

theorem Gives.unless {c : Prop} [Decidable c] {e : PyError} {f : Unit → Reader β}
    (next : ¬c → Gives (f ()) o') : Gives (raiseIf c e >>= f) (if c then none else o') := by
  unfold raiseIf
  split
  · exact fun _ => rfl
  · rename_i passed
    exact .after (.pure ()) (next passed)

theorem Gives.mapM {g : α → Option β} (xs : List α) (each : ∀ x ∈ xs, Gives (f x) (g x)) :
    Gives (xs.mapM f) (xs.mapM g) := by
  induction xs with
  | nil => exact .pure []
  | cons x xs ih =>
      rw [List.forall_mem_cons] at each
      rw [List.mapM_cons, List.mapM_cons]
      exact .bind each.1 fun y _ => .bind (ih each.2) fun ys _ => .pure (y :: ys)

theorem Gives.unpackFrom {data : Bytes} {format : List Nat} {offset : Nat}
    (inside : offset + format.sum ≤ data.length) :
    Gives (unpackFrom data format offset) (some (unpackFields data format offset)) := by
  have passed : Gives (ElfSections.unpackFrom data format offset)
      (if data.length < offset + format.sum then none
        else some (unpackFields data format offset)) :=
    .unless fun _ => .after (fun _ => rfl) (.pure _)
  rwa [if_neg (Nat.not_lt.mpr inside)] at passed

theorem Gives.pySlice {data : Bytes} {base start stop : Nat} :
    Gives (pySlice base data start stop) (some (slice data start (stop - start))) :=
  .after (fun _ => rfl) (.pure _)

end Giving

section Facts

variable {data : Bytes}

theorem Gives.raiseIf {c : Prop} [Decidable c] {e : PyError} :
    Gives (raiseIf c e) (if c then none else some ()) := by
  unfold ElfSections.raiseIf
  split
  · exact .raise e
  · exact .pure ()

theorem gives_checkMagic (data : Bytes) : Gives (checkMagic data)
    (if 64 ≤ data.length ∧ data.take 6 = [0x7f, 0x45, 0x4c, 0x46, 0x02, 0x01] ∧
        unpack 2 data 16 = 1 ∧ unpack 2 data 18 = 62 then some () else none) := by
  have steps : Gives (checkMagic data) (if data.length < 64 then none
      else if data.take 6 ≠ [0x7f, 0x45, 0x4c, 0x46, 0x02, 0x01] then none
      else if [unpack 2 data 16, unpack 2 data 18] ≠ [1, 62] then none else some ()) := by
    refine .unless fun long => .after .pySlice (.unless fun _ => ?_)
    exact .after (.unpackFrom (show 16 + 4 ≤ data.length by omega)) .raiseIf
  have kind : [unpack 2 data 16, unpack 2 data 18] = [1, 62] ↔
      unpack 2 data 16 = 1 ∧ unpack 2 data 18 = 62 := by simp
  by_cases long : data.length < 64
  · rw [if_pos long] at steps
    rwa [if_neg fun all => absurd all.1 (Nat.not_le.mpr long)]
  rw [if_neg long] at steps
  by_cases ident : data.take 6 = [0x7f, 0x45, 0x4c, 0x46, 0x02, 0x01]
  · rw [if_neg (not_not.mpr ident)] at steps
    by_cases relocatable : [unpack 2 data 16, unpack 2 data 18] = [1, 62]
    · rw [if_neg (not_not.mpr relocatable)] at steps
      rwa [if_pos ⟨Nat.le_of_not_lt long, ident, kind.mp relocatable⟩]
    · rw [if_pos relocatable] at steps
      rwa [if_neg fun all => relocatable (kind.mpr all.2.2)]
  · rw [if_pos ident] at steps
    rwa [if_neg fun all => ident all.2.1]

/-- The fields of a section header that are looked at -/
def toSection (s : List Nat) : Section := ⟨s.getD 0 0, s.getD 4 0, s.getD 5 0⟩

/-- The section headers are in the file, and the one of the names is among them. -/
def TableFits (data : Bytes) : Prop :=
  unpack 2 data 58 = 64 ∧ 0 < unpack 2 data 62 ∧ unpack 2 data 62 < unpack 2 data 60 ∧
    unpack 8 data 40 + unpack 2 data 60 * unpack 2 data 58 ≤ data.length

instance (data : Bytes) : Decidable (TableFits data) :=
  inferInstanceAs (Decidable (_ ∧ _ ∧ _ ∧ _))

theorem gives_sectionTable (long : 64 ≤ data.length) : Gives (sectionTable data)
    (if TableFits data then some ((List.range (unpack 2 data 60)).map (sectionFields data),
      sectionFields data (unpack 2 data 62)) else none) := by
  have fits : TableFits data ↔ ¬(unpack 2 data 58 ≠ 64 ∨
      ¬(0 < unpack 2 data 62 ∧ unpack 2 data 62 < unpack 2 data 60) ∨
      data.length < unpack 8 data 40 + unpack 2 data 60 * unpack 2 data 58) := by
    unfold TableFits
    omega
  have steps : Gives (sectionTable data) (if unpack 2 data 58 ≠ 64 ∨
      ¬(0 < unpack 2 data 62 ∧ unpack 2 data 62 < unpack 2 data 60) ∨
      data.length < unpack 8 data 40 + unpack 2 data 60 * unpack 2 data 58 then none
    else some ((List.range (unpack 2 data 60)).map (sectionFields data),
      sectionFields data (unpack 2 data 62))) := by
    refine .after (.unpackFrom (show 40 + 8 ≤ data.length by omega)) ?_
    refine .after (.unpackFrom (show 58 + 6 ≤ data.length by omega)) (.unless fun inside => ?_)
    obtain ⟨size, -, index, room⟩ := fits.mpr inside
    have headers : Gives ((List.range (unpack 2 data 60)).mapM fun i =>
        unpackFrom data sectionFormat (unpack 8 data 40 + i * unpack 2 data 58))
          (some ((List.range (unpack 2 data 60)).map (sectionFields data))) := by
      show Gives _ (pure ((List.range (unpack 2 data 60)).map (sectionFields data)))
      rw [← List.mapM_pure]
      refine .mapM _ fun i member => ?_
      have below := List.mem_range.mp member
      have product : (i + 1) * 64 ≤ unpack 2 data 60 * 64 := Nat.mul_le_mul_right 64 below
      rw [size] at room ⊢
      exact .unpackFrom (show unpack 8 data 40 + i * 64 + 64 ≤ data.length by omega)
    refine .after headers ?_
    show Gives (match ((List.range (unpack 2 data 60)).map (sectionFields data))[
        unpack 2 data 62]? with
      | none => throw .indexError
      | some names => return ((List.range (unpack 2 data 60)).map (sectionFields data), names)) _
    rw [sections_names index]
    exact .pure _
  by_cases inside : TableFits data
  · rw [if_neg (fits.mp inside)] at steps
    rwa [if_pos inside]
  · rw [if_pos (not_not.mp (mt fits.mpr inside))] at steps
    rwa [if_neg inside]

theorem gives_sectionBytes (s : List Nat) (message : Str) : Gives (sectionBytes data s message)
    (if (toSection s).offset + (toSection s).size ≤ data.length then
      some (slice data (toSection s).offset (toSection s).size) else none) := by
  have steps : Gives (sectionBytes data s message)
      (if data.length < (toSection s).offset + (toSection s).size then none
        else some (slice data (toSection s).offset
          ((toSection s).offset + (toSection s).size - (toSection s).offset))) :=
    .unless fun _ => .pySlice
  rw [Nat.add_sub_cancel_left] at steps
  by_cases fits : (toSection s).offset + (toSection s).size ≤ data.length
  · rw [if_neg (Nat.not_lt.mpr fits)] at steps
    rwa [if_pos fits]
  · rw [if_pos (Nat.lt_of_not_le fits)] at steps
    rwa [if_neg fits]

theorem gives_sectionRecords (stringTable : Bytes) (base : Nat) (s : List Nat) :
    Gives (sectionRecords data stringTable base s)
      (modinfoOf data stringTable (toSection s)) := by
  have steps : Gives (sectionRecords data stringTable base s)
      (if stringTable.length ≤ (toSection s).name then none
        else if (stringTable.drop (toSection s).name).takeWhile (· != 0) =
            encode ".modinfo".toList then
          (if (toSection s).offset + (toSection s).size ≤ data.length then
            some (slice data (toSection s).offset (toSection s).size) else none).bind
              fun bytes => some (bytes.splitOn 0)
        else some []) := by
    refine .unless fun _ => .after .pySlice ?_
    have whole : slice stringTable (s.getD 0 0) (stringTable.length - s.getD 0 0) =
        stringTable.drop (toSection s).name := by
      rw [slice, ← List.length_drop, List.take_length]
      rfl
    rw [whole]
    split
    · exact .bind (gives_sectionBytes s _) fun bytes _ => .pure _
    · exact .pure []
  unfold modinfoOf
  by_cases inside : (toSection s).name < stringTable.length
  · rw [if_neg (Nat.not_le.mpr inside)] at steps
    rw [if_pos inside]
    split
    · rename_i named
      rw [if_pos named] at steps
      split
      · rename_i fits
        rwa [if_pos fits] at steps
      · rename_i outside
        rwa [if_neg outside] at steps
    · rename_i other
      rwa [if_neg other] at steps
  · rw [if_pos (Nat.le_of_not_lt inside)] at steps
    rwa [if_neg inside]

theorem gives_fact (records : List Bytes) (key : Str) :
    Gives (fact records key) ((modinfoValue records key).map (key, ·)) := by
  have values : Gives ((records.filter (encode (key ++ ['='])).isPrefixOf).mapM fun item =>
      decode (item.drop (encode (key ++ ['='])).length))
        ((records.filter (encode (key ++ ['='])).isPrefixOf).mapM fun item =>
          decodeAscii (item.drop (encode (key ++ ['='])).length)) := by
    refine .mapM _ fun item _ => ?_
    unfold decode
    cases decodeAscii (item.drop (encode (key ++ ['='])).length) with
    | none => exact .raise _
    | some text => exact .pure text
  unfold modinfoValue
  rw [Option.map_bind]
  refine .bind values fun found _ => ?_
  match found with
  | [] => exact .raise _
  | [value] => exact .pure _
  | _ :: _ :: _ => exact .raise _

/-- Both read the same table. -/
theorem readSections_eq (data : Bytes) : readSections data = (if TableFits data then
    some ((List.range (unpack 2 data 60)).map (sectionFields data),
      sectionFields data (unpack 2 data 62)) else none).bind fun (sections, names) =>
        (if (toSection names).offset + (toSection names).size ≤ data.length then
          some (slice data (toSection names).offset (toSection names).size) else none).map
            fun stringTable => (sections.map toSection, stringTable) := by
  unfold readSections
  by_cases inside : TableFits data
  · obtain ⟨size, low, index, room⟩ := inside
    have names : ((List.range (unpack 2 data 60)).map fun i =>
        readSection data (unpack 8 data 40 + i * unpack 2 data 58))[unpack 2 data 62]? =
          some (toSection (sectionFields data (unpack 2 data 62))) := by
      rw [List.getElem?_map, List.getElem?_range index, size]
      rfl
    have all : ((List.range (unpack 2 data 60)).map fun i =>
        readSection data (unpack 8 data 40 + i * unpack 2 data 58)) =
          ((List.range (unpack 2 data 60)).map (sectionFields data)).map toSection := by
      rw [List.map_map, size]
      rfl
    rw [if_pos ⟨size, low, index, room⟩]
    dsimp only
    rw [if_pos ⟨size, low, index, room⟩, names, all]
    rw [Option.bind_some, Option.bind_some]
    dsimp only
    split
    · rfl
    · rfl
  · rw [if_neg inside]
    exact if_neg inside

theorem gives_nativeModule (data : Bytes) : Gives (nativeModule data)
    ((if 64 ≤ data.length ∧ data.take 6 = [0x7f, 0x45, 0x4c, 0x46, 0x02, 0x01] ∧
        unpack 2 data 16 = 1 ∧ unpack 2 data 18 = 62 then some () else none).bind fun _ =>
      (readSections data).bind fun (sections, stringTable) =>
        (sections.mapM (modinfoOf data stringTable)).bind fun parts =>
          (keys.mapM fun key => (modinfoValue parts.flatten key).map (key, ·)).bind fun facts =>
            if (kernel ++ [' ']).isPrefixOf ((facts.lookup "vermagic".toList).getD []) = false
              then none else some facts) := by
  refine .bind (gives_checkMagic data) fun _ magic => ?_
  rw [Option.ite_none_right_eq_some] at magic
  rw [readSections_eq, Option.bind_assoc]
  refine .bind (gives_sectionTable magic.1.1) ?_
  rintro ⟨headers, names⟩ -
  rw [Option.bind_map]
  refine .bind (gives_sectionBytes names _) fun stringTable _ => ?_
  dsimp only [Function.comp_apply]
  rw [List.mapM_map]
  refine .bind (.mapM headers fun s _ => gives_sectionRecords _ _ s) fun parts _ => ?_
  refine .bind (.mapM keys fun key _ => gives_fact _ key) fun facts _ => ?_
  exact .unless fun _ => .pure facts

/-- The facts of a module, from what is read of it -/
def factsOf (lib : Library) (compressed data : Bytes) (facts : List (Str × Str)) : Facts where
  name := (facts.lookup "name".toList).getD []
  version := (facts.lookup "version".toList).getD []
  srcversion := (facts.lookup "srcversion".toList).getD []
  vermagic := (facts.lookup "vermagic".toList).getD []
  elfSha256 := lib.digest data
  elfBytes := data.length
  compressedSha256 := lib.digest compressed

/-- The builder takes what is read here: a module that raises an error has no facts. -/
theorem nativeModule_eq (lib : Library) (compressed : Bytes) :
    Package.nativeModule lib compressed = (lib.decompress compressed).bind fun data =>
      (readModule data).1.toOption.map (factsOf lib compressed data) := by
  unfold Package.nativeModule
  congr 1
  funext data
  have read : (readModule data).1.toOption = _ := gives_nativeModule data []
  rw [read]
  by_cases magic : 64 ≤ data.length ∧ data.take 6 = [0x7f, 0x45, 0x4c, 0x46, 0x02, 0x01] ∧
      unpack 2 data 16 = 1 ∧ unpack 2 data 18 = 62
  · rw [if_pos magic, if_pos magic, Option.bind_some]
    cases readSections data with
    | none => rfl
    | some table =>
        rw [Option.bind_some, Option.bind_some]
        obtain ⟨sections, stringTable⟩ := table
        dsimp only
        cases sections.mapM (modinfoOf data stringTable) with
        | none => rfl
        | some parts =>
            rw [Option.bind_some, Option.bind_some]
            unfold keys
            simp only [List.mapM_cons, List.mapM_nil, Option.bind_eq_bind, Option.pure_def]
            cases modinfoValue parts.flatten "name".toList with
            | none => rfl
            | some name =>
                cases modinfoValue parts.flatten "version".toList with
                | none => rfl
                | some version =>
                    cases modinfoValue parts.flatten "srcversion".toList with
                    | none => rfl
                    | some srcversion =>
                        cases modinfoValue parts.flatten "vermagic".toList with
                        | none => rfl
                        | some vermagic =>
                            show (if (kernel ++ [' ']).isPrefixOf vermagic = true then _ else _) =
                              Option.map _ (if (kernel ++ [' ']).isPrefixOf vermagic = false
                                then none else _)
                            cases (kernel ++ [' ']).isPrefixOf vermagic with
                            | true => rfl
                            | false => rfl
  · rw [if_neg magic, if_neg magic]
    rfl

end Facts

end Aic8800.Package.ElfSections
