import Mathlib.Data.List.Basic

/-! # Text of the packaging scripts

What `build_package.py` and `verify_package.py` use of Python's `str`, `bytes` and
`pathlib`. A `str` that UTF-8 cannot encode has no counterpart here: the builder
fails on such a name, and a manifest whose JSON text has a lone surrogate is not
looked at.
-/

namespace Aic8800.Package

abbrev Str := List Char

abbrev Bytes := List UInt8

/-- `str.encode()` -/
def encode (s : Str) : Bytes := s.flatMap String.utf8EncodeChar

def isAscii (c : Char) : Bool := decide (c.toNat < 128)

/-- `bytes.decode("ascii")` -/
def decodeAscii (data : Bytes) : Option Str :=
  if data.all (· < 128) then some (data.map fun b => Char.ofNat b.toNat) else none

theorem decodeAscii_append (a b : Bytes) :
    decodeAscii (a ++ b) = (decodeAscii a).bind fun x => (decodeAscii b).map (x ++ ·) := by
  simp only [decodeAscii, List.all_append, Bool.and_eq_true, List.map_append]
  by_cases left : a.all (· < 128) = true
  · by_cases right : b.all (· < 128) = true
    · simp [left, right]
    · simp [left, right]
  · simp [left]

theorem decodeAscii_char {c : Char} (ascii : isAscii c = true) :
    decodeAscii (String.utf8EncodeChar c) = some [c] := by
  have small : c.toNat < 128 := by simpa [isAscii] using ascii
  have low : c.val.toNat ≤ 0x7f := Nat.le_of_lt_succ small
  have below : UInt8.ofNat c.toNat < 128 := by
    rw [UInt8.lt_iff_toNat_lt, UInt8.toNat_ofNat']
    show c.toNat % 256 < 128
    omega
  have kept : Char.ofNat (UInt8.ofNat c.toNat).toNat = c := by
    rw [UInt8.toNat_ofNat', Nat.mod_eq_of_lt (by omega), Char.ofNat_toNat]
  have one : String.utf8EncodeChar c = [UInt8.ofNat c.toNat] := by
    unfold String.utf8EncodeChar
    exact if_pos low
  rw [one]
  simpa [decodeAscii, below] using kept

theorem decodeAscii_other {c : Char} (other : isAscii c = false) :
    decodeAscii (String.utf8EncodeChar c) = none := by
  have large : 128 ≤ c.val.toNat := by simpa [isAscii] using other
  have notSmall : ¬ c.val.toNat ≤ 0x7f := by omega
  have first : ∀ {n : Nat} {rest : Bytes}, 128 ≤ n % 256 →
      decodeAscii (UInt8.ofNat n :: rest) = none := by
    intro n rest big
    have above : ¬ UInt8.ofNat n < 128 := by
      rw [UInt8.lt_iff_toNat_lt, UInt8.toNat_ofNat']
      show ¬ n % 256 < 128
      omega
    simp [decodeAscii, above]
  simp only [String.utf8EncodeChar, notSmall, ↓reduceIte]
  split
  · exact first (by omega)
  · split
    · exact first (by omega)
    · exact first (by omega)

/-- Only ASCII text comes through UTF-8 and back through ASCII, and it does unchanged. -/
theorem decodeAscii_encode (s : Str) :
    decodeAscii (encode s) = if s.all isAscii then some s else none := by
  induction s with
  | nil => rfl
  | cons c rest ih =>
      have cut : encode (c :: rest) = String.utf8EncodeChar c ++ encode rest := List.flatMap_cons
      rw [cut, decodeAscii_append, ih]
      cases ascii : isAscii c with
      | true =>
          rw [decodeAscii_char ascii]
          cases all : rest.all isAscii with
          | true => simp [ascii, all]
          | false => simp [ascii, all]
      | false =>
          rw [decodeAscii_other ascii]
          simp [ascii]

/-! ## Lines -/

/-- Where `str.splitlines` ends a line. -/
def isLineBreak (c : Char) : Bool :=
  [0x0a, 0x0b, 0x0c, 0x0d, 0x1c, 0x1d, 0x1e, 0x85, 0x2028, 0x2029].contains c.toNat

/-- `str.splitlines`, where `line` is the part of the present line that has been
    read, last character first. -/
def splitlinesFrom (line : Str) : Str → List Str
  | [] => if line.isEmpty then [] else [line.reverse]
  | '\r' :: '\n' :: rest => line.reverse :: splitlinesFrom [] rest
  | c :: rest =>
      if isLineBreak c then line.reverse :: splitlinesFrom [] rest
      else splitlinesFrom (c :: line) rest

def splitlines (s : Str) : List Str := splitlinesFrom [] s

theorem splitlinesFrom_line {text : Str} (plain : ∀ c ∈ text, isLineBreak c = false) (line : Str)
    (rest : Str) : splitlinesFrom line (text ++ '\n' :: rest) =
      (line.reverse ++ text) :: splitlinesFrom [] rest := by
  induction text generalizing line with
  | nil =>
      have breaks : isLineBreak '\n' = true := by decide
      simp [splitlinesFrom, breaks]
  | cons c text ih =>
      have here := plain c List.mem_cons_self
      have notReturn : c ≠ '\r' := by
        rintro rfl
        cases here
      have next := ih (fun d member => plain d (List.mem_cons_of_mem c member)) (c :: line)
      rw [List.cons_append, splitlinesFrom]
      · simp only [here, Bool.false_eq_true, if_false, next, List.reverse_cons, List.append_assoc,
          List.singleton_append]
      · rintro tail rfl
        exact absurd rfl notReturn

/-- A text whose lines hold no other breaks is split into these lines. -/
theorem splitlines_lines {lines : List Str}
    (plain : ∀ line ∈ lines, ∀ c ∈ line, isLineBreak c = false) :
    splitlines (lines.flatMap (· ++ ['\n'])) = lines := by
  induction lines with
  | nil => rfl
  | cons line rest ih =>
      have first := splitlinesFrom_line (plain line List.mem_cons_self) []
        (rest.flatMap (· ++ ['\n']))
      have later := ih fun other member => plain other (List.mem_cons_of_mem line member)
      simp only [splitlines] at later ⊢
      simp only [List.flatMap_cons, List.append_assoc, List.singleton_append, first, later,
        List.reverse_nil, List.nil_append]

theorem splitlinesFrom_plain {line : Str} (plain : ∀ c ∈ line, isLineBreak c = false) (s : Str) :
    ∀ other ∈ splitlinesFrom line s, ∀ c ∈ other, isLineBreak c = false := by
  fun_induction splitlinesFrom line s
  all_goals grind

/-- No line holds a line break. -/
theorem splitlines_plain (s : Str) :
    ∀ line ∈ splitlines s, ∀ c ∈ line, isLineBreak c = false :=
  splitlinesFrom_plain (fun _ member => by cases member) s

theorem splitlinesFrom_among (line s : Str) :
    ∀ other ∈ splitlinesFrom line s, ∀ c ∈ other, c ∈ line ∨ c ∈ s := by
  fun_induction splitlinesFrom line s
  all_goals grind

theorem splitlines_among {s line : Str} (member : line ∈ splitlines s) : ∀ c ∈ line, c ∈ s := by
  intro c inside
  obtain none | here := splitlinesFrom_among [] s line member c inside
  · cases none
  · exact here

theorem decodeAscii_ascii {data : Bytes} {text : Str} (h : decodeAscii data = some text) :
    ∀ c ∈ text, isAscii c = true := by
  simp only [decodeAscii, Option.ite_none_right_eq_some, Option.some.injEq] at h
  obtain ⟨all, rfl⟩ := h
  intro c member
  obtain ⟨b, among, rfl⟩ := List.mem_map.mp member
  have small := List.all_eq_true.mp all b among
  simp only [decide_eq_true_eq, UInt8.lt_iff_toNat_lt] at small
  have bound : b.toNat < 128 := small
  have valid : b.toNat.isValidChar := .inl (by omega)
  simp only [isAscii, decide_eq_true_eq]
  rw [Char.ofNat, dif_pos valid]
  exact bound

/-! ## Patterns and numbers -/

/-- `[0-9a-f]{n}`, matched in full. -/
def isHex (n : Nat) (s : Str) : Bool := s.length == n && s.all fun c => c.isDigit || ('a' ≤ c && c ≤ 'f')

theorem hexDigit_plain {c : Char} (h : (c.isDigit || ('a' ≤ c && c ≤ 'f')) = true) :
    isAscii c = true ∧ isLineBreak c = false := by
  have range : 48 ≤ c.toNat ∧ c.toNat ≤ 102 := by
    simp only [Char.isDigit, Bool.or_eq_true, Bool.and_eq_true, decide_eq_true_eq, Char.le_def,
      UInt32.le_iff_toNat_le] at h
    have same : c.val.toNat = c.toNat := rfl
    obtain ⟨low, high⟩ | ⟨low, high⟩ := h
    · have above : 48 ≤ c.val.toNat := low
      have below : c.val.toNat ≤ 57 := high
      omega
    · have above : 97 ≤ c.val.toNat := low
      have below : c.val.toNat ≤ 102 := high
      omega
  constructor
  · simp only [isAscii, decide_eq_true_eq]
    omega
  · simp [isLineBreak]
    omega

/-- The pattern `SHA256`. -/
def isSha256 (s : Str) : Bool := isHex 64 s

/-- `0|[1-9][0-9]*` -/
def isNumeral (s : Str) : Bool :=
  s == ['0'] || (!s.isEmpty && s.head? != some '0' && s.all Char.isDigit)

/-- The pattern `VERSION`. -/
def isVersion (s : Str) : Bool :=
  let parts := s.splitOn '.'
  parts.length == 3 && parts.all isNumeral

/-- `int` of a numeral. -/
def toInt (s : Str) : Nat := s.foldl (fun n c => 10 * n + (c.toNat - 48)) 0

/-- `tuple(map(int, version.split(".")))` -/
def versionKey (version : Str) : List Nat := (version.splitOn '.').map toInt

/-- `str.isspace` of one character. -/
def isSpace (c : Char) : Bool :=
  let n := c.toNat
  (decide (0x09 ≤ n) && decide (n ≤ 0x0d)) || (decide (0x1c ≤ n) && decide (n ≤ 0x20)) ||
    (decide (0x2000 ≤ n) && decide (n ≤ 0x200a)) ||
    [0x85, 0xa0, 0x1680, 0x2028, 0x2029, 0x202f, 0x205f, 0x3000].contains n

/-! ## Paths -/

/-- `PurePosixPath(name).parts` of a name that is not absolute. -/
def pathParts (name : Str) : List Str :=
  (name.splitOn '/').filter fun part => !part.isEmpty && part != ['.']

def isAbsolute (name : Str) : Bool := name.head? == some '/'

def joinPath (parts : List Str) : Str := ['/'].intercalate parts

/-- `str(PurePosixPath(name))` of a name that is not absolute. -/
def pathStr (name : Str) : Str :=
  let parts := pathParts name
  if parts.isEmpty then ['.'] else joinPath parts

/-- The checks both scripts make on a relative name. -/
def isNormal (name : Str) : Bool :=
  !isAbsolute name && !(pathParts name).contains ['.', '.'] && !name.contains '\\' &&
    pathStr name == name

theorem mem_splitOn {name part : Str} (member : part ∈ name.splitOn '/') :
    '/' ∉ part ∧ ∀ c ∈ part, c ∈ name := by
  induction name generalizing part with
  | nil =>
      simp only [List.splitOn_nil, List.mem_singleton] at member
      simp [member]
  | cons c rest ih =>
      rw [List.splitOn_cons_eq_if_modifyHead] at member
      split at member
      · cases List.mem_cons.mp member with
        | inl first => simp [first]
        | inr later =>
            obtain ⟨noSlash, among⟩ := ih later
            exact ⟨noSlash, fun d here => List.mem_cons_of_mem c (among d here)⟩
      · rename_i notSlash
        cases parts : rest.splitOn '/' with
        | nil => exact absurd parts (List.splitOn_ne_nil '/' rest)
        | cons head tail =>
            rw [parts, List.modifyHead_cons] at member
            cases List.mem_cons.mp member with
            | inl first =>
                obtain ⟨noSlash, among⟩ := ih (parts ▸ List.mem_cons_self)
                subst first
                refine ⟨fun slash => ?_, fun d here => ?_⟩
                · cases List.mem_cons.mp slash with
                  | inl same => exact notSlash (beq_iff_eq.mpr same.symm)
                  | inr inside => exact noSlash inside
                · cases List.mem_cons.mp here with
                  | inl same => exact same ▸ List.mem_cons_self
                  | inr inside => exact List.mem_cons_of_mem c (among d inside)
            | inr later =>
                obtain ⟨noSlash, among⟩ := ih (parts ▸ List.mem_cons_of_mem head later)
                exact ⟨noSlash, fun d here => List.mem_cons_of_mem c (among d here)⟩

/-- What `parts` gives for a component. -/
structure IsPart (part : Str) : Prop where
  nonempty : part ≠ []
  notDot : part ≠ ['.']
  noSlash : '/' ∉ part

theorem mem_pathParts {name part : Str} (member : part ∈ pathParts name) :
    IsPart part ∧ ∀ c ∈ part, c ∈ name := by
  obtain ⟨found, kept⟩ := List.mem_filter.mp member
  obtain ⟨noSlash, among⟩ := mem_splitOn found
  simp only [Bool.and_eq_true, Bool.not_eq_true', List.isEmpty_eq_false_iff, bne_iff_ne] at kept
  exact ⟨⟨kept.1, kept.2, noSlash⟩, among⟩

theorem mem_joinPath {parts : List Str} {c : Char} (member : c ∈ joinPath parts) :
    c = '/' ∨ ∃ part ∈ parts, c ∈ part := by
  induction parts with
  | nil => cases member
  | cons part rest ih =>
      cases rest with
      | nil => exact .inr ⟨part, List.mem_cons_self, by simpa [joinPath] using member⟩
      | cons next later =>
          have cut : joinPath (part :: next :: later) = part ++ '/' :: joinPath (next :: later) := by
            simp [joinPath, List.intercalate_cons_cons]
          rw [cut, List.mem_append, List.mem_cons] at member
          obtain here | slash | there := member
          · exact .inr ⟨part, List.mem_cons_self, here⟩
          · exact .inl slash
          · obtain same | ⟨other, among, inside⟩ := ih there
            · exact .inl same
            · exact .inr ⟨other, List.mem_cons_of_mem part among, inside⟩

theorem pathParts_joinPath {parts : List Str} (some : parts ≠ [])
    (each : ∀ part ∈ parts, IsPart part) : pathParts (joinPath parts) = parts := by
  unfold pathParts joinPath
  rw [List.splitOn_intercalate '/' (fun part member => (each part member).noSlash) some]
  apply List.filter_eq_self.mpr
  intro part member
  simp [(each part member).nonempty, (each part member).notDot]

/-- Joined components are a normal path. -/
theorem isNormal_joinPath {parts : List Str} (some : parts ≠ [])
    (each : ∀ part ∈ parts, IsPart part) (noParent : ['.', '.'] ∉ parts)
    (noBackslash : ∀ part ∈ parts, '\\' ∉ part) : isNormal (joinPath parts) = true := by
  have split := pathParts_joinPath some each
  have relative : isAbsolute (joinPath parts) = false := by
    cases parts with
    | nil => exact absurd rfl some
    | cons part rest =>
        have first := each part List.mem_cons_self
        cases part with
        | nil => exact absurd rfl first.nonempty
        | cons c chars =>
            have notSlash : c ≠ '/' := fun same => first.noSlash (same ▸ List.mem_cons_self)
            cases rest with
            | nil => simpa [isAbsolute, joinPath] using notSlash
            | cons next later => simpa [isAbsolute, joinPath, List.intercalate_cons_cons] using notSlash
  have plain : '\\' ∉ joinPath parts := by
    intro member
    obtain slash | ⟨part, among, inside⟩ := mem_joinPath member
    · cases slash
    · exact noBackslash part among inside
  have whole : pathStr (joinPath parts) = joinPath parts := by
    simp [pathStr, split, some]
  simp [isNormal, relative, plain, whole, split, noParent]

/-- `Path(name).name` -/
def pathName (name : Str) : Str := (pathParts name).getLast?.getD []

end Aic8800.Package
