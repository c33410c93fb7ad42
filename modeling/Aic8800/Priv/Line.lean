import Mathlib.Data.List.Infix

/-! # The command line of a private command

A C string is the list of its bytes before the zero byte that ends it.
-/

namespace Aic8800.Priv

abbrev CString := List UInt8

/-- The string that begins with these bytes of memory. -/
def cString (memory : List UInt8) : CString := memory.takeWhile (· != 0)

/-- An ASCII literal -/
def ascii (s : String) : CString := s.toList.map fun c => UInt8.ofNat c.toNat

def cmdMaxargs : Nat := 30

def isSpace (c : UInt8) : Bool := c == 32 || c == 9

def quote : UInt8 := 34

/-- `parse_line`, with room for so many more arguments. The byte behind an argument is made the zero
    byte that ends it, and the next one begins behind that. -/
def parseLine : Nat → CString → List CString
  | 0, _ => []
  | room + 1, line =>
      match line.dropWhile isSpace with
      | [] => []
      | c :: rest =>
          if c = quote then
            rest.takeWhile (· != quote) ::
              match rest.dropWhile (· != quote) with
              | [] => []
              | _ :: line => parseLine room line
          else
            (c :: rest).takeWhile (!isSpace ·) ::
              match (c :: rest).dropWhile (!isSpace ·) with
              | [] => []
              | _ :: line => parseLine room line

theorem parseLine_length (room : Nat) (line : CString) : (parseLine room line).length ≤ room := by
  induction room generalizing line with
  | zero => exact Nat.le_refl 0
  | succ room ih =>
      unfold parseLine
      split
      · exact Nat.zero_le _
      · split <;> split
        · exact Nat.succ_le_succ (Nat.zero_le room)
        · exact Nat.succ_le_succ (ih _)
        · exact Nat.succ_le_succ (Nat.zero_le room)
        · exact Nat.succ_le_succ (ih _)

/-- What is split off a line, and where the rest of it begins. -/
private theorem split_within {p : UInt8 → Bool} {line rest : CString} {c : UInt8}
    (split : line.dropWhile p = c :: rest) : line.takeWhile p <:+: line ∧ rest <:+: line := by
  constructor
  · exact (List.takeWhile_prefix p).isInfix
  · have behind : c :: rest <:+: line := split ▸ (List.dropWhile_suffix p).isInfix
    exact (List.suffix_cons c rest).isInfix.trans behind

/-- Every argument is a part of the line. -/
theorem parseLine_within {room : Nat} {line a : CString} (member : a ∈ parseLine room line) :
    a <:+: line := by
  induction room generalizing line with
  | zero => cases member
  | succ room ih =>
      unfold parseLine at member
      split at member
      · cases member
      · rename_i c rest begins
        have text : c :: rest <:+: line := begins ▸ (List.dropWhile_suffix _).isInfix
        have quoted : rest <:+: line := (split_within begins).2
        split at member
        · rcases List.mem_cons.mp member with rfl | member
          · exact (List.takeWhile_prefix _).isInfix.trans quoted
          · split at member
            · cases member
            · rename_i behind
              exact (ih member).trans ((split_within behind).2.trans quoted)
        · rcases List.mem_cons.mp member with rfl | member
          · exact (List.takeWhile_prefix _).isInfix.trans text
          · split at member
            · cases member
            · rename_i behind
              exact (ih member).trans ((split_within behind).2.trans text)

def isDigit (c : UInt8) : Bool := 48 ≤ c && c ≤ 57

def isXDigit (c : UInt8) : Bool := isDigit c || (65 ≤ c && c ≤ 70) || (97 ≤ c && c ≤ 102)

/-- The value of a hexadecimal digit -/
def digitValue (c : UInt8) : UInt32 :=
  if isDigit c then c.toUInt32 - 48
  else (if 97 ≤ c then c - 32 else c).toUInt32 - 65 + 10

/-- The loop of `command_strtoul` -/
def strtoulLoop (base : UInt32) : UInt32 → CString → UInt32
  | result, [] => result
  | result, c :: cp =>
      if isXDigit c && digitValue c < base then
        strtoulLoop base (result * base + digitValue c) cp
      else result

/-- `command_strtoul` -/
def commandStrtoul (cp : CString) (base : UInt32) : UInt32 :=
  let (cp, base) :=
    match cp with
    | 48 :: cp =>
        let (cp, base) :=
          match cp with
          | 120 :: c :: cp => if isXDigit c then (c :: cp, 16) else (120 :: c :: cp, base)
          | _ => (cp, base)
        (cp, if base = 0 then 8 else base)
    | _ => (cp, base)
  let base := if base = 0 then 10 else base
  match cp with
  | 45 :: cp => -strtoulLoop base 0 cp
  | _ => strtoulLoop base 0 cp

/-- Latin-1 has capital letters too. -/
def toLower (c : UInt8) : UInt8 :=
  if (65 ≤ c && c ≤ 90) || (192 ≤ c && c ≤ 222 && c != 215) then c + 32 else c

def strncasecmp : CString → CString → Nat → Int
  | _, _, 0 => 0
  | [], s2, _ + 1 => -((s2.headD 0).toNat : Int)
  | c1 :: _, [], _ + 1 => c1.toNat
  | c1 :: s1, c2 :: s2, n + 1 =>
      if toLower c1 = toLower c2 then strncasecmp s1 s2 n
      else (toLower c1).toNat - (toLower c2).toNat

def strcasecmp : CString → CString → Int
  | [], s2 => -((toLower (s2.headD 0)).toNat : Int)
  | c1 :: _, [] => (toLower c1).toNat
  | c1 :: s1, c2 :: s2 =>
      if toLower c1 = toLower c2 then strcasecmp s1 s2
      else (toLower c1).toNat - (toLower c2).toNat

end Aic8800.Priv
