import Aic8800.Lib.Cells
import Mathlib

/-! # The parser of the user configuration

There are three copies of `rwnx_plat_userconfig_parsing`, with arrays of different sizes. The
arrays are on the stack, and begin with what was there; the set-value function reads the texts
that they hold when a line ends.
-/

namespace Aic8800.Plat.UserConfig

open Lib

abbrev Bytes := List UInt8

inductive Copy where
  | fdrv
  | fdrv8800d80x2
  | loader
  deriving DecidableEq

namespace Copy

/-- `sizeof(command)` -/
def commandSize : Copy → Nat
  | fdrv => 64
  | fdrv8800d80x2 => 100
  | loader => 30

/-- The bytes of `command` that are cleared -/
def cleared : Copy → Nat
  | fdrv | fdrv8800d80x2 => 64
  | loader => 30

/-- Only digits and `-` are kept of a value. -/
def digitsOnly : Copy → Bool
  | fdrv | fdrv8800d80x2 => true
  | loader => false

theorem cleared_le (v : Copy) : v.cleared ≤ v.commandSize := by cases v <;> decide

theorem cleared_pos (v : Copy) : 0 < v.cleared := by cases v <;> decide

end Copy

/-- `sizeof(value)` -/
def valueSize : Nat := 100

def lf : UInt8 := 10

def cr : UInt8 := 13

def hash : UInt8 := 35

def equals : UInt8 := 61

/-- A digit or `-` -/
def isNumeral (c : UInt8) : Bool := c == 45 || (48 ≤ c && c ≤ 57)

def isEol (c : UInt8) : Bool := c == lf || c == cr

/-- The values of `parse_state` -/
inductive ParseState where
  | init
  | cmd
  | print
  | getValue
  deriving DecidableEq

/-- A call of the set-value function, with the texts of `command` and `value`, where they have an
    end -/
structure Call where
  command : Option Bytes
  value : Option Bytes
  deriving DecidableEq

structure Parser where
  command : Bytes
  value : Bytes
  parseState : ParseState
  charCounter : Nat
  calls : List Call

namespace Parser

variable (v : Copy) (s : Parser)

/-- What a line ends with -/
def endLine : Parser where
  command := Cells.fill (List.replicate v.cleared 0) s.command
  value := Cells.fill (List.replicate valueSize 0) s.value
  parseState := .init
  charCounter := 0
  calls :=
    if s.command.headD 0 ≠ 0 ∧ s.value.headD 0 ≠ 0 ∧ s.parseState = .getValue then
      s.calls ++ [⟨Cells.text 0 s.command, Cells.text 0 s.value⟩]
    else s.calls

/-- `command[char_counter++] = c` -/
def putCommand (c : UInt8) : Option Parser := do
  let command ← Cells.store s.command s.charCounter c
  return { s with command := command, charCounter := s.charCounter + 1 }

/-- `value[char_counter++] = c` -/
def putValue (c : UInt8) : Option Parser := do
  let value ← Cells.store s.value s.charCounter c
  return { s with value := value, charCounter := s.charCounter + 1 }

/-- "Fill data to command and value" -/
def fillData (c : UInt8) : Option Parser :=
  match s.parseState with
  | .print => do
      let command ← Cells.store s.command 0 1
      { s with command := command }.putValue c
  | .cmd =>
      if s.command.headD 0 ≠ 0 ∧ c = equals then
        some { s with parseState := .getValue, charCounter := 0 }
      else s.putCommand c
  | .getValue => if v.digitsOnly ∧ ¬isNumeral c then some s else s.putValue c
  | .init => some s

/-- A turn of the loop, unless it writes outside an array -/
def step (c : UInt8) : Option Parser :=
  if isEol c then some (s.endLine v)
  else if s.parseState = .init then
    if c = hash then some { s with parseState := .print }
    else { s with parseState := .cmd }.fillData v c
  else s.fillData v c

end Parser

/-- The arrays as they are found on the stack -/
structure Stack (v : Copy) where
  command : Bytes
  value : Bytes
  commandLength : command.length = v.commandSize
  valueLength : value.length = valueSize

variable {v : Copy}

/-- Both arrays are cleared, in `command` so many bytes. -/
def Stack.start (stack : Stack v) : Parser where
  command := Cells.fill (List.replicate v.cleared 0) stack.command
  value := Cells.fill (List.replicate valueSize 0) stack.value
  parseState := .init
  charCounter := 0
  calls := []

/-- `rwnx_plat_userconfig_parsing`, on the first `size` bytes of the buffer -/
def rwnxPlatUserconfigParsing (v : Copy) (stack : Stack v) (buffer : Bytes) (size : Nat) :
    Option Parser :=
  (buffer.take size).foldlM (Parser.step v) stack.start

/-! ## Configurations -/

/-- A line that the format knows -/
inductive Line where
  | setting (key value : Bytes)
  | comment (text : Bytes)
  | empty

namespace Line

def render : Line → Bytes
  | setting key value => key ++ equals :: value
  | comment text => hash :: text
  | empty => []

/-- The key begins a line and ends at the first `=`, and the value has a digit or `-`. -/
def Legal : Line → Prop
  | setting key value =>
      key ≠ [] ∧ key.head? ≠ some hash ∧ (∀ c ∈ key, isEol c = false ∧ c ≠ equals) ∧
        (∀ c ∈ value, isEol c = false) ∧ ∃ c ∈ value, isNumeral c
  | comment text => ∀ c ∈ text, isEol c = false
  | empty => True

/-- The calls that the line asks for -/
def expected : Line → List Call
  | setting key value => [⟨some key, some (value.filter isNumeral)⟩]
  | comment _ | empty => []

end Line

/-- Lines with the byte that ends each, and the line that ends with the buffer -/
structure Config where
  lines : List (Line × UInt8)
  last : Line
  legal : ∀ l ∈ lines, l.1.Legal ∧ isEol l.2
  lastLegal : last.Legal

namespace Config

variable (cfg : Config)

def render : Bytes := (cfg.lines.flatMap fun l => l.1.render ++ [l.2]) ++ cfg.last.render

def expected : List Call := (cfg.lines.flatMap fun l => l.1.expected) ++ cfg.last.expected

end Config

/-- No write is outside the arrays, whatever they held, and the calls are those that a
    configuration asks for. -/
def Faithful (v : Copy) (buffer : Bytes) (size : Nat) : Prop :=
  ∀ stack : Stack v, ∃ s, rwnxPlatUserconfigParsing v stack buffer size = some s ∧
    ∀ cfg : Config, buffer.take size = cfg.render → s.calls = cfg.expected

/-! ## What becomes of a line -/

/-- A line up to its first `=`, which the first byte is not, or all of it if that is zero -/
def keyOf : Bytes → Bytes
  | [] => []
  | c :: rest => if c = 0 then c :: rest else c :: rest.takeWhile (· != equals)

/-- The `=` and the value, or nothing -/
def behindKey (line : Bytes) : Bytes := line.drop (keyOf line).length

/-- What is kept of a value -/
def kept (v : Copy) (value : Bytes) : Bytes :=
  if v.digitsOnly then value.filter isNumeral else value

/-- `command` where a line begins: cleared, and behind that as it was -/
def clearedCommand (v : Copy) (tail : Bytes) : Bytes := List.replicate v.cleared 0 ++ tail

def blankValue : Bytes := List.replicate valueSize 0

/-- What the line leaves behind the cleared part of `command` -/
def tailOf (v : Copy) (tail line : Bytes) : Bytes :=
  if line.head? = some hash then tail
  else (Cells.fill (keyOf line) (clearedCommand v tail)).drop v.cleared

/-- The call when the line ends -/
def callsOf (v : Copy) (tail line : Bytes) : List Call :=
  if line.head? = some hash then []
  else
    match behindKey line with
    | [] => []
    | _ :: value =>
        if (kept v value).headD 0 ≠ 0 then
          [⟨Cells.text 0 (Cells.fill (keyOf line) (clearedCommand v tail)),
            Cells.text 0 (Cells.fill (kept v value) blankValue)⟩]
        else []

/-- The line fits the arrays. -/
def Fits (v : Copy) (line : Bytes) : Prop :=
  if line.head? = some hash then line.tail.length ≤ valueSize
  else (keyOf line).length ≤ v.commandSize ∧ (kept v (behindKey line).tail).length ≤ valueSize

section Line

variable {s : Parser} {line xs ys : Bytes} {c : UInt8}

/-- A byte that ends no line, behind the first one -/
theorem step_inside (notEol : isEol c = false) (inside : s.parseState ≠ .init) :
    s.step v c = s.fillData v c := by
  unfold Parser.step
  rw [if_neg (by simp [notEol]), if_neg inside]

theorem run_comment (command value : Bytes) (calls : List Call)
    (clean : ∀ c ∈ ys, isEol c = false) (some' : command ≠ []) (fits : xs.length ≤ value.length) :
    ys.foldlM (Parser.step v) ⟨command, Cells.fill xs value, .print, xs.length, calls⟩ =
      if xs.length + ys.length ≤ value.length then
        some ⟨if ys = [] then command else command.set 0 1, Cells.fill (xs ++ ys) value, .print,
          xs.length + ys.length, calls⟩
      else none := by
  induction ys generalizing xs command with
  | nil => simp [fits]
  | cons y ys ih =>
      have first : Cells.store command 0 1 = some (command.set 0 1) :=
        if_pos (List.length_pos_of_ne_nil some')
      rw [List.foldlM_cons, step_inside (clean y List.mem_cons_self) (by simp)]
      simp only [Parser.fillData, first, Option.bind_eq_bind, Option.bind_some, Parser.putValue,
        Cells.store_fill y fits]
      by_cases room : xs.length < value.length
      · have length : (xs ++ [y]).length = xs.length + 1 := by simp
        have rest := @ih (xs ++ [y]) (command.set 0 1)
          (fun c member => clean c (List.mem_cons_of_mem y member)) (by simpa using some')
          (by omega)
        rw [length, List.append_assoc, List.singleton_append, List.set_set, ite_self] at rest
        rw [if_pos room]
        simp only [Option.bind_some, Option.pure_def]
        rw [rest, List.length_cons, if_neg (List.cons_ne_nil y ys), Nat.add_right_comm,
          Nat.add_assoc]
      · rw [if_neg room, if_neg (by rw [List.length_cons]; omega)]
        rfl

theorem run_command (command value : Bytes) (calls : List Call) (clean : ∀ c ∈ ys, isEol c = false)
    (some' : xs ≠ []) (plain : xs.headD 0 = 0 ∨ ∀ c ∈ ys, c ≠ equals)
    (fits : xs.length ≤ command.length) :
    ys.foldlM (Parser.step v) ⟨Cells.fill xs command, value, .cmd, xs.length, calls⟩ =
      if xs.length + ys.length ≤ command.length then
        some ⟨Cells.fill (xs ++ ys) command, value, .cmd, xs.length + ys.length, calls⟩
      else none := by
  induction ys generalizing xs with
  | nil => simp [fits]
  | cons y ys ih =>
      have head : (Cells.fill xs command).headD 0 = xs.headD 0 := by
        rw [List.headD_eq_head?_getD, Cells.head?_fill some', ← List.headD_eq_head?_getD]
      have cleanRest : ∀ c ∈ ys, isEol c = false :=
        fun c member => clean c (List.mem_cons_of_mem y member)
      have noValue : ¬((Cells.fill xs command).headD 0 ≠ 0 ∧ y = equals) := by
        rintro ⟨first, same⟩
        obtain zero | plain := plain
        · exact first (head.trans zero)
        · exact plain y List.mem_cons_self same
      rw [List.foldlM_cons, step_inside (clean y List.mem_cons_self) (by simp)]
      simp only [Parser.fillData, if_neg noValue, Parser.putCommand, Cells.store_fill y fits]
      by_cases room : xs.length < command.length
      · have length : (xs ++ [y]).length = xs.length + 1 := by simp
        have plain' : (xs ++ [y]).headD 0 = 0 ∨ ∀ c ∈ ys, c ≠ equals := by
          obtain zero | plain := plain
          · cases xs with
            | nil => exact absurd rfl some'
            | cons x xs => exact .inl zero
          · exact .inr fun c member => plain c (List.mem_cons_of_mem y member)
        have rest := @ih (xs ++ [y]) cleanRest (by simp) plain' (by omega)
        rw [length, List.append_assoc, List.singleton_append] at rest
        rw [if_pos room]
        simp only [Option.bind_eq_bind, Option.bind_some, Option.pure_def]
        rw [rest, List.length_cons, Nat.add_right_comm, Nat.add_assoc]
      · rw [if_neg room, if_neg (by rw [List.length_cons]; omega)]
        rfl

theorem run_value (command value : Bytes) (calls : List Call) (clean : ∀ c ∈ ys, isEol c = false)
    (fits : xs.length ≤ value.length) :
    ys.foldlM (Parser.step v) ⟨command, Cells.fill xs value, .getValue, xs.length, calls⟩ =
      if xs.length + (kept v ys).length ≤ value.length then
        some ⟨command, Cells.fill (xs ++ kept v ys) value, .getValue, xs.length + (kept v ys).length,
          calls⟩
      else none := by
  induction ys generalizing xs with
  | nil => simp [fits, kept]
  | cons y ys ih =>
      have clean' : ∀ c ∈ ys, isEol c = false :=
        fun c member => clean c (List.mem_cons_of_mem y member)
      rw [List.foldlM_cons, step_inside (clean y List.mem_cons_self) (by simp)]
      by_cases dropped : v.digitsOnly ∧ ¬isNumeral y
      · have same : kept v (y :: ys) = kept v ys := by simp [kept, dropped.1, dropped.2]
        simp only [Parser.fillData, if_pos dropped, Option.bind_eq_bind, Option.bind_some]
        rw [ih clean' fits, same]
      · have same : kept v (y :: ys) = y :: kept v ys := by
          unfold kept
          split
          · rename_i only
            rw [List.filter_cons_of_pos (by simpa [only] using dropped)]
          · rfl
        simp only [Parser.fillData, if_neg dropped, Parser.putValue, Cells.store_fill y fits]
        by_cases room : xs.length < value.length
        · have length : (xs ++ [y]).length = xs.length + 1 := by simp
          have rest := @ih (xs ++ [y]) clean' (by omega)
          rw [length, List.append_assoc, List.singleton_append] at rest
          rw [if_pos room]
          simp only [Option.bind_eq_bind, Option.bind_some, Option.pure_def]
          rw [rest, same, List.length_cons, Nat.add_right_comm, Nat.add_assoc]
        · rw [if_neg room, if_neg (by rw [same, List.length_cons]; omega)]
          rfl

/-- The parser where a line begins -/
structure Ready (v : Copy) (s : Parser) (tail : Bytes) : Prop where
  command : s.command = clearedCommand v tail
  length : tail.length = v.commandSize - v.cleared
  value : s.value = blankValue
  parseState : s.parseState = .init
  charCounter : s.charCounter = 0

variable {tail : Bytes} {calls : List Call}

theorem length_clearedCommand (length : tail.length = v.commandSize - v.cleared) :
    (clearedCommand v tail).length = v.commandSize := by
  have := v.cleared_le
  simp only [clearedCommand, List.length_append, List.length_replicate]
  omega

theorem clearedCommand_ne_nil : clearedCommand v tail ≠ [] := by
  have := v.cleared_pos
  unfold clearedCommand
  simp
  omega

/-- The end of a line clears the arrays again. -/
theorem ready_endLine (command' value : Bytes) (state : ParseState) (n : Nat)
    (length : command'.length = v.commandSize) (length' : value.length = valueSize) :
    Ready v (Parser.endLine v ⟨command', value, state, n, calls⟩) (command'.drop v.cleared) where
  command := by
    simp [Parser.endLine, Cells.fill, clearedCommand]
  length := by rw [List.length_drop, length]
  value := by
    simp [Parser.endLine, Cells.fill, blankValue, length']
  parseState := rfl
  charCounter := rfl

/-- A line leaves the parser ready for the next one. -/
structure LineRun (v : Copy) (s : Parser) (tail line : Bytes) (t : Parser) : Prop where
  calls : t.calls = s.calls
  ready : Ready v (t.endLine v) (tailOf v tail line)
  called : (t.endLine v).calls = s.calls ++ callsOf v tail line

theorem Ready.eq (ready : Ready v s tail) :
    s = ⟨clearedCommand v tail, blankValue, .init, 0, s.calls⟩ := by
  obtain ⟨command, -, value, parseState, charCounter⟩ := ready
  cases s
  simp_all

theorem head_clearedCommand : (clearedCommand v tail).headD 0 = 0 := by
  obtain ⟨n, more⟩ := Nat.exists_eq_succ_of_ne_zero v.cleared_pos.ne'
  simp [clearedCommand, more, List.replicate_succ]

theorem comment_run {rest : Bytes} (clean : ∀ c ∈ rest, isEol c = false) :
    (hash :: rest).foldlM (Parser.step v) ⟨clearedCommand v tail, blankValue, .init, 0, calls⟩ =
      if rest.length ≤ valueSize then
        some ⟨if rest = [] then clearedCommand v tail else (clearedCommand v tail).set 0 1,
          Cells.fill rest blankValue, .print, rest.length, calls⟩
      else none := by
  have first : Parser.step v ⟨clearedCommand v tail, blankValue, .init, 0, calls⟩ hash =
      some ⟨clearedCommand v tail, Cells.fill [] blankValue, .print, ([] : Bytes).length,
        calls⟩ := rfl
  rw [List.foldlM_cons, first]
  simp only [Option.bind_eq_bind, Option.bind_some]
  rw [run_comment _ _ _ clean clearedCommand_ne_nil (Nat.zero_le _)]
  simp [blankValue]

/-- The first byte of a line that is no comment -/
theorem step_first (notEol : isEol c = false)
    (notHash : c ≠ hash) :
    Parser.step v ⟨clearedCommand v tail, blankValue, .init, 0, calls⟩ c =
      some ⟨Cells.fill [c] (clearedCommand v tail), blankValue, .cmd, [c].length, calls⟩ := by
  have room : 0 < (clearedCommand v tail).length := List.length_pos_of_ne_nil clearedCommand_ne_nil
  have stored : Cells.store (clearedCommand v tail) 0 c =
      some (Cells.fill [c] (clearedCommand v tail)) := by
    have empty : ([] : Bytes).length ≤ (clearedCommand v tail).length := Nat.zero_le _
    have written := Cells.store_fill c empty
    rwa [List.length_nil, if_pos room, Cells.fill_nil] at written
  unfold Parser.step
  rw [if_neg (by simp [notEol]), if_pos rfl, if_neg notHash]
  simp only [Parser.fillData, head_clearedCommand, ne_eq, not_true_eq_false, false_and, if_false,
    Parser.putCommand, stored, Option.bind_eq_bind, Option.bind_some]
  rfl

theorem setting_run {rest : Bytes} (length : tail.length = v.commandSize - v.cleared)
    (clean : ∀ d ∈ c :: rest, isEol d = false) (notHash : c ≠ hash) :
    (c :: rest).foldlM (Parser.step v) ⟨clearedCommand v tail, blankValue, .init, 0, calls⟩ =
      if (keyOf (c :: rest)).length ≤ v.commandSize then
        match behindKey (c :: rest) with
        | [] => some ⟨Cells.fill (keyOf (c :: rest)) (clearedCommand v tail), blankValue, .cmd,
            (keyOf (c :: rest)).length, calls⟩
        | _ :: value =>
            if (kept v value).length ≤ valueSize then
              some ⟨Cells.fill (keyOf (c :: rest)) (clearedCommand v tail),
                Cells.fill (kept v value) blankValue, .getValue, (kept v value).length, calls⟩
            else none
      else none := by
  rw [List.foldlM_cons, step_first (clean c List.mem_cons_self) notHash]
  simp only [Option.bind_eq_bind, Option.bind_some]
  have cleanRest : ∀ c ∈ rest, isEol c = false :=
    fun d member => clean d (List.mem_cons_of_mem c member)
  have room : [c].length ≤ (clearedCommand v tail).length :=
    List.length_pos_of_ne_nil clearedCommand_ne_nil
  by_cases zero : c = 0
  · have key : keyOf (c :: rest) = c :: rest := if_pos zero
    have none : behindKey (c :: rest) = [] := by
      rw [behindKey, key, List.drop_length]
    have first : [c].headD 0 = 0 := zero
    rw [run_command _ _ _ cleanRest (by simp) (.inl first) room, none, key,
      length_clearedCommand length]
    simp [Nat.add_comm]
  · have key : keyOf (c :: rest) = c :: rest.takeWhile (· != equals) := if_neg zero
    have behind : behindKey (c :: rest) = rest.dropWhile (· != equals) := by
      rw [behindKey, key, List.length_cons, List.drop_succ_cons]
      calc rest.drop (rest.takeWhile (· != equals)).length
        _ = (rest.takeWhile (· != equals) ++ rest.dropWhile (· != equals)).drop
            (rest.takeWhile (· != equals)).length := by rw [List.takeWhile_append_dropWhile]
        _ = rest.dropWhile (· != equals) := List.drop_left
    have plain : ∀ d ∈ rest.takeWhile (· != equals), d ≠ equals := by
      intro d member
      simpa using List.mem_takeWhile_imp member
    have cleanKey : ∀ d ∈ rest.takeWhile (· != equals), isEol d = false :=
      fun d member => cleanRest d ((List.takeWhile_sublist _).subset member)
    have split := List.takeWhile_append_dropWhile (p := (· != equals)) (l := rest)
    rw [behind, key, ← length_clearedCommand length]
    conv_lhs => rw [← split]
    rw [List.foldlM_append, run_command _ _ _ cleanKey (by simp) (.inr plain) room]
    have count : [c].length + (rest.takeWhile (· != equals)).length =
      (c :: rest.takeWhile (· != equals)).length := by simp [Nat.add_comm]
    rw [count]
    split
    · simp only [Option.bind_eq_bind, Option.bind_some, List.singleton_append]
      cases behind' : rest.dropWhile (· != equals) with
      | nil => rfl
      | cons e value =>
          have found : e = equals := by
            have first := List.head_dropWhile_not (· != equals) (l := rest) (by simp [behind'])
            simpa [behind'] using first
          subst found
          have cleanValue : ∀ d ∈ value, isEol d = false := by
            intro d member
            apply cleanRest d
            apply (List.dropWhile_sublist (· != equals)).subset
            rw [behind']
            exact List.mem_cons_of_mem equals member
          have begins : Parser.fillData v
              ⟨Cells.fill (c :: rest.takeWhile (· != equals)) (clearedCommand v tail), blankValue,
                .cmd, (c :: rest.takeWhile (· != equals)).length, calls⟩ equals =
              some ⟨Cells.fill (c :: rest.takeWhile (· != equals)) (clearedCommand v tail),
                Cells.fill [] blankValue, .getValue, ([] : Bytes).length, calls⟩ :=
            if_pos ⟨zero, rfl⟩
          rw [List.foldlM_cons, step_inside rfl (by simp), begins]
          simp only [Option.bind_eq_bind, Option.bind_some]
          rw [run_value _ _ _ cleanValue (Nat.zero_le _)]
          simp [blankValue]
    · rfl

theorem drop_clearedCommand : (clearedCommand v tail).drop v.cleared = tail := by
  simp [clearedCommand]

theorem drop_set_clearedCommand : ((clearedCommand v tail).set 0 1).drop v.cleared = tail := by
  obtain ⟨n, more⟩ := Nat.exists_eq_succ_of_ne_zero v.cleared_pos.ne'
  simp [clearedCommand, more, List.replicate_succ]

/-- Only the end of a line with a value makes a call. -/
theorem endLine_calls_of_ne {state : ParseState} (other : state ≠ .getValue) (command' value : Bytes)
    (n : Nat) : (Parser.endLine v ⟨command', value, state, n, calls⟩).calls = calls :=
  if_neg fun called => other called.2.2

theorem length_blankValue : blankValue.length = valueSize := List.length_replicate

theorem head_blankValue (xs : Bytes) : (Cells.fill xs blankValue).headD 0 = xs.headD 0 := by
  cases xs <;> rfl

/-- A key that ends at a `=` does not begin with zero. -/
theorem head_key {rest value : Bytes} {e : UInt8} (behind : behindKey (c :: rest) = e :: value)
    (a : Bytes) : (Cells.fill (keyOf (c :: rest)) a).headD 0 ≠ 0 := by
  have notZero : c ≠ 0 := by
    intro zero
    rw [behindKey, keyOf, if_pos zero, List.drop_length] at behind
    cases behind
  rw [keyOf, if_neg notZero]
  exact notZero

/-- What a line does that fits the arrays -/
theorem line_run (ready : Ready v s tail) (clean : ∀ c ∈ line, isEol c = false)
    (fits : Fits v line) :
    ∃ t, line.foldlM (Parser.step v) s = some t ∧ LineRun v s tail line t := by
  have length := ready.length
  have whole := length_clearedCommand length
  rw [ready.eq]
  cases line with
  | nil =>
      refine ⟨_, rfl, rfl, ?_, ?_⟩
      · have ends : Ready v (Parser.endLine v ⟨clearedCommand v tail, blankValue, .init, 0, s.calls⟩)
            ((clearedCommand v tail).drop v.cleared) :=
          ready_endLine _ _ _ _ whole length_blankValue
        simpa [tailOf, keyOf, drop_clearedCommand] using ends
      · rw [endLine_calls_of_ne (by decide)]
        simp [callsOf, behindKey, keyOf]
  | cons c rest =>
      by_cases comment : c = hash
      · subst comment
        have short : rest.length ≤ valueSize := by simpa [Fits] using fits
        have marked : (if rest = [] then clearedCommand v tail
            else (clearedCommand v tail).set 0 1).length = v.commandSize ∧
            (if rest = [] then clearedCommand v tail
              else (clearedCommand v tail).set 0 1).drop v.cleared = tail := by
          split
          · exact ⟨whole, drop_clearedCommand⟩
          · exact ⟨(List.length_set ..).trans whole, drop_set_clearedCommand⟩
        have filled : (Cells.fill rest blankValue).length = valueSize := by
          rw [Cells.length_fill (by rwa [length_blankValue]), length_blankValue]
        rw [comment_run fun d member => clean d (List.mem_cons_of_mem hash member), if_pos short]
        refine ⟨_, rfl, rfl, ?_, ?_⟩
        · have unchanged : tailOf v tail (hash :: rest) = tail := if_pos rfl
          rw [unchanged]
          conv_rhs => rw [← marked.2]
          exact ready_endLine _ _ _ _ marked.1 filled
        · rw [endLine_calls_of_ne (by decide)]
          simp [callsOf]
      · have notHash : (c :: rest).head? ≠ some hash := by simpa using comment
        rw [Fits, if_neg notHash] at fits
        obtain ⟨keyFits, valueFits⟩ := fits
        have filled :
            (Cells.fill (keyOf (c :: rest)) (clearedCommand v tail)).length = v.commandSize := by
          rw [Cells.length_fill (by rwa [whole]), whole]
        rw [setting_run length clean comment, if_pos keyFits]
        cases behind : behindKey (c :: rest) with
        | nil =>
            refine ⟨_, rfl, rfl, ?_, ?_⟩
            · rw [tailOf, if_neg notHash]
              exact ready_endLine _ _ _ _ filled length_blankValue
            · rw [endLine_calls_of_ne (by decide)]
              simp [callsOf, behind]
        | cons e value =>
            rw [behind, List.tail_cons] at valueFits
            dsimp only
            rw [if_pos valueFits]
            refine ⟨_, rfl, rfl, ?_, ?_⟩
            · rw [tailOf, if_neg notHash]
              apply ready_endLine _ _ _ _ filled
              rw [Cells.length_fill (by rwa [length_blankValue]), length_blankValue]
            · have first := head_key behind (clearedCommand v tail)
              simp only [Parser.endLine, head_blankValue, callsOf, notHash, behind, if_false]
              split
              · rename_i called
                rw [if_pos called.2.1]
              · rename_i none
                rw [if_neg fun some' => none ⟨first, some', trivial⟩, List.append_nil]

/-- A line that does not is written past its end. -/
theorem line_overruns (ready : Ready v s tail) (clean : ∀ c ∈ line, isEol c = false)
    (long : ¬Fits v line) : line.foldlM (Parser.step v) s = none := by
  rw [ready.eq]
  cases line with
  | nil => exact absurd (by simp [Fits, keyOf, kept, behindKey]) long
  | cons c rest =>
      by_cases comment : c = hash
      · subst comment
        rw [comment_run fun d member => clean d (List.mem_cons_of_mem hash member), if_neg]
        simpa [Fits] using long
      · have notHash : (c :: rest).head? ≠ some hash := by simpa using comment
        rw [Fits, if_neg notHash, not_and_or] at long
        rw [setting_run ready.length clean comment]
        cases long with
        | inl keyLong => rw [if_neg keyLong]
        | inr valueLong =>
            cases behind : behindKey (c :: rest) with
            | nil =>
                rw [behind] at valueLong
                exact absurd (by simp [kept]) valueLong
            | cons e value =>
                rw [behind, List.tail_cons] at valueLong
                dsimp only
                rw [if_neg valueLong, ite_self]

end Line

/-! ## What becomes of a buffer -/

/-- Lines with the byte that ends each, and the line that ends with the buffer -/
def flatten (lines : List (Bytes × UInt8)) (last : Bytes) : Bytes :=
  (lines.flatMap fun l => l.1 ++ [l.2]) ++ last

/-- The calls of these lines, from what `command` was before them -/
def callsIn (v : Copy) : Bytes → List Bytes → List Call
  | _, [] => []
  | tail, line :: lines => callsOf v tail line ++ callsIn v (tailOf v tail line) lines

/-- No byte within a line ends one. -/
structure Split (lines : List (Bytes × UInt8)) (last : Bytes) : Prop where
  clean : ∀ l ∈ lines, ∀ c ∈ l.1, isEol c = false
  ends : ∀ l ∈ lines, isEol l.2 = true
  cleanLast : ∀ c ∈ last, isEol c = false

section Buffer

variable {lines : List (Bytes × UInt8)} {last : Bytes} {s : Parser} {tail : Bytes}

theorem flatten_cons (l : Bytes × UInt8) (lines : List (Bytes × UInt8)) (last : Bytes) :
    flatten (l :: lines) last = l.1 ++ l.2 :: flatten lines last := by
  simp [flatten]

theorem Split.rest {l : Bytes × UInt8} (split : Split (l :: lines) last) : Split lines last where
  clean := fun l' member => split.clean l' (List.mem_cons_of_mem l member)
  ends := fun l' member => split.ends l' (List.mem_cons_of_mem l member)
  cleanLast := split.cleanLast

theorem exists_split (buffer : Bytes) :
    ∃ lines last, Split lines last ∧ buffer = flatten lines last := by
  induction buffer with
  | nil => exact ⟨[], [], ⟨nofun, nofun, nofun⟩, rfl⟩
  | cons c rest ih =>
      obtain ⟨lines, last, split, rfl⟩ := ih
      by_cases eol : isEol c = true
      · refine ⟨([], c) :: lines, last, ⟨?_, ?_, split.cleanLast⟩, rfl⟩
        · rw [List.forall_mem_cons]
          exact ⟨nofun, split.clean⟩
        · rw [List.forall_mem_cons]
          exact ⟨eol, split.ends⟩
      · have notEol : isEol c = false := by simpa using eol
        cases lines with
        | nil =>
            refine ⟨[], c :: last, ⟨nofun, nofun, ?_⟩, rfl⟩
            rw [List.forall_mem_cons]
            exact ⟨notEol, split.cleanLast⟩
        | cons l lines =>
            refine ⟨(c :: l.1, l.2) :: lines, last, ⟨?_, ?_, split.cleanLast⟩, ?_⟩
            · have clean := split.clean
              rw [List.forall_mem_cons] at clean ⊢
              exact ⟨List.forall_mem_cons.mpr ⟨notEol, clean.1⟩, clean.2⟩
            · have ends := split.ends
              rw [List.forall_mem_cons] at ends ⊢
              exact ends
            · rw [flatten_cons, flatten_cons, List.cons_append]

/-- The lines of a buffer are its parts between the bytes that end lines. -/
theorem splitOnP_flatten (split : Split lines last) :
    (flatten lines last).splitOnP isEol = lines.map Prod.fst ++ [last] := by
  induction lines with
  | nil => exact List.splitOnP_eq_singleton fun c member => by simp [split.cleanLast c member]
  | cons l lines ih =>
      rw [flatten_cons, List.splitOnP_append_cons_of_forall_mem (split.clean l List.mem_cons_self) _
        (split.ends l List.mem_cons_self), ih split.rest]
      rfl

/-- A line with the byte that ends it -/
theorem foldlM_line {l : Bytes × UInt8} {rest : Bytes} {t : Parser} (ends : isEol l.2 = true)
    (run : l.1.foldlM (Parser.step v) s = some t) :
    (l.1 ++ l.2 :: rest).foldlM (Parser.step v) s = rest.foldlM (Parser.step v) (t.endLine v) := by
  have step : Parser.step v t l.2 = some (t.endLine v) := if_pos ends
  rw [List.foldlM_append, run]
  simp only [Option.bind_eq_bind, Option.bind_some, List.foldlM_cons, step]

theorem run_lines (split : Split lines last) (ready : Ready v s tail)
    (fits : ∀ line ∈ lines.map Prod.fst ++ [last], Fits v line) :
    ∃ t, (flatten lines last).foldlM (Parser.step v) s = some t ∧
      t.calls = s.calls ++ callsIn v tail (lines.map Prod.fst) := by
  induction lines generalizing s tail with
  | nil =>
      obtain ⟨t, run, line⟩ := line_run ready split.cleanLast (fits last (by simp))
      exact ⟨t, run, by rw [line.calls]; exact (List.append_nil _).symm⟩
  | cons l lines ih =>
      rw [List.map_cons, List.cons_append, List.forall_mem_cons] at fits
      obtain ⟨t, run, line⟩ := line_run ready (split.clean l List.mem_cons_self) fits.1
      obtain ⟨u, rest, calls⟩ := ih split.rest line.ready fits.2
      refine ⟨u, ?_, ?_⟩
      · rw [flatten_cons, foldlM_line (split.ends l List.mem_cons_self) run, rest]
      · rw [calls, line.called, List.append_assoc]
        rfl

theorem overrun_lines (split : Split lines last) (ready : Ready v s tail) {line : Bytes}
    (member : line ∈ lines.map Prod.fst ++ [last]) (long : ¬Fits v line) :
    (flatten lines last).foldlM (Parser.step v) s = none := by
  induction lines generalizing s tail with
  | nil =>
      obtain rfl := List.mem_singleton.mp member
      exact line_overruns ready split.cleanLast long
  | cons l lines ih =>
      have clean := split.clean l List.mem_cons_self
      rw [flatten_cons]
      by_cases fits : Fits v l.1
      · obtain ⟨t, run, line'⟩ := line_run ready clean fits
        rw [List.map_cons, List.cons_append, List.mem_cons] at member
        rw [foldlM_line (split.ends l List.mem_cons_self) run]
        refine ih split.rest line'.ready (member.resolve_left ?_)
        rintro rfl
        exact long fits
      · rw [List.foldlM_append, line_overruns ready clean fits]
        rfl

theorem Stack.ready (stack : Stack v) :
    Ready v stack.start (stack.command.drop v.cleared) where
  command := by simp [Stack.start, Cells.fill, clearedCommand]
  length := by rw [List.length_drop, stack.commandLength]
  value := by simp [Stack.start, Cells.fill, blankValue, stack.valueLength]
  parseState := rfl
  charCounter := rfl

end Buffer

/-! ## Which configurations are taken as they are -/

def Line.IsSetting : Line → Prop
  | .setting _ _ => True
  | .comment _ | .empty => False

/-- The key leaves room for the zero byte in what is cleared of `command` and has none itself, the
    digits of the value leave room for it, and nothing is kept of a value that is read as another:
    a copy that keeps all bytes of it reads on to the first zero byte. -/
def Line.Kept (v : Copy) : Line → Prop
  | .setting key value =>
      0 ∉ key ∧ key.length < v.cleared ∧ (value.filter isNumeral).length < valueSize ∧
        (v.digitsOnly ∨ value = value.filter isNumeral ∨ value.filter isNumeral ++ [0] <+: value)
  | .comment _ | .empty => True

/-- Every setting is taken as it is, and the last line, which has no end, is none. -/
def Config.Kept (v : Copy) (cfg : Config) : Prop :=
  (∀ l ∈ cfg.lines, l.1.Kept v) ∧ ¬cfg.last.IsSetting

section Kept

variable {key value tail : Bytes}

theorem zero_notMem_filter (value : Bytes) : 0 ∉ value.filter isNumeral := by
  intro zero
  exact absurd (List.mem_filter.mp zero).2 (by decide)

/-- The text of a value is its digits. -/
theorem text_value (fits : (kept v value).length ≤ valueSize) :
    Cells.text 0 (Cells.fill (kept v value) blankValue) = some (value.filter isNumeral) ↔
      (value.filter isNumeral).length < valueSize ∧
        (v.digitsOnly ∨ value = value.filter isNumeral ∨
          value.filter isNumeral ++ [0] <+: value) := by
  have clean := zero_notMem_filter value
  cases only : v.digitsOnly with
  | true =>
      rw [kept, if_pos only, Cells.text_fill]
      simp [blankValue, clean, List.getElem?_replicate]
  | false =>
      rw [kept, if_neg (by simp [only])] at fits ⊢
      rw [Cells.text_eq_some, Cells.fill]
      generalize value.filter isNumeral = digits at clean ⊢
      simp only [Bool.false_eq_true, false_or]
      constructor
      · rintro ⟨-, rest, split⟩
        have length := congrArg List.length split
        simp only [List.length_append, List.length_drop, length_blankValue,
          List.length_cons] at length
        refine ⟨by omega, ?_⟩
        obtain ⟨more, rfl, zeros⟩ | ⟨more, rfl, zeros⟩ := List.append_eq_append_iff.mp split
        · cases more with
          | nil => exact .inl (List.append_nil value).symm
          | cons c more =>
              have inside : c ∈ blankValue := by
                apply List.mem_of_mem_drop
                rw [zeros]
                exact List.mem_cons_self
              obtain rfl := List.eq_of_mem_replicate inside
              exact absurd (by simp) clean
        · cases more with
          | nil => exact .inl (List.append_nil digits)
          | cons c more =>
              obtain ⟨rfl, -⟩ := List.cons.inj zeros
              exact .inr ⟨more, by simp⟩
      · rintro ⟨short, rfl | ⟨rest, rfl⟩⟩
        · refine ⟨clean, List.replicate (valueSize - value.length - 1) 0, ?_⟩
          rw [blankValue, List.drop_replicate, List.append_cancel_left_eq, ← List.replicate_succ]
          congr 1
          omega
        · exact ⟨clean, rest ++ blankValue.drop (digits ++ [0] ++ rest).length, by simp⟩

section Legal

variable (legal : (Line.setting key value).Legal)
include legal

theorem render_head : (Line.setting key value).render.head? ≠ some hash := by
  obtain ⟨some', first, -⟩ := legal
  rw [Line.render, List.head?_append_of_ne_nil _ some']
  exact first

theorem keyOf_render (first : key.head? ≠ some 0) :
    keyOf (Line.setting key value).render = key := by
  obtain ⟨some', -, clean, -⟩ := legal
  obtain ⟨c, key, rfl⟩ := List.exists_cons_of_ne_nil some'
  have notZero : c ≠ 0 := fun zero => first (congrArg some zero)
  have plain : ∀ d ∈ key, (d != equals) = true := by
    intro d member
    simpa using (clean d (List.mem_cons_of_mem c member)).2
  rw [Line.render, List.cons_append, keyOf, if_neg notZero, List.takeWhile_append_of_pos plain]
  simp

theorem behindKey_render (first : key.head? ≠ some 0) :
    behindKey (Line.setting key value).render = equals :: value := by
  rw [behindKey, keyOf_render legal first, Line.render, List.drop_left]

theorem callsOf_setting (first : key.head? ≠ some 0) :
    callsOf v tail (Line.setting key value).render =
      if (kept v value).headD 0 ≠ 0 then
        [⟨Cells.text 0 (Cells.fill key (clearedCommand v tail)),
          Cells.text 0 (Cells.fill (kept v value) blankValue)⟩]
      else [] := by
  rw [callsOf, if_neg (render_head legal), behindKey_render legal first, keyOf_render legal first]

theorem callsOf_zero (first : key.head? = some 0) :
    callsOf v tail (Line.setting key value).render = [] := by
  obtain ⟨key, rfl⟩ := List.head?_eq_some_iff.mp first
  have none : behindKey (Line.setting (0 :: key) value).render = [] := by
    rw [behindKey, Line.render, List.cons_append, keyOf, if_pos rfl, List.drop_length]
  rw [callsOf, if_neg (render_head legal), none]

/-- A setting makes the call it asks for. -/
theorem callsOf_expected_iff (fits : Fits v (Line.setting key value).render) :
    callsOf v tail (Line.setting key value).render = (Line.setting key value).expected ↔
      (0 ∉ key ∧ (clearedCommand v tail)[key.length]? = some 0) ∧
        (value.filter isNumeral).length < valueSize ∧
        (v.digitsOnly ∨ value = value.filter isNumeral ∨
          value.filter isNumeral ++ [0] <+: value) := by
  by_cases first : key.head? = some 0
  · obtain ⟨key, rfl⟩ := List.head?_eq_some_iff.mp first
    rw [callsOf_zero legal first]
    simp [Line.expected]
  · rw [Fits, if_neg (render_head legal), behindKey_render legal first, List.tail_cons] at fits
    rw [callsOf_setting legal first, ← text_value fits.2, ← Cells.text_fill]
    constructor
    · intro same
      split at same
      · simpa [Line.expected] using same
      · cases same
    · rintro ⟨key', value'⟩
      have begins : (kept v value).headD 0 ≠ 0 := by
        obtain ⟨-, -, -, -, c, member, numeral⟩ := legal
        obtain ⟨clean, rest, split⟩ := Cells.text_eq_some.mp value'
        have some' := List.ne_nil_of_mem (List.mem_filter.mpr ⟨member, numeral⟩)
        obtain ⟨d, digits, begins⟩ := List.exists_cons_of_ne_nil some'
        rw [← head_blankValue, split, begins]
        rintro rfl
        exact clean (begins ▸ List.mem_cons_self)
      rw [if_pos begins, key', value']
      rfl

end Legal

/-- The room for a key: its zero byte is found in what is cleared, and not behind that if nothing
    there is zero. -/
theorem ends_key : key.length < v.cleared → (clearedCommand v tail)[key.length]? = some 0 := by
  intro room
  rw [clearedCommand, List.getElem?_append_left (by simpa using room)]
  simp [room]

theorem ends_key_iff (nonzero : 0 ∉ tail) :
    (clearedCommand v tail)[key.length]? = some 0 ↔ key.length < v.cleared := by
  refine ⟨fun ends => ?_, ends_key⟩
  by_contra behind
  rw [clearedCommand, List.getElem?_append_right (by simpa using behind)] at ends
  exact nonzero (List.mem_of_getElem? ends)

/-- What is behind the cleared part stays without zero bytes. -/
theorem zero_notMem_tailOf {line : Line} (nonzero : 0 ∉ tail) (legal : line.Legal)
    (kept : line.Kept v) : 0 ∉ tailOf v tail line.render := by
  cases line with
  | empty => simpa [tailOf, Line.render, keyOf, drop_clearedCommand] using nonzero
  | comment text => simpa [tailOf, Line.render] using nonzero
  | setting key value =>
      obtain ⟨clean, room, -⟩ := kept
      have first : key.head? ≠ some 0 := fun zero => clean (List.mem_of_head? zero)
      rw [tailOf, if_neg (render_head legal), keyOf_render legal first, Cells.drop_fill (by omega),
        drop_clearedCommand]
      exact nonzero

theorem Line.Legal.clean {line : Line} (legal : line.Legal) :
    ∀ c ∈ line.render, isEol c = false := by
  cases line with
  | empty => nofun
  | comment text =>
      rw [Line.render, List.forall_mem_cons]
      exact ⟨rfl, legal⟩
  | setting key value =>
      obtain ⟨-, -, keyClean, valueClean, -⟩ := legal
      intro c member
      rw [Line.render, List.mem_append, List.mem_cons] at member
      obtain inKey | rfl | inValue := member
      · exact (keyClean c inKey).1
      · rfl
      · exact valueClean c inValue

variable {line : Line}

theorem callsOf_of_kept (legal : line.Legal) (fits : Fits v line.render) (kept : line.Kept v)
    (tail : Bytes) : callsOf v tail line.render = line.expected := by
  cases line with
  | empty => rfl
  | comment text => rfl
  | setting key value =>
      obtain ⟨clean, room, taken⟩ := kept
      exact (callsOf_expected_iff legal fits).mpr ⟨⟨clean, ends_key room⟩, taken⟩

theorem kept_of_callsOf (legal : line.Legal) (fits : Fits v line.render) (nonzero : 0 ∉ tail)
    (same : callsOf v tail line.render = line.expected) : line.Kept v := by
  cases line with
  | empty | comment text => trivial
  | setting key value =>
      obtain ⟨⟨clean, ends⟩, taken⟩ := (callsOf_expected_iff legal fits).mp same
      exact ⟨clean, (ends_key_iff nonzero).mp ends, taken⟩

/-- A line makes no more calls than it asks for. -/
theorem length_callsOf_le (legal : line.Legal) :
    (callsOf v tail line.render).length ≤ line.expected.length := by
  cases line with
  | empty | comment text => exact Nat.le_refl 0
  | setting key value =>
      by_cases first : key.head? = some 0
      · rw [callsOf_zero legal first]
        exact Nat.zero_le _
      · rw [callsOf_setting legal first]
        split
        · exact Nat.le_refl 1
        · exact Nat.zero_le _

variable {lines : List (Line × UInt8)}

def renders (lines : List (Line × UInt8)) : List Bytes := lines.map fun l => l.1.render

def expectedOf (lines : List (Line × UInt8)) : List Call := lines.flatMap fun l => l.1.expected

theorem length_callsIn_le (legal : ∀ l ∈ lines, l.1.Legal) (tail : Bytes) :
    (callsIn v tail (renders lines)).length ≤ (expectedOf lines).length := by
  induction lines generalizing tail with
  | nil => exact Nat.le_refl 0
  | cons l lines ih =>
      rw [List.forall_mem_cons] at legal
      have first : (callsOf v tail l.1.render).length ≤ l.1.expected.length :=
        length_callsOf_le legal.1
      have rest := ih legal.2 (tailOf v tail l.1.render)
      simp only [renders, expectedOf, List.map_cons, List.flatMap_cons, callsIn,
        List.length_append] at rest ⊢
      omega

theorem callsIn_of_kept (legal : ∀ l ∈ lines, l.1.Legal) (fits : ∀ l ∈ lines, Fits v l.1.render)
    (kept : ∀ l ∈ lines, l.1.Kept v) (tail : Bytes) :
    callsIn v tail (renders lines) = expectedOf lines := by
  induction lines generalizing tail with
  | nil => rfl
  | cons l lines ih =>
      rw [List.forall_mem_cons] at legal fits kept
      have first := callsOf_of_kept legal.1 fits.1 kept.1 tail
      have rest := ih legal.2 fits.2 kept.2 (tailOf v tail l.1.render)
      simp only [renders, expectedOf, List.map_cons, List.flatMap_cons, callsIn] at rest ⊢
      rw [first, rest]

/-- If the calls are those that are asked for, each line makes its own. -/
theorem kept_of_callsIn (legal : ∀ l ∈ lines, l.1.Legal) (fits : ∀ l ∈ lines, Fits v l.1.render)
    (nonzero : 0 ∉ tail) (same : callsIn v tail (renders lines) = expectedOf lines) :
    ∀ l ∈ lines, l.1.Kept v := by
  induction lines generalizing tail with
  | nil => nofun
  | cons l lines ih =>
      rw [List.forall_mem_cons] at legal fits ⊢
      have first : (callsOf v tail l.1.render).length ≤ l.1.expected.length :=
        length_callsOf_le legal.1
      have rest := length_callsIn_le (v := v) legal.2 (tailOf v tail l.1.render)
      simp only [renders, expectedOf, List.map_cons, List.flatMap_cons, callsIn] at same rest ih
      have lengths := congrArg List.length same
      rw [List.length_append, List.length_append] at lengths
      obtain ⟨here, there⟩ := List.append_inj same (by omega)
      have kept := kept_of_callsOf legal.1 fits.1 nonzero here
      exact ⟨kept, ih legal.2 fits.2 (zero_notMem_tailOf nonzero legal.1 kept) there⟩

end Kept

namespace Config

variable (cfg : Config)

/-- The lines as bytes -/
def split : List (Bytes × UInt8) := cfg.lines.map fun l => (l.1.render, l.2)

theorem render_eq : cfg.render = flatten cfg.split cfg.last.render := by
  simp [render, flatten, split, List.flatMap_map]

theorem map_split : cfg.split.map Prod.fst = renders cfg.lines := by
  simp [split, renders]

theorem split_lines : Split cfg.split cfg.last.render where
  clean := by
    intro l member
    obtain ⟨line, there, rfl⟩ := List.mem_map.mp member
    exact (cfg.legal line there).1.clean
  ends := by
    intro l member
    obtain ⟨line, there, rfl⟩ := List.mem_map.mp member
    exact (cfg.legal line there).2
  cleanLast := cfg.lastLegal.clean

/-- The calls that are made of a configuration that fits -/
theorem run {s : Parser} {tail : Bytes} (ready : Ready v s tail)
    (fits : ∀ line ∈ cfg.render.splitOnP isEol, Fits v line) :
    (∃ t, cfg.render.foldlM (Parser.step v) s = some t ∧
      t.calls = s.calls ++ callsIn v tail (renders cfg.lines)) ∧
      ∀ l ∈ cfg.lines, Fits v l.1.render := by
  rw [render_eq, splitOnP_flatten cfg.split_lines] at fits
  rw [render_eq, ← map_split]
  refine ⟨run_lines cfg.split_lines ready fits, fun l member => fits _ ?_⟩
  rw [map_split]
  exact List.mem_append_left _ (List.mem_map_of_mem member)

end Config

/-- A stack without zero bytes -/
def Stack.ones (v : Copy) : Stack v where
  command := List.replicate v.commandSize 1
  value := List.replicate valueSize 1
  commandLength := List.length_replicate
  valueLength := List.length_replicate

theorem Stack.zero_notMem_ones (v : Copy) : 0 ∉ (Stack.ones v).command.drop v.cleared := by
  intro zero
  cases List.eq_of_mem_replicate (List.mem_of_mem_drop zero)

/-- The parser keeps to its arrays and makes the calls that a configuration asks for, exactly if
    every line fits the arrays, and if the buffer is a configuration, every setting in it can be
    taken as it is, and has an end of line. -/
theorem userconfig_faithful_iff (v : Copy) (buffer : Bytes) (size : Nat) :
    Faithful v buffer size ↔
      (∀ line ∈ (buffer.take size).splitOnP isEol, Fits v line) ∧
        ∀ cfg : Config, buffer.take size = cfg.render → cfg.Kept v := by
  unfold Faithful rwnxPlatUserconfigParsing
  generalize buffer.take size = bytes
  obtain ⟨lines, last, split, same⟩ := exists_split bytes
  constructor
  · intro faithful
    obtain ⟨s, run, calls⟩ := faithful (Stack.ones v)
    have fits : ∀ line ∈ bytes.splitOnP isEol, Fits v line := by
      intro line member
      by_contra long
      rw [same, splitOnP_flatten split] at member
      rw [same, overrun_lines split (Stack.ready _) member long] at run
      cases run
    refine ⟨fits, fun cfg config => ?_⟩
    have expected := calls cfg config
    rw [config] at fits run
    obtain ⟨⟨t, run', called⟩, fitLines⟩ := cfg.run (Stack.ready (Stack.ones v)) fits
    obtain rfl := Option.some.inj (run'.symm.trans run)
    have legal : ∀ l ∈ cfg.lines, l.1.Legal := fun l member => (cfg.legal l member).1
    have count := length_callsIn_le (v := v) legal ((Stack.ones v).command.drop v.cleared)
    have made : callsIn v ((Stack.ones v).command.drop v.cleared) (renders cfg.lines) =
        expectedOf cfg.lines ++ cfg.last.expected := called.symm.trans expected
    have lengths := congrArg List.length made
    rw [List.length_append] at lengths
    have none : cfg.last.expected = [] := List.eq_nil_of_length_eq_zero (by omega)
    rw [none, List.append_nil] at made
    refine ⟨kept_of_callsIn legal fitLines (Stack.zero_notMem_ones v) made, fun setting => ?_⟩
    cases unended : cfg.last with
    | setting key value =>
        rw [unended] at none
        cases none
    | comment text | empty =>
        rw [unended] at setting
        exact setting
  · rintro ⟨fits, kept⟩ stack
    have fits' := fits
    rw [same, splitOnP_flatten split] at fits'
    obtain ⟨t, run, -⟩ := run_lines split stack.ready fits'
    rw [← same] at run
    refine ⟨t, run, fun cfg config => ?_⟩
    obtain ⟨keptLines, ended⟩ := kept cfg config
    rw [config] at fits run
    obtain ⟨⟨t', run', called⟩, fitLines⟩ := cfg.run stack.ready fits
    obtain rfl := Option.some.inj (run'.symm.trans run)
    have legal : ∀ l ∈ cfg.lines, l.1.Legal := fun l member => (cfg.legal l member).1
    have none : cfg.last.expected = [] := by
      cases unended : cfg.last with
      | setting key value =>
          rw [unended] at ended
          exact absurd trivial ended
      | comment text | empty => rfl
    rw [called, callsIn_of_kept legal fitLines keptLines, Config.expected, none, List.append_nil]
    rfl

/-- A key of more bytes than `command` has -/
theorem long_key_overruns : ¬∀ v buffer size, Faithful v buffer size := by
  intro faithful
  obtain ⟨s, run, -⟩ := faithful .loader (List.replicate 31 97) 31 (Stack.ones .loader)
  cases run

end Aic8800.Plat.UserConfig
