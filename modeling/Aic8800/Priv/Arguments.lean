import Aic8800.Priv.Line
import Mathlib

/-! # The argument vector of a private command

`parse_line` cuts the line up where it lies: `argv` points into the line, and the byte behind an
argument is made the zero byte that ends it.
-/

namespace Aic8800.Priv.Argv

/-- The memory of the line, the cursor `line`, `argv` with what it held before, and `nargs`. -/
structure State where
  memory : List UInt8
  line : Nat
  argv : Nat → Option Nat
  nargs : Nat

namespace State

variable (s : State)

/-- `*line` -/
def char : UInt8 := s.memory.getD s.line 0

/-- `while (p(*line)) ++line` -/
def advance (p : UInt8 → Bool) : State :=
  { s with line := s.line + ((s.memory.drop s.line).takeWhile p).length }

/-- `argv[nargs++] = line` -/
def point : State :=
  { s with argv := Function.update s.argv s.nargs (some s.line), nargs := s.nargs + 1 }

/-- `argv[nargs] = 0` -/
def finish : State := { s with argv := Function.update s.argv s.nargs none }

/-- `*line++ = '\0'` -/
def cut : State := { s with memory := s.memory.set s.line 0, line := s.line + 1 }

/-- From the first byte of an argument to the byte that ends it -/
def argument : State :=
  if s.char = quote then
    { s with line := s.line + 1 }.point.advance fun c => c != 0 && c != quote
  else s.point.advance fun c => c != 0 && !isSpace c

/-- The loop, with room for so many more arguments -/
def loop : Nat → State → State
  | 0, s => s
  | room + 1, s =>
      let s := s.advance isSpace
      if s.char = 0 then s.finish
      else
        let s := s.argument
        if s.char = 0 then s.finish else loop room s.cut

end State

/-- `parse_line` -/
def parseLine (line : CString) (argv : Nat → Option Nat) : State :=
  State.loop cmdMaxargs ⟨line ++ [0], 0, argv, 0⟩

/-- These are strings at these places of memory, one behind the zero byte of the other, and none
    before the first place. -/
inductive Located (memory : List UInt8) : Nat → List Nat → List CString → Prop where
  | nil {from' : Nat} : Located memory from' [] []
  | cons {from' p : Nat} {ps : List Nat} {text : CString} {texts : List CString} : from' ≤ p →
      cString (memory.drop p) = text → p + text.length < memory.length →
      Located memory (p + text.length + 1) ps texts → Located memory from' (p :: ps) (text :: texts)

/-! ## The line as text -/

/-- The argument that a line begins with, and what is behind the byte that is cut. -/
def nextArg (line : CString) : Option (CString × Option CString) :=
  match line.dropWhile isSpace with
  | [] => none
  | c :: rest =>
      if c = quote then some (rest.takeWhile (· != quote), (rest.dropWhile (· != quote)).tail?)
      else
        some ((c :: rest).takeWhile (!isSpace ·), ((c :: rest).dropWhile (!isSpace ·)).tail?)

/-- The loop comes to its end for want of room. -/
def Fills : Nat → CString → Prop
  | 0, _ => True
  | room + 1, line =>
      match nextArg line with
      | some (_, some rest) => Fills room rest
      | _ => False

/-- The arguments of a line, from one to the next -/
theorem parseLine_succ (room : Nat) (line : CString) : Priv.parseLine (room + 1) line =
    match nextArg line with
    | none => []
    | some (text, none) => [text]
    | some (text, some rest) => text :: Priv.parseLine room rest := by
  conv_lhs => unfold Priv.parseLine
  unfold nextArg
  cases line.dropWhile isSpace with
  | nil => rfl
  | cons c rest =>
      dsimp only
      split
      · cases rest.dropWhile (· != quote) <;> rfl
      · cases (c :: rest).dropWhile (!isSpace ·) <;> rfl

/-! ## The line as memory -/

theorem fills_next {room : Nat} {line text rest : CString}
    (next : nextArg line = some (text, some rest)) : Fills (room + 1) line ↔ Fills room rest := by
  conv_lhs => unfold Fills
  rw [next]

/-- A line that ends with its next argument, or before that, leaves room. -/
theorem not_fills {room : Nat} {line : CString}
    (last : ∀ text rest, nextArg line ≠ some (text, some rest)) : ¬Fills (room + 1) line := by
  unfold Fills
  split
  · rename_i text rest next
    exact absurd next (last text rest)
  · exact id

section Memory

variable {before line text : CString} {s : State} {p : UInt8 → Bool}

/-- The cursor stands before this text, which the zero byte ends. -/
structure State.At (s : State) (before line : CString) : Prop where
  memory : s.memory = before ++ (line ++ [0])
  cursor : s.line = before.length
  clean : 0 ∉ line

theorem State.At.char (here : s.At before line) : s.char = line.headD 0 := by
  unfold State.char
  rw [here.memory, here.cursor, List.getD_append_right _ _ _ _ (Nat.le_refl _), Nat.sub_self]
  cases line <;> rfl

theorem State.At.char_eq_zero (here : s.At before line) : s.char = 0 ↔ line = [] := by
  rw [here.char]
  cases line with
  | nil => simp
  | cons c rest =>
      have notZero : c ≠ 0 := fun zero => here.clean (zero ▸ List.mem_cons_self)
      simpa using notZero

/-- A loop that stops at the zero byte stays in the text. -/
theorem State.At.advance (here : s.At before line) (stops : p 0 = false) :
    (s.advance p).At (before ++ line.takeWhile p) (line.dropWhile p) := by
  have left : (s.memory.drop s.line).takeWhile p = line.takeWhile p := by
    rw [here.memory, here.cursor, List.drop_left, List.takeWhile_append]
    split
    · rename_i all
      rw [List.takeWhile_cons_of_neg (by simp [stops]), List.append_nil]
      exact ((List.takeWhile_prefix p).eq_of_length all).symm
    · rfl
  refine ⟨?_, ?_, fun zero => here.clean ((List.dropWhile_sublist p).subset zero)⟩
  · change s.memory = _
    rw [here.memory, List.append_assoc, ← List.append_assoc (line.takeWhile p),
      List.takeWhile_append_dropWhile]
  · change s.line + _ = _
    rw [left, here.cursor, List.length_append]

theorem State.At.point (here : s.At before line) : s.point.At before line :=
  ⟨here.memory, here.cursor, here.clean⟩

/-- Past one byte of the text -/
theorem State.At.next {c : UInt8} (here : s.At before (c :: line)) :
    State.At { s with line := s.line + 1 } (before ++ [c]) line where
  memory := by
    rw [here.memory]
    simp
  cursor := by
    change s.line + 1 = _
    rw [here.cursor, List.length_append]
    rfl
  clean := fun zero => here.clean (List.mem_cons_of_mem c zero)

/-- The byte behind an argument is made its end. -/
theorem State.At.cut {c : UInt8} (here : s.At before (c :: line)) :
    s.cut.At (before ++ [0]) line where
  memory := by
    change s.memory.set s.line 0 = _
    rw [here.memory, here.cursor, List.set_append_right _ _ (Nat.le_refl _), Nat.sub_self]
    simp
  cursor := by
    change s.line + 1 = _
    rw [here.cursor, List.length_append]
    rfl
  clean := fun zero => here.clean (List.mem_cons_of_mem c zero)

/-- The loops over an argument do not meet a zero byte before its end. -/
theorem takeWhile_clean {q : UInt8 → Bool} (clean : 0 ∉ line) :
    line.takeWhile (fun c => c != 0 && q c) = line.takeWhile q ∧
      line.dropWhile (fun c => c != 0 && q c) = line.dropWhile q := by
  induction line with
  | nil => exact ⟨rfl, rfl⟩
  | cons c rest ih =>
      rw [List.mem_cons, not_or] at clean
      obtain ⟨taken, dropped⟩ := ih clean.2
      have notZero : (c != 0) = true := by simpa using Ne.symm clean.1
      simp only [List.takeWhile_cons, List.dropWhile_cons, notZero, Bool.true_and]
      cases q c with
      | false => exact ⟨rfl, rfl⟩
      | true => exact ⟨congrArg (c :: ·) taken, dropped⟩

/-- Where an argument begins and ends, and what became of `argv` -/
structure State.Found (s t : State) (before line text : CString) (behind : Option CString) :
    Prop where
  split : ∃ lead ends, line = lead ++ text ++ ends ∧ ends.tail? = behind ∧
    t.At (before ++ lead ++ text) ends ∧
    t.argv = Function.update s.argv s.nargs (some (before ++ lead).length)
  nargs : t.nargs = s.nargs + 1

theorem State.At.argument {c : UInt8} {rest : CString} {behind : Option CString}
    (here : s.At before (c :: rest)) (next : nextArg (c :: rest) = some (text, behind))
    (begins : isSpace c = false) : s.Found s.argument before (c :: rest) text behind := by
  have char : s.char = c := here.char
  unfold nextArg at next
  rw [List.dropWhile_cons_of_neg (by simp [begins])] at next
  unfold State.argument
  rw [char]
  dsimp only at next
  split
  · rename_i quoted
    rw [if_pos quoted] at next
    obtain ⟨rfl, rfl⟩ := Prod.mk.inj (Option.some.inj next)
    have inside := (here.next.point).advance (p := fun c => c != 0 && c != quote) rfl
    obtain ⟨taken, dropped⟩ := takeWhile_clean (q := (· != quote)) here.next.clean
    rw [taken, dropped] at inside
    refine ⟨⟨[c], _, ?_, rfl, inside, ?_⟩, rfl⟩
    · simp
    · simp [State.advance, State.point, here.cursor]
  · rename_i bare
    rw [if_neg bare] at next
    obtain ⟨rfl, rfl⟩ := Prod.mk.inj (Option.some.inj next)
    have inside := here.point.advance (p := fun c => c != 0 && !isSpace c) rfl
    obtain ⟨taken, dropped⟩ := takeWhile_clean (q := (!isSpace ·)) here.clean
    rw [taken, dropped] at inside
    refine ⟨⟨[], _, ?_, rfl, by simpa using inside, ?_⟩, rfl⟩
    · simp
    · simp [State.advance, State.point, here.cursor]

theorem nextArg_skip (line : CString) : nextArg (line.dropWhile isSpace) = nextArg line := by
  unfold nextArg
  rw [List.dropWhile_idempotent]

/-- A turn of the loop that finds an argument -/
theorem State.At.turn {behind : Option CString} (here : s.At before line)
    (next : nextArg line = some (text, behind)) :
    (s.advance isSpace).char ≠ 0 ∧
      s.Found (s.advance isSpace).argument before line text behind := by
  have skipped := here.advance (p := isSpace) rfl
  have whole := List.takeWhile_append_dropWhile (p := isSpace) (l := line)
  rw [← nextArg_skip] at next
  cases begins : line.dropWhile isSpace with
  | nil =>
      rw [begins] at next
      cases next
  | cons c rest =>
      rw [begins] at next skipped whole
      have notSpace : isSpace c = false := by
        have first := List.head_dropWhile_not isSpace (l := line) (by simp [begins])
        simpa [begins] using first
      obtain ⟨⟨lead, ends, split, tail, ended, argv⟩, nargs⟩ := skipped.argument next notSpace
      refine ⟨by simp [skipped.char_eq_zero],
        ⟨line.takeWhile isSpace ++ lead, ends, ?_, tail, ?_, ?_⟩, nargs⟩
      · conv_lhs => rw [← whole, split]
        simp
      · simpa using ended
      · rw [argv, List.append_assoc]
        rfl

/-- A turn that finds none -/
theorem State.At.turn_none (here : s.At before line) (none : nextArg line = none) :
    (s.advance isSpace).char = 0 := by
  have skipped := here.advance (p := isSpace) rfl
  rw [skipped.char_eq_zero]
  unfold nextArg at none
  cases begins : line.dropWhile isSpace with
  | nil => rfl
  | cons c rest =>
      rw [begins] at none
      dsimp only at none
      split at none <;> cases none

theorem cString_append {after : List UInt8} (clean : 0 ∉ text) :
    cString (text ++ 0 :: after) = text := by
  unfold cString
  rw [List.takeWhile_append_of_pos]
  · simp
  · intro c member
    have notZero : c ≠ 0 := fun zero => clean (zero ▸ member)
    simpa using notZero

/-- An argument with the zero byte behind it, and what is located behind that -/
theorem Located.found {lead after memory : List UInt8} {ps : List Nat} {texts : List CString}
    (split : memory = before ++ lead ++ text ++ 0 :: after) (clean : 0 ∉ text)
    (behind : Located memory (before ++ lead ++ text ++ [0]).length ps texts) :
    Located memory before.length ((before ++ lead).length :: ps) (text :: texts) := by
  have length : (before ++ lead).length + text.length + 1 =
      (before ++ lead ++ text ++ [0]).length := by
    simp
    omega
  refine .cons (by simp) ?_ ?_ (length ▸ behind)
  · rw [split, List.append_assoc (before ++ lead), List.drop_left]
    exact cString_append clean
  · rw [split]
    simp
    omega

/-- What the loop leaves of a text, with the room it had -/
structure State.Parsed (s t : State) (room : Nat) (before line : CString) : Prop where
  memory : ∃ after, t.memory = before ++ after ∧ after.length = line.length + 1
  located : ∃ ps, Located t.memory before.length ps (Priv.parseLine room line) ∧
    ∀ i p, ps[i]? = some p → t.argv (s.nargs + i) = some p
  nargs : t.nargs = s.nargs + (Priv.parseLine room line).length
  kept : ∀ i < s.nargs, t.argv i = s.argv i
  ended : ¬Fills room line → t.argv t.nargs = none
  full : Fills room line → t.argv t.nargs = s.argv t.nargs

theorem State.At.loop (room : Nat) (here : s.At before line) :
    s.Parsed (s.loop room) room before line := by
  induction room generalizing s before line with
  | zero =>
      exact
        { memory := ⟨line ++ [0], here.memory, by simp⟩
          located := ⟨[], .nil, by simp⟩
          nargs := rfl
          kept := fun _ _ => rfl
          ended := fun notFull => absurd trivial notFull
          full := fun _ => rfl }
  | succ room ih =>
      have arguments := parseLine_succ room line
      cases next : nextArg line with
      | none =>
          have done : s.loop (room + 1) = (s.advance isSpace).finish := by
            simp only [State.loop, here.turn_none next, if_true]
          rw [next] at arguments
          rw [done]
          exact
            { memory := ⟨line ++ [0], here.memory, by simp⟩
              located := ⟨[], arguments ▸ .nil, by simp⟩
              nargs := by
                rw [arguments]
                rfl
              kept := fun i before => Function.update_of_ne (Nat.ne_of_lt before) _ _
              ended := fun _ => Function.update_self _ _ _
              full := fun full => absurd full (not_fills (by simp [next])) }
      | some found =>
          obtain ⟨text, behind⟩ := found
          obtain ⟨more, ⟨lead, ends, rfl, tail, ended, argv⟩, nargs⟩ := here.turn next
          have clean : 0 ∉ text := by
            intro zero
            exact here.clean (by simp [zero])
          have kept : ∀ i < s.nargs, (s.advance isSpace).argument.argv i = s.argv i := by
            intro i before
            rw [argv, Function.update_of_ne (Nat.ne_of_lt before)]
          cases ends with
          | nil =>
              obtain rfl : behind = none := tail.symm
              have done : s.loop (room + 1) = (s.advance isSpace).argument.finish := by
                simp only [State.loop, if_neg more, ended.char_eq_zero.mpr rfl, if_true]
              have memory : (s.loop (room + 1)).memory = before ++ lead ++ text ++ 0 :: [] := by
                rw [done]
                exact ended.memory
              simp only [next] at arguments
              exact
                { memory := ⟨lead ++ text ++ [0], by simpa using memory, by simp [Nat.add_assoc]⟩
                  located := by
                    refine ⟨_, arguments ▸ Located.found memory clean .nil, fun i p pointer => ?_⟩
                    obtain ⟨rfl, rfl⟩ : i = 0 ∧ (before ++ lead).length = p := by
                      simpa [List.getElem?_cons] using pointer
                    rw [done]
                    change Function.update _ _ _ _ = _
                    rw [Function.update_of_ne (by omega), argv]
                    exact Function.update_self _ _ _
                  nargs := by
                    rw [arguments, done]
                    exact nargs
                  kept := fun i before => by
                    rw [done, ← kept i before]
                    exact Function.update_of_ne (by omega) _ _
                  ended := fun _ => by
                    rw [done]
                    exact Function.update_self _ _ _
                  full := fun full => absurd full (not_fills fun _ _ more => by
                    rw [next] at more
                    cases more) }
          | cons c rest =>
              obtain rfl : behind = some rest := tail.symm
              have goes : s.loop (room + 1) = (s.advance isSpace).argument.cut.loop room := by
                have notEnd := ended.char_eq_zero.not.mpr (List.cons_ne_nil c rest)
                simp only [State.loop, if_neg more, if_neg notEnd]
              obtain ⟨⟨after, memory, length⟩, ⟨ps, located, pointers⟩, count, kept', null, full⟩ :=
                ih ended.cut
              have one : (s.advance isSpace).argument.cut.nargs = s.nargs + 1 := nargs
              rw [← goes] at memory located pointers count kept' null full
              simp only [next] at arguments
              rw [one] at pointers count kept'
              exact
                { memory := by
                    refine ⟨lead ++ text ++ 0 :: after, by simpa using memory, ?_⟩
                    simp [length]
                    omega
                  located := by
                    refine ⟨_, arguments ▸ Located.found (by simpa using memory) clean located, ?_⟩
                    intro i p pointer
                    cases i with
                    | zero =>
                        obtain rfl := Option.some.inj pointer
                        rw [kept' (s.nargs + 0) (Nat.lt_succ_self _)]
                        change (s.advance isSpace).argument.argv s.nargs = _
                        rw [argv, Function.update_self]
                    | succ i =>
                        rw [← pointers i p pointer]
                        congr 1
                        omega
                  nargs := by
                    rw [arguments, count, List.length_cons]
                    omega
                  kept := fun i before => by
                    rw [kept' i (by omega)]
                    exact kept i before
                  ended := fun notFull => null fun fills => notFull ((fills_next next).mpr fills)
                  full := fun fills => by
                    rw [full ((fills_next next).mp fills), count]
                    change (s.advance isSpace).argument.argv _ = _
                    rw [argv, Function.update_of_ne (by omega)] }

end Memory

/-! ## Rendered lines -/

inductive Blank where
  | space
  | tab

namespace Blank

def char : Blank → UInt8
  | space => 32
  | tab => 9

@[simp] theorem isSpace_char (b : Blank) : isSpace b.char = true := by cases b <;> rfl

/-- Any number of blanks -/
def render (blanks : List Blank) : CString := blanks.map char

theorem clean_render (blanks : List Blank) : 0 ∉ render blanks := by
  intro zero
  obtain ⟨b, -, same⟩ := List.mem_map.mp zero
  cases b <;> cases same

end Blank

def newline : UInt8 := 10

/-- A token as it may stand in a line -/
inductive Token where
  | bare (text : CString) (some : text ≠ [])
      (clean : ∀ c ∈ text, c ≠ 0 ∧ isSpace c = false ∧ c ≠ newline ∧ c ≠ quote)
  | quoted (text : CString) (clean : ∀ c ∈ text, c ≠ 0 ∧ c ≠ quote)

namespace Token

def text : Token → CString
  | bare text _ _ | quoted text _ => text

def render : Token → CString
  | bare text _ _ => text
  | quoted text _ => quote :: (text ++ [quote])

def IsBare : Token → Prop
  | bare _ _ _ => True
  | quoted _ _ => False

theorem clean_render (token : Token) : 0 ∉ token.render := by
  intro zero
  cases token with
  | bare text _ clean => exact (clean 0 zero).1 rfl
  | quoted text clean =>
      rw [render, List.mem_cons, List.mem_append, List.mem_singleton] at zero
      obtain wrong | inside | wrong := zero
      · cases wrong
      · exact (clean 0 inside).1 rfl
      · cases wrong

end Token

/-- Each token is followed by blanks. -/
def renderWords (words : List (Token × List Blank)) : CString :=
  words.flatMap fun w => w.1.render ++ Blank.render w.2

/-- No bare token runs into the next one. -/
def Apart (words : List (Token × List Blank)) : Prop :=
  ∀ w ∈ words.dropLast, w.1.IsBare → w.2 ≠ []

/-- A line of at most so many tokens as `argv` has room for -/
structure Line where
  lead : List Blank
  words : List (Token × List Blank)
  apart : Apart words
  few : words.length ≤ cmdMaxargs

namespace Line

variable (line : Line)

def tokens : List CString := line.words.map fun w => w.1.text

def render : CString := Blank.render line.lead ++ renderWords line.words

end Line

/-- The tokens are returned in order, as strings that lie one behind the other in the line, and
    the entry behind the last one is set to `NULL`. -/
def RoundTrip (line : Line) : Prop :=
  ∀ argv, let s := parseLine line.render argv
    s.nargs = line.tokens.length ∧
      (∃ ps, Located s.memory 0 ps line.tokens ∧ ∀ i p, ps[i]? = some p → s.argv i = some p) ∧
      s.argv s.nargs = none

section Render

variable {words : List (Token × List Blank)} {blanks : List Blank} {rest : CString}

theorem nextArg_blanks (blanks : List Blank) (rest : CString) :
    nextArg (Blank.render blanks ++ rest) = nextArg rest := by
  unfold nextArg Blank.render
  rw [List.dropWhile_append_of_pos (by simp)]

theorem nextArg_bare {text : CString} (some' : text ≠ [])
    (clean : ∀ c ∈ text, c ≠ 0 ∧ isSpace c = false ∧ c ≠ newline ∧ c ≠ quote)
    (ends : ∀ c ∈ rest.head?, isSpace c = true) :
    nextArg (text ++ rest) = some (text, rest.tail?) := by
  have whole : ∀ c ∈ text, (!isSpace c) = true := fun c member => by simp [(clean c member).2.1]
  have taken : (text ++ rest).takeWhile (!isSpace ·) = text := by
    rw [List.takeWhile_append_of_pos whole]
    cases rest with
    | nil => exact List.append_nil text
    | cons c rest => simp [ends c rfl]
  have dropped : (text ++ rest).dropWhile (!isSpace ·) = rest := by
    rw [List.dropWhile_append_of_pos whole]
    cases rest with
    | nil => rfl
    | cons c rest => simp [ends c rfl]
  obtain ⟨c, text, rfl⟩ := List.exists_cons_of_ne_nil some'
  obtain ⟨-, notSpace, -, notQuote⟩ := clean c List.mem_cons_self
  unfold nextArg
  rw [List.cons_append, List.dropWhile_cons_of_neg (by simp [notSpace])]
  dsimp only
  rw [if_neg notQuote, ← List.cons_append, taken, dropped]

theorem nextArg_quoted {text : CString} (clean : ∀ c ∈ text, c ≠ 0 ∧ c ≠ quote) :
    nextArg (quote :: (text ++ [quote]) ++ rest) = some (text, some rest) := by
  have whole : ∀ c ∈ text, (c != quote) = true := fun c member => by simp [(clean c member).2]
  unfold nextArg
  rw [List.cons_append, List.dropWhile_cons_of_neg (by decide)]
  dsimp only
  rw [if_pos rfl, List.append_assoc, List.takeWhile_append_of_pos whole,
    List.dropWhile_append_of_pos whole]
  simp

theorem renderWords_cons (w : Token × List Blank) :
    renderWords (w :: words) = w.1.render ++ (Blank.render w.2 ++ renderWords words) := by
  simp [renderWords]

theorem Apart.tail {w : Token × List Blank} (apart : Apart (w :: words)) : Apart words := by
  intro v member
  cases words with
  | nil => cases member
  | cons w' words => exact apart v (List.mem_cons_of_mem w member)

/-- What is read of a line that begins with a token -/
theorem nextArg_word {w : Token × List Blank} (apart : Apart (w :: words)) :
    ∃ behind, nextArg (renderWords (w :: words)) = some (w.1.text, behind) ∧
      ((w.1.IsBare → w.2 ≠ []) ∧
          (∃ blanks, behind = some (Blank.render blanks ++ renderWords words)) ∨
        behind = none ∧ words = [] ∧ w.1.IsBare ∧ w.2 = []) := by
  obtain ⟨token, blanks⟩ := w
  rw [renderWords_cons]
  cases token with
  | quoted text clean => exact ⟨_, nextArg_quoted clean, .inl ⟨False.elim, blanks, rfl⟩⟩
  | bare text some' clean =>
      cases blanks with
      | nil =>
          cases words with
          | nil => exact ⟨none, nextArg_bare some' clean nofun, .inr ⟨rfl, rfl, trivial, rfl⟩⟩
          | cons w' words => exact absurd rfl (apart (.bare text some' clean, []) (by simp) trivial)
      | cons b blanks =>
          have ends : ∀ c ∈ (Blank.render (b :: blanks) ++ renderWords words).head?,
              isSpace c = true := by
            intro c first
            obtain rfl := Option.some.inj first
            exact b.isSpace_char
          exact ⟨_, nextArg_bare some' clean ends,
            .inl ⟨fun _ => List.cons_ne_nil b blanks, blanks, rfl⟩⟩

theorem parseLine_words (room : Nat) (apart : Apart words) (few : words.length ≤ room)
    (blanks : List Blank) :
    Priv.parseLine room (Blank.render blanks ++ renderWords words) =
      words.map fun w => w.1.text := by
  induction words generalizing room blanks with
  | nil =>
      cases room with
      | zero => rfl
      | succ room =>
          rw [parseLine_succ, nextArg_blanks]
          rfl
  | cons w words ih =>
      obtain ⟨room, rfl⟩ := Nat.exists_eq_succ_of_ne_zero (Nat.ne_zero_of_lt few)
      obtain ⟨behind, next, rest⟩ := nextArg_word apart
      rw [Nat.succ_eq_add_one, parseLine_succ, nextArg_blanks, next]
      cases rest with
      | inl more =>
          obtain ⟨-, blanks', rfl⟩ := more
          exact congrArg _ (ih room apart.tail (Nat.le_of_succ_le_succ few) blanks')
      | inr last =>
          obtain ⟨rfl, rfl, -, -⟩ := last
          rfl

/-- There is no room behind the last token, and the byte that ends it is not the end of the line. -/
theorem fills_words (room : Nat) (apart : Apart words) (few : words.length ≤ room)
    (blanks : List Blank) :
    Fills room (Blank.render blanks ++ renderWords words) ↔
      words.length = room ∧ ∀ w ∈ words.getLast?, w.1.IsBare → w.2 ≠ [] := by
  induction words generalizing room blanks with
  | nil =>
      cases room with
      | zero => simp [Fills]
      | succ room =>
          refine iff_of_false (not_fills ?_) (by simp)
          rw [nextArg_blanks]
          nofun
  | cons w words ih =>
      obtain ⟨room, rfl⟩ := Nat.exists_eq_succ_of_ne_zero (Nat.ne_zero_of_lt few)
      obtain ⟨behind, next, rest⟩ := nextArg_word apart
      rw [← nextArg_blanks blanks] at next
      cases rest with
      | inl more =>
          obtain ⟨ended, blanks', rfl⟩ := more
          rw [Nat.succ_eq_add_one, fills_next next, ih room apart.tail (Nat.le_of_succ_le_succ few),
            List.length_cons, Nat.add_right_cancel_iff]
          cases words with
          | nil => simpa using fun _ => ended
          | cons w' words => rw [List.getLast?_cons_cons]
      | inr last =>
          obtain ⟨rfl, rfl, bare, none⟩ := last
          refine iff_of_false (not_fills ?_) ?_
          · rw [next]
            nofun
          · intro full
            exact full.2 w rfl bare none

end Render

namespace Line

variable (line : Line)

theorem clean_render : 0 ∉ line.render := by
  unfold render renderWords
  rw [List.mem_append, List.mem_flatMap, not_or]
  refine ⟨Blank.clean_render _, ?_⟩
  rintro ⟨⟨token, blanks⟩, -, zero⟩
  obtain zero | zero := List.mem_append.mp zero
  · exact token.clean_render zero
  · exact Blank.clean_render _ zero

theorem parsed (argv : Nat → Option Nat) :
    State.Parsed ⟨line.render ++ [0], 0, argv, 0⟩ (parseLine line.render argv) cmdMaxargs []
      line.render :=
  State.At.loop cmdMaxargs ⟨rfl, rfl, line.clean_render⟩

theorem parseLine_render : Priv.parseLine cmdMaxargs line.render = line.tokens :=
  parseLine_words cmdMaxargs line.apart line.few line.lead

end Line

/-- The tokens come back, and `argv` is ended by `NULL`, exactly if there are fewer of them than
    there is room for, or the last one is bare and ends the line. -/
theorem parseLine_roundTrip_iff (line : Line) : RoundTrip line ↔
    line.words.length < cmdMaxargs ∨
      ∃ w, line.words.getLast? = some w ∧ w.1.IsBare ∧ w.2 = [] := by
  have fills := fills_words cmdMaxargs line.apart line.few line.lead
  constructor
  · intro trips
    by_contra full
    rw [not_or, not_lt] at full
    have ended : Fills cmdMaxargs line.render := by
      apply fills.mpr
      refine ⟨Nat.le_antisymm line.few full.1, fun w last bare none => ?_⟩
      exact full.2 ⟨w, last, bare, none⟩
    obtain ⟨-, -, null⟩ := trips fun _ => some 0
    rw [(line.parsed _).full ended] at null
    cases null
  · intro holds argv
    obtain ⟨-, ⟨ps, located, pointers⟩, nargs, -, ended, -⟩ := line.parsed argv
    rw [line.parseLine_render] at located nargs
    refine ⟨nargs.trans (Nat.zero_add _), ⟨ps, located, fun i p pointer => ?_⟩,
      ended fun full => ?_⟩
    · rw [← pointers i p pointer, Nat.zero_add]
    · obtain ⟨all, last⟩ := fills.mp full
      obtain few | ⟨w, last', bare, none⟩ := holds
      · omega
      · exact last w last' bare none

theorem letter : ∀ c ∈ ([97] : CString), c ≠ 0 ∧ isSpace c = false ∧ c ≠ newline ∧ c ≠ quote := by
  intro c member
  obtain rfl := List.mem_singleton.mp member
  decide

/-- Thirty tokens of one letter, each with a blank behind it -/
def thirty : Line where
  lead := []
  words := List.replicate 30 (.bare [97] (List.cons_ne_nil _ _) letter, [.space])
  apart := by
    intro w member _
    obtain rfl := List.eq_of_mem_replicate (List.mem_of_mem_dropLast member)
    exact List.cons_ne_nil _ _
  few := (List.length_replicate).le

/-- The vector of thirty tokens before a blank is left without its end. -/
theorem thirty_unterminated : ¬∀ line, RoundTrip line := by
  intro trips
  have full : Fills cmdMaxargs thirty.render := by
    apply (fills_words cmdMaxargs thirty.apart thirty.few thirty.lead).mpr
    refine ⟨List.length_replicate, fun w last _ => ?_⟩
    obtain rfl := List.eq_of_mem_replicate (List.mem_of_getLast? last)
    exact List.cons_ne_nil _ _
  obtain ⟨-, -, null⟩ := trips thirty fun _ => some 0
  rw [(thirty.parsed _).full full] at null
  cases null

end Aic8800.Priv.Argv
