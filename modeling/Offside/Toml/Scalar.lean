import Offside.Toml.Fault
import Offside.Toml.Value

/-!
# Scalars of a configuration file

How strings, numbers, dates and times are read. Every function takes the text that is ahead and
gives what it has read together with what is ahead afterwards; a question mark in the name means
that the text may as well be something else.
-/

namespace Offside.Toml

/-! ### Characters -/

/-- Spaces and tabs stand between the pieces of a line. -/
def isGap (c : Char) : Bool := c == ' ' || c == '\t'

/-- Spaces, tabs and line feeds stand between the items of an array. -/
def isWideGap (c : Char) : Bool := isGap c || c == '\n'

/-- The control characters of ASCII. -/
def isControl (c : Char) : Bool := c.toNat < 32 || c.toNat == 127

/-- The characters not allowed on a line of text: control characters other than the tab. -/
def isIllegal (c : Char) : Bool := isControl c && c != '\t'

/-- The characters not allowed in a text of several lines. -/
def isIllegalMultiline (c : Char) : Bool := isIllegal c && c != '\n'

/-- The value of a hexadecimal digit. -/
def hexValue? (c : Char) : Option Nat :=
  if '0' ≤ c ∧ c ≤ '9' then some (c.toNat - '0'.toNat)
  else if 'a' ≤ c ∧ c ≤ 'f' then some (c.toNat - 'a'.toNat + 10)
  else if 'A' ≤ c ∧ c ≤ 'F' then some (c.toNat - 'A'.toNat + 10)
  else none

/-- Whether the character is a digit in the base, which is at most sixteen. -/
def isDigitIn (base : Nat) (c : Char) : Bool := (hexValue? c).any (· < base)

/-- The number that digits in the base spell. -/
def valueIn (base : Nat) (digits : Text) : Nat :=
  digits.foldl (fun n c => n * base + (hexValue? c).getD 0) 0

/-! ### Literal strings -/

/-- Cut a text at the first occurrence of a delimiter. -/
def cutAt? (delimiter : Text) : Text → Option (Text × Text)
  | [] => if delimiter.isEmpty then some ([], []) else none
  | c :: s =>
    if delimiter.isPrefixOf (c :: s) then some ([], (c :: s).drop delimiter.length)
    else (cutAt? delimiter s).map fun (before, after) => (c :: before, after)

/-- Refuse a piece of text with an illegal character in it, which `ahead` begins with. -/
def refuseIllegal (illegal : Char → Bool) (piece ahead : Text) : Except Fault Unit :=
  match piece.findIdx? illegal with
  | some i =>
    match ahead.drop i with
    | c :: s => fail (.invalidCharacter c) (c :: s)
    | [] => .ok ()
  | none => .ok ()

/-- Read up to a delimiter and past it. -/
def readUntil (delimiter : Text) (illegal : Char → Bool) (s : Text) : Except Fault (Text × Text) :=
  match cutAt? delimiter s with
  | none => fail (.missingEnd delimiter) []
  | some (before, after) => do
    refuseIllegal illegal before s
    return (before, after)

/-- A literal string, behind its opening quote: nothing is escaped in it. -/
def literalString (s : Text) : Except Fault (Text × Text) := readUntil ['\''] isIllegal s

/-! ### Basic strings -/

/-- A character given by `count` hexadecimal digits. -/
def hexChar (count : Nat) (s : Text) : Except Fault (Text × Text) :=
  let digits := s.take count
  if digits.length < count || !digits.all (isDigitIn 16) then fail .invalidHex s
  else
    let n := valueIn 16 digits
    let rest := s.drop count
    if n < 0xD800 ∨ (0xDFFF < n ∧ n < 0x110000) then .ok ([Char.ofNat n], rest)
    else fail .notACharacter rest

/-- What a backslash and the character behind it stand for. -/
def simpleEscape? (c : Char) : Option Char :=
  if c = 'b' then some '\x08'
  else if c = 't' then some '\t'
  else if c = 'n' then some '\n'
  else if c = 'f' then some '\x0c'
  else if c = 'r' then some '\r'
  else if c = '"' then some '"'
  else if c = '\\' then some '\\'
  else none

/-- A line that ends with a backslash goes on with the next character that is not blank. Only
blanks may stand between the backslash and the end of the line. -/
def lineContinuation (s : Text) : Except Fault (Text × Text) :=
  match s.dropWhile isGap with
  | [] => .ok ([], [])
  | '\n' :: rest => .ok ([], rest.dropWhile isWideGap)
  | rest => fail .loneBackslash rest

/-- An escape, behind its backslash. -/
def escapeSequence (multiline : Bool) : Text → Except Fault (Text × Text)
  | [] => fail .loneBackslash []
  | c :: s =>
    if multiline && isWideGap c then lineContinuation (c :: s)
    else if c = 'u' then hexChar 4 s
    else if c = 'U' then hexChar 8 s
    else
      match simpleEscape? c with
      | some e => .ok ([e], s)
      | none => fail .loneBackslash s

/-- The rest of a basic string. Every step takes at least one character, so the length of the text
is enough `fuel`. -/
def basicStringFrom (multiline : Bool) : Nat → Text → Text → Except Fault (Text × Text)
  | 0, _, s => fail .unterminatedString s
  | _ + 1, _, [] => fail .unterminatedString []
  | fuel + 1, read, c :: s =>
    if c = '"' then
      if !multiline then .ok (read, s)
      else if ['"', '"'].isPrefixOf s then .ok (read, s.drop 2)
      else basicStringFrom multiline fuel (read ++ [c]) s
    else if c = '\\' then do
      let (escaped, rest) ← escapeSequence multiline s
      basicStringFrom multiline fuel (read ++ escaped) rest
    else if (if multiline then isIllegalMultiline c else isIllegal c) then
      fail (.illegalCharacter c) (c :: s)
    else basicStringFrom multiline fuel (read ++ [c]) s

/-- A basic string, behind its opening quotes. -/
def basicString (multiline : Bool) (s : Text) : Except Fault (Text × Text) :=
  basicStringFrom multiline (s.length + 1) [] s

/-- A string of several lines, behind its opening quotes. A line feed right behind them is dropped,
and up to two quotes in front of the closing ones belong to the string. -/
def multilineString (quote : Char) (s : Text) : Except Fault (Text × Text) := do
  let s := if s.head? = some '\n' then s.drop 1 else s
  let (text, rest) ←
    if quote = '"' then basicString true s
    else readUntil [quote, quote, quote] isIllegalMultiline s
  let extra := ((rest.take 2).takeWhile (· == quote)).length
  return (text ++ List.replicate extra quote, rest.drop extra)

/-! ### Numbers -/

/-- Digits in a base, with single underscores allowed between them. The underscores are dropped. -/
def digitRun (base : Nat) : Text → Text × Text
  | [] => ([], [])
  | '_' :: c :: s =>
    if isDigitIn base c then
      let (digits, rest) := digitRun base s
      (c :: digits, rest)
    else ([], '_' :: c :: s)
  | c :: s =>
    if isDigitIn base c then
      let (digits, rest) := digitRun base s
      (c :: digits, rest)
    else ([], c :: s)

/-- Digits in a base, at least one, of which the first is no underscore. -/
def digits? (base : Nat) (s : Text) : Option (Text × Text) :=
  match s with
  | c :: _ => if isDigitIn base c then some (digitRun base s) else none
  | [] => none

/-- An integer in another base than ten. -/
def basedInteger? : Text → Option (Int × Text)
  | '0' :: 'x' :: s => (digits? 16 s).map fun (ds, rest) => ((valueIn 16 ds : Int), rest)
  | '0' :: 'b' :: s => (digits? 2 s).map fun (ds, rest) => ((valueIn 2 ds : Int), rest)
  | '0' :: 'o' :: s => (digits? 8 s).map fun (ds, rest) => ((valueIn 8 ds : Int), rest)
  | _ => none

/-- An optional sign: whether it is a minus. -/
def sign : Text → Bool × Text
  | '-' :: s => (true, s)
  | '+' :: s => (false, s)
  | s => (false, s)

/-- The whole part of a decimal: a single zero, or digits that do not start with zero. -/
def wholePart? : Text → Option (Text × Text)
  | '0' :: s => some (['0'], s)
  | s => digits? 10 s

/-- The fraction of a decimal, if there is one. -/
def fractionPart? : Text → Option (Text × Text)
  | '.' :: s => digits? 10 s
  | _ => none

/-- The exponent of a decimal, if there is one. -/
def exponentPart? : Text → Option (Int × Text)
  | c :: s =>
    if c = 'e' ∨ c = 'E' then
      let (negative, s) := sign s
      (digits? 10 s).map fun (ds, rest) =>
        let n : Int := valueIn 10 ds
        (if negative then -n else n, rest)
    else none
  | [] => none

/-- The greatest number of digits of a decimal integer. -/
def maxDigits : Nat := 4300

/-- A number. It is an integer unless it has a fraction or an exponent. -/
def number? (s : Text) : Option (Except Fault (Value × Text)) :=
  match basedInteger? s with
  | some (n, rest) => some (.ok (.integer n, rest))
  | none =>
    let (negative, unsigned) := sign s
    match wholePart? unsigned with
    | none => none
    | some (whole, rest) =>
      let fraction := fractionPart? rest
      let rest := (fraction.map (·.2)).getD rest
      let exponent := exponentPart? rest
      let rest := (exponent.map (·.2)).getD rest
      if fraction.isNone && exponent.isNone then
        if maxDigits < whole.length then some (fail (.longInteger whole.length) s)
        else
          let n : Int := valueIn 10 whole
          some (.ok (.integer (if negative then -n else n), rest))
      else
        let decimals := (fraction.map (·.1)).getD []
        let power := (exponent.map (·.1)).getD 0 - decimals.length
        some (.ok (.float (.ofDecimal negative (valueIn 10 (whole ++ decimals)) power), rest))

/-- An infinite number, or what is not a number. -/
def specialFloat? (s : Text) : Option (Value × Text) :=
  let (negative, unsigned) := sign s
  if "inf".toList.isPrefixOf unsigned then some (.float (.infinite negative), unsigned.drop 3)
  else if "nan".toList.isPrefixOf unsigned then some (.float .notANumber, unsigned.drop 3)
  else none

/-! ### Dates and times -/

/-- A number of exactly `count` decimal digits. -/
def fixedDigits? (count : Nat) (s : Text) : Option (Nat × Text) :=
  let digits := s.take count
  if digits.length = count ∧ digits.all (isDigitIn 10) then some (valueIn 10 digits, s.drop count)
  else none

/-- A number of two digits between limits. -/
def twoDigits? (low high : Nat) (s : Text) : Option (Nat × Text) := do
  let (n, rest) ← fixedDigits? 2 s
  guard (low ≤ n ∧ n ≤ high)
  return (n, rest)

/-- The text behind the given character. -/
def after? (c : Char) : Text → Option Text
  | d :: s => if c = d then some s else none
  | [] => none

/-- The millionths of a second, of which the first six digits count. -/
def micros (s : Text) : Nat × Text :=
  match s with
  | '.' :: rest =>
    let digits := rest.takeWhile (isDigitIn 10)
    let kept := digits.take 6
    if digits.isEmpty then (0, s)
    else (valueIn 10 kept * Nat.pow 10 (6 - kept.length), rest.drop digits.length)
  | _ => (0, s)

/-- A time of day. -/
def time? (s : Text) : Option (Time × Text) := do
  let (hour, s) ← twoDigits? 0 23 s
  let (minute, s) ← twoDigits? 0 59 (← after? ':' s)
  let (second, s) ← twoDigits? 0 59 (← after? ':' s)
  let (micro, s) := micros s
  return (⟨hour, minute, second, micro⟩, s)

/-- The distance from universal time in minutes. -/
def offset? (s : Text) : Option (Int × Text) :=
  match s with
  | [] => none
  | c :: s =>
    if c = 'Z' ∨ c = 'z' then some (0, s)
    else if c = '+' ∨ c = '-' then do
      let (hours, s) ← twoDigits? 0 23 s
      let (minutes, s) ← twoDigits? 0 59 (← after? ':' s)
      let n : Int := hours * 60 + minutes
      return (if c = '-' then -n else n, s)
    else none

/-- A date as it is written, which the calendar may not have. -/
def date? (s : Text) : Option (Date × Text) := do
  let (year, s) ← fixedDigits? 4 s
  let (month, s) ← twoDigits? 1 12 (← after? '-' s)
  let (day, s) ← twoDigits? 1 31 (← after? '-' s)
  return (⟨year, month, day⟩, s)

/-- The time behind a date, which a space or a letter divides from it. -/
def timeAfterDate? : Text → Option (Time × Text)
  | c :: s => if c = 'T' ∨ c = 't' ∨ c = ' ' then time? s else none
  | [] => none

/-- A date, with or without a time. -/
def dateTime? (s : Text) : Option (Except Fault (Value × Text)) := do
  let (date, rest) ← date? s
  if !date.isValid then return fail .invalidDate s
  match timeAfterDate? rest with
  | none => return .ok (.date date, rest)
  | some (time, rest) =>
    match offset? rest with
    | none => return .ok (.dateTime date time none, rest)
    | some (minutes, rest) => return .ok (.dateTime date time (some minutes), rest)

end Offside.Toml
