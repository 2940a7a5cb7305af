import Offside.Text.Quoted

/-!
# Faults in a configuration file

Why a configuration file cannot be read. Reading keeps the part of the text that is still ahead,
and a fault remembers it: the place of the fault is where that part begins. Places are given by
line and column, both counted from one.
-/

namespace Offside.Toml

/-- A key: the names that lead to a value from the outermost table. -/
abbrev Key := List Text

/-- A key in parentheses, with a comma behind it if it has only one name. -/
def Key.shown (key : Key) : Text :=
  '(' :: (List.intercalate [',', ' '] (key.map Text.quoted)
    ++ (if key.length = 1 then [',', ')'] else [')']))

/-- The kinds of faults. -/
inductive Cause where
  | invalidStatement
  | trailingText
  | unclosedTableName
  | unclosedArrayName
  | declaredTwice (key : Key)
  | immutable (key : Key)
  | redefined (key : Key)
  | overwritten
  | missingEquals
  | invalidKeyStart
  | invalidValue
  | invalidDate
  | unclosedArray
  | unclosedInlineTable
  | duplicateKey (name : Text)
  | loneBackslash
  | invalidHex
  | notACharacter
  | unterminatedString
  | illegalCharacter (c : Char)
  | invalidCharacter (c : Char)
  | missingEnd (delimiter : Text)
  /-- A decimal integer with too many digits, of which this is the number. -/
  | longInteger (digits : Nat)
  deriving DecidableEq, Repr

/-- The fault in words. -/
def Cause.message : Cause → Text
  | .invalidStatement => "Invalid statement".toList
  | .trailingText => "Expected newline or end of document after a statement".toList
  | .unclosedTableName => "Expected ']' at the end of a table declaration".toList
  | .unclosedArrayName => "Expected ']]' at the end of an array declaration".toList
  | .declaredTwice key => "Cannot declare ".toList ++ key.shown ++ " twice".toList
  | .immutable key => "Cannot mutate immutable namespace ".toList ++ key.shown
  | .redefined key => "Cannot redefine namespace ".toList ++ key.shown
  | .overwritten => "Cannot overwrite a value".toList
  | .missingEquals => "Expected '=' after a key in a key/value pair".toList
  | .invalidKeyStart => "Invalid initial character for a key part".toList
  | .invalidValue => "Invalid value".toList
  | .invalidDate => "Invalid date or datetime".toList
  | .unclosedArray => "Unclosed array".toList
  | .unclosedInlineTable => "Unclosed inline table".toList
  | .duplicateKey name => "Duplicate inline table key ".toList ++ Text.quoted name
  | .loneBackslash => "Unescaped '\\' in a string".toList
  | .invalidHex => "Invalid hex value".toList
  | .notACharacter => "Escaped character is not a Unicode scalar value".toList
  | .unterminatedString => "Unterminated string".toList
  | .illegalCharacter c => "Illegal character ".toList ++ Text.quoted [c]
  | .invalidCharacter c => "Found invalid character ".toList ++ Text.quoted [c]
  | .missingEnd delimiter => "Expected ".toList ++ Text.quoted delimiter
  | .longInteger digits =>
    "Exceeds the limit (4300 digits) for integer string conversion: value has ".toList
      ++ Text.ofNat digits
      ++ " digits; use sys.set_int_max_str_digits() to increase the limit".toList

/-- A fault, with the text that was still ahead when it was found. -/
structure Fault where
  cause : Cause
  ahead : Text
  deriving DecidableEq, Repr

/-- The place in a text where the last `ahead.length` characters begin, in words. -/
def placeText (source ahead : Text) : Text :=
  let behind := source.take (source.length - ahead.length)
  if ahead.isEmpty then "end of document".toList
  else
    "line ".toList ++ Text.ofNat (behind.count '\n' + 1)
      ++ ", column ".toList ++ Text.ofNat ((Text.afterLast '\n' behind).length + 1)

/-- What is wrong with a text and where, in words. The length of an integer is a limit of the
reader, not a fault of the text, and has no place. -/
def Fault.message (source : Text) (fault : Fault) : Text :=
  match fault.cause with
  | .longInteger _ => fault.cause.message
  | _ => fault.cause.message ++ " (at ".toList ++ placeText source fault.ahead ++ [')']

/-- Fail in front of the given text. -/
def fail {α : Type} (cause : Cause) (ahead : Text) : Except Fault α := .error ⟨cause, ahead⟩

end Offside.Toml
