import Offside.Decimal.Shortest
import Offside.Text.Quoted

/-!
# Values of a configuration file

The values that a configuration file can hold, and the two ways of writing them. Shown inside
another value, a text is quoted and a date is spelled out with the name of its kind. On its own, a
text stands as it is and a date is written in the usual form.
-/

namespace Offside.Toml

/-! ### Dates and times -/

/-- A day of the calendar. -/
structure Date where
  year : Nat
  month : Nat
  day : Nat
  deriving DecidableEq, Repr

/-- A time of day, to the millionth of a second. -/
structure Time where
  hour : Nat
  minute : Nat
  second : Nat
  micros : Nat
  deriving DecidableEq, Repr

namespace Date

/-- Whether the year has a leap day. -/
def isLeap (year : Nat) : Bool := year % 4 == 0 && (year % 100 != 0 || year % 400 == 0)

/-- The number of days of a month. -/
def daysIn (year month : Nat) : Nat :=
  if month = 2 then (if isLeap year then 29 else 28)
  else if month = 4 ∨ month = 6 ∨ month = 9 ∨ month = 11 then 30
  else 31

/-- Whether the calendar has such a day. It starts with the year one. -/
def isValid (d : Date) : Bool := 1 ≤ d.year && 1 ≤ d.day && d.day ≤ daysIn d.year d.month

/-- The date as year, month and day. -/
def toText (d : Date) : Text :=
  Text.zeroPad 4 (Text.ofNat d.year) ++ '-' :: (Text.zeroPad 2 (Text.ofNat d.month)
    ++ '-' :: Text.zeroPad 2 (Text.ofNat d.day))

end Date

namespace Time

/-- The time as hours, minutes and seconds, with millionths if there are any. -/
def toText (t : Time) : Text :=
  Text.zeroPad 2 (Text.ofNat t.hour) ++ ':' :: (Text.zeroPad 2 (Text.ofNat t.minute)
    ++ ':' :: (Text.zeroPad 2 (Text.ofNat t.second)
      ++ (if t.micros = 0 then [] else '.' :: Text.zeroPad 6 (Text.ofNat t.micros))))

/-- The parts of a time that have to be told: seconds and millionths are left out if nothing but
zeros follows. -/
def parts (t : Time) : List Nat :=
  if t.micros ≠ 0 then [t.hour, t.minute, t.second, t.micros]
  else if t.second ≠ 0 then [t.hour, t.minute, t.second]
  else [t.hour, t.minute]

end Time

/-- The distance of a local time from universal time, in minutes, as hours and minutes. -/
def offsetText (minutes : Int) : Text :=
  (if minutes < 0 then '-' else '+') ::
    (Text.zeroPad 2 (Text.ofNat (minutes.natAbs / 60))
      ++ ':' :: Text.zeroPad 2 (Text.ofNat (minutes.natAbs % 60)))

/-! ### Values -/

/-- A value of a configuration file. A table keeps its keys in the order of the file. -/
inductive Value where
  | string (text : Text)
  | integer (n : Int)
  | float (x : Binary64)
  | boolean (b : Bool)
  | date (d : Date)
  | time (t : Time)
  | dateTime (d : Date) (t : Time) (offset : Option Int)
  | array (items : List Value)
  | table (entries : List (Text × Value))
  deriving Repr

/-- Keys with their values, in the order of the file. -/
abbrev Table := List (Text × Value)

namespace Value

/-- Whether a value counts as true: everything does but false, zero and what is empty. -/
def isTrue : Value → Bool
  | .string text => !text.isEmpty
  | .integer n => n != 0
  | .float x => !x.isZero
  | .boolean b => b
  | .array items => !items.isEmpty
  | .table entries => !entries.isEmpty
  | _ => true

/-- Texts with a comma between them. -/
def commas (ts : List Text) : Text := List.intercalate [',', ' '] ts

/-- Numbers with a comma between them. -/
def numbers (ns : List Nat) : Text := commas (ns.map Text.ofNat)

/-- The zone of a local time, spelled out: universal time, or a distance in seconds that is
counted forward from the day before if it is negative. -/
def zone (minutes : Int) : Text :=
  if minutes = 0 then "datetime.timezone.utc".toList
  else
    "datetime.timezone(datetime.timedelta(".toList
      ++ (if minutes < 0 then "days=-1, ".toList else [])
      ++ "seconds=".toList ++ Text.ofInt (minutes * 60 % 86400) ++ "))".toList

mutual

/-- A value as it is shown inside another one. -/
def shown : Value → Text
  | .string text => Text.quoted text
  | .integer n => Text.ofInt n
  | .float x => x.toText
  | .boolean b => if b then "True".toList else "False".toList
  | .date d => "datetime.date(".toList ++ numbers [d.year, d.month, d.day] ++ [')']
  | .time t => "datetime.time(".toList ++ numbers t.parts ++ [')']
  | .dateTime d t offset =>
    "datetime.datetime(".toList ++ numbers ([d.year, d.month, d.day] ++ t.parts)
      ++ (match offset with
        | some minutes => ", tzinfo=".toList ++ zone minutes
        | none => [])
      ++ [')']
  | .array items => '[' :: (commas (shownItems items) ++ [']'])
  | .table entries => '\x7b' :: (commas (shownEntries entries) ++ ['\x7d'])

/-- The items of an array as they are shown. -/
def shownItems : List Value → List Text
  | [] => []
  | item :: items => item.shown :: shownItems items

/-- The entries of a table as they are shown. -/
def shownEntries : List (Text × Value) → List Text
  | [] => []
  | (key, value) :: entries =>
    (Text.quoted key ++ ':' :: ' ' :: value.shown) :: shownEntries entries

end

/-- A value as it stands on its own. -/
def toText : Value → Text
  | .string text => text
  | .date d => d.toText
  | .time t => t.toText
  | .dateTime d t offset => d.toText ++ ' ' :: (t.toText ++ (offset.map offsetText).getD [])
  | v => v.shown

mutual

/-- Whether a value is written with all its integers in at most `limit` decimal digits. -/
def fits (limit : Nat) : Value → Bool
  | .integer n => n.natAbs < Nat.pow 10 limit
  | .array items => fitsItems limit items
  | .table entries => fitsEntries limit entries
  | _ => true

/-- Whether the items of an array are written with at most `limit` digits. -/
def fitsItems (limit : Nat) : List Value → Bool
  | [] => true
  | item :: items => item.fits limit && fitsItems limit items

/-- Whether the entries of a table are written with at most `limit` digits. -/
def fitsEntries (limit : Nat) : List (Text × Value) → Bool
  | [] => true
  | (_, value) :: entries => value.fits limit && fitsEntries limit entries

end

end Value

namespace Table

/-- The value of a key. -/
def get? (t : Table) (key : Text) : Option Value := t.lookup key

/-- Give a key a value. A new key goes to the end. -/
def set (t : Table) (key : Text) (value : Value) : Table :=
  if t.any (·.1 == key) then t.map fun e => if e.1 == key then (key, value) else e
  else t ++ [(key, value)]

end Table

end Offside.Toml
