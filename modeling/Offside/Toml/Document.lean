import Offside.Toml.Scalar

/-!
# Configuration files

A configuration file is a list of statements, one on a line. A statement gives a key a value, or
names the table that the following keys belong to. A key with dots leads through tables, which
are made on the way.

What has been written once stays. A key has one value, a table is named once, and a table or an
array that is written out as a value gets nothing added later. The reader keeps track of this in
lists of keys: of the tables that must not be named again, and of the values that are closed.

The functions that read nested values take a bound on the number of calls. A value of `n`
characters needs at most `2 * n + 2`, which is what the reader starts with. So values may be nested
to any depth: as for outlines, a limit on the depth of nested calls is left out.
-/

namespace Offside.Toml

/-! ### Comments -/

/-- Skip a comment, if the text begins with one. -/
def skipComment : Text → Except Fault Text
  | '#' :: s => do
    refuseIllegal isIllegal (s.takeWhile (· != '\n')) s
    return s.dropWhile (· != '\n')
  | s => .ok s

/-- Skip blanks, line feeds and comments between the items of an array. Every round but the last
takes at least one character. -/
def skipArrayGap : Nat → Text → Except Fault Text
  | 0, s => .ok s
  | fuel + 1, s => do
    let rest ← skipComment (s.dropWhile isWideGap)
    if rest.length = s.length then return rest else skipArrayGap fuel rest

/-! ### Keys -/

/-- The characters of a name without quotes. -/
def isBareKey (c : Char) : Bool := c.isAlphanum || c == '-' || c == '_'

/-- One name of a key, with or without quotes. -/
def keyPart (s : Text) : Except Fault (Text × Text) :=
  match s with
  | [] => fail .invalidKeyStart s
  | c :: rest =>
    if isBareKey c then .ok (s.takeWhile isBareKey, s.dropWhile isBareKey)
    else if c = '\'' then literalString rest
    else if c = '"' then basicString false rest
    else fail .invalidKeyStart s

/-- The names of a key that are left, with dots between them. Every name takes at least one
character. -/
def keyFrom : Nat → Key → Text → Except Fault (Key × Text)
  | 0, key, s => .ok (key, s)
  | fuel + 1, key, s => do
    let (name, rest) ← keyPart s
    match rest.dropWhile isGap with
    | '.' :: rest => keyFrom fuel (key ++ [name]) (rest.dropWhile isGap)
    | rest => return (key ++ [name], rest)

/-- A key, and the blanks behind it. -/
def key (s : Text) : Except Fault (Key × Text) := keyFrom (s.length + 1) [] s

/-- A key and the equals sign, with the blanks behind it. -/
def keyEquals (s : Text) : Except Fault (Key × Text) := do
  let (key, rest) ← key s
  match rest with
  | '=' :: rest => return (key, rest.dropWhile isGap)
  | _ => fail .missingEquals rest

/-! ### Tables -/

/-- Change the table at the end of a key. Tables that are missing on the way are made; where
`lists` allows it, an array on the way stands for the last table in it. -/
def Table.update (lists : Bool) (change : Table → Except Cause Table) :
    Key → Table → Except Cause Table
  | [], t => change t
  | name :: names, t =>
    match t.get? name with
    | none => do
      let inner ← update lists change names []
      return t.set name (.table inner)
    | some (.table inner) => do
      let inner ← update lists change names inner
      return t.set name (.table inner)
    | some (.array items) =>
      match lists, items.getLast? with
      | true, some (.table inner) => do
        let inner ← update lists change names inner
        return t.set name (.array (items.dropLast ++ [.table inner]))
      | _, _ => .error .overwritten
    | some _ => .error .overwritten

/-- Give a new key a value, and fail for the given cause if the table has the key. -/
def Table.insertNew (name : Text) (value : Value) (taken : Cause) (t : Table) :
    Except Cause Table :=
  match t.get? name with
  | some _ => .error taken
  | none => .ok (t.set name value)

/-- Add an empty table to the array of tables of the given name. -/
def Table.appendTable (name : Text) (t : Table) : Except Cause Table :=
  match t.get? name with
  | none => .ok (t.set name (.array [.table []]))
  | some (.array items) => .ok (t.set name (.array (items ++ [.table []])))
  | some _ => .error .overwritten

/-- Let a cause be found in front of the given text. -/
def before {α : Type} (ahead : Text) : Except Cause α → Except Fault α
  | .ok a => .ok a
  | .error cause => fail cause ahead

/-- Whether a key is among the closed ones or leads into one of them. -/
def isClosed (closed : List Key) (key : Key) : Bool := closed.any (·.isPrefixOf key)

/-- Whether a value is a table or an array that is written out. -/
def Value.isContainer : Value → Bool
  | .table _ => true
  | .array _ => true
  | _ => false

/-! ### Values -/

/-- A value that is not an array or a table. -/
def scalar (s : Text) : Except Fault (Value × Text) :=
  match s with
  | '"' :: '"' :: '"' :: rest =>
    (multilineString '"' rest).map fun (text, rest) => (.string text, rest)
  | '"' :: rest => (basicString false rest).map fun (text, rest) => (.string text, rest)
  | '\'' :: '\'' :: '\'' :: rest =>
    (multilineString '\'' rest).map fun (text, rest) => (.string text, rest)
  | '\'' :: rest => (literalString rest).map fun (text, rest) => (.string text, rest)
  | _ =>
    if "true".toList.isPrefixOf s then .ok (.boolean true, s.drop 4)
    else if "false".toList.isPrefixOf s then .ok (.boolean false, s.drop 5)
    else
      match dateTime? s with
      | some parsed => parsed
      | none =>
        match time? s with
        | some (time, rest) => .ok (.time time, rest)
        | none =>
          match number? s with
          | some parsed => parsed
          | none =>
            match specialFloat? s with
            | some (value, rest) => .ok (value, rest)
            | none => fail .invalidValue s

mutual

/-- A value. -/
def value : Nat → Text → Except Fault (Value × Text)
  | 0, s => fail .invalidValue s
  | fuel + 1, s =>
    match s with
    | '[' :: rest => do
      let rest ← skipArrayGap (rest.length + 1) rest
      match rest with
      | ']' :: rest => return (.array [], rest)
      | _ => arrayItems fuel [] rest
    | '\x7b' :: rest =>
      match rest.dropWhile isGap with
      | '\x7d' :: rest => .ok (.table [], rest)
      | rest => inlineEntries fuel [] [] rest
    | _ => scalar s

/-- The items of an array that are left; there is at least one. -/
def arrayItems : Nat → List Value → Text → Except Fault (Value × Text)
  | 0, _, s => fail .unclosedArray s
  | fuel + 1, items, s => do
    let (item, rest) ← value fuel s
    let items := items ++ [item]
    match ← skipArrayGap (rest.length + 1) rest with
    | ']' :: rest => return (.array items, rest)
    | ',' :: rest =>
      match ← skipArrayGap (rest.length + 1) rest with
      | ']' :: rest => return (.array items, rest)
      | rest => arrayItems fuel items rest
    | rest => fail .unclosedArray rest

/-- The entries that are left of a table written as a value; there is at least one. -/
def inlineEntries : Nat → List Key → Table → Text → Except Fault (Value × Text)
  | 0, _, _, s => fail .unclosedInlineTable s
  | fuel + 1, closed, table, s => do
    let (key, rest) ← keyEquals s
    let (entry, rest) ← value fuel rest
    if isClosed closed key then fail (.immutable key) rest
    let name := key.getLast?.getD []
    let table ← before rest
      (table.update false (Table.insertNew name entry (.duplicateKey name)) key.dropLast)
    match rest.dropWhile isGap with
    | '\x7d' :: rest => return (.table table, rest)
    | ',' :: rest =>
      let closed := if entry.isContainer then key :: closed else closed
      inlineEntries fuel closed table (rest.dropWhile isGap)
    | rest => fail .unclosedInlineTable rest

end

/-! ### Statements -/

/-- What has been read: the outermost table, the table that keys go to at the moment, the tables
that must not be named again, those that must not be from the next section on, and the values
that are closed. -/
structure Progress where
  root : Table
  current : Key
  named : List Key
  pending : List Key
  closed : List Key
  deriving Repr

/-- Nothing has been read. -/
def Progress.start : Progress := ⟨[], [], [], [], []⟩

/-- The keys that lead to the tables on the way to a key, itself not included, from the outermost
on. -/
def tablesOn (base : Key) : Key → List Key
  | [] => []
  | [_] => []
  | name :: names => (base ++ [name]) :: tablesOn (base ++ [name]) names

/-- A statement that gives a key a value. -/
def entryStatement (p : Progress) (s : Text) : Except Fault (Progress × Text) := do
  let (key, rest) ← keyEquals s
  let (entry, rest) ← value (2 * rest.length + 2) rest
  let name := key.getLast?.getD []
  let parent := p.current ++ key.dropLast
  let passed := tablesOn p.current key
  match passed.find? p.named.contains with
  | some again => fail (.redefined again) rest
  | none =>
    if isClosed p.closed parent then fail (.immutable parent) rest
    let root ← before rest
      (p.root.update true (Table.insertNew name entry .overwritten) parent)
    let closed := if entry.isContainer then (p.current ++ key) :: p.closed else p.closed
    return ({ p with root, closed, pending := p.pending ++ passed }, rest)

/-- A statement that names a table, behind its opening bracket. -/
def tableStatement (p : Progress) (s : Text) : Except Fault (Progress × Text) := do
  let (key, rest) ← key (s.dropWhile isGap)
  if p.named.contains key || isClosed p.closed key then fail (.declaredTwice key) rest
  let root ← before rest (p.root.update true .ok key)
  match rest with
  | ']' :: rest => return ({ p with root, current := key, named := key :: p.named }, rest)
  | _ => fail .unclosedTableName rest

/-- A statement that adds a table to an array of tables, behind its opening brackets. The tables
below it can be named anew. -/
def arrayStatement (p : Progress) (s : Text) : Except Fault (Progress × Text) := do
  let (key, rest) ← key (s.dropWhile isGap)
  if isClosed p.closed key then fail (.immutable key) rest
  let named := key :: p.named.filter fun k => !key.isPrefixOf k
  let closed := p.closed.filter fun k => !key.isPrefixOf k
  let root ← before rest
    (p.root.update true (Table.appendTable (key.getLast?.getD [])) key.dropLast)
  match rest with
  | ']' :: ']' :: rest => return ({ p with root, current := key, named, closed }, rest)
  | _ => fail .unclosedArrayName rest

/-- The beginning of a section: what was pending is in force. -/
def Progress.settle (p : Progress) : Progress :=
  { p with named := p.pending ++ p.named, pending := [] }

/-- A statement, if there is one on the line. -/
def statement (p : Progress) (s : Text) : Except Fault (Progress × Text) :=
  match s with
  | '[' :: '[' :: rest => arrayStatement p.settle rest
  | '[' :: rest => tableStatement p.settle rest
  | '#' :: _ => .ok (p, s)
  | c :: _ =>
    if isBareKey c || c == '"' || c == '\'' then entryStatement p s else fail .invalidStatement s
  | [] => .ok (p, s)

/-- The statements that are left. Every line takes at least one character. -/
def statements : Nat → Progress → Text → Except Fault Progress
  | 0, p, _ => .ok p
  | fuel + 1, p, s =>
    match s.dropWhile isGap with
    | [] => .ok p
    | '\n' :: rest => statements fuel p rest
    | s => do
      let (p, rest) ← statement p s
      match ← skipComment (rest.dropWhile isGap) with
      | [] => return p
      | '\n' :: rest => statements fuel p rest
      | rest => fail .trailingText rest

/-- Write carriage returns that stand before a line feed as nothing. -/
def dropReturns : Text → Text
  | [] => []
  | '\r' :: '\n' :: s => '\n' :: dropReturns s
  | c :: s => c :: dropReturns s

/-- A text that cannot be read, with the fault in it. -/
structure Unreadable where
  source : Text
  fault : Fault
  deriving DecidableEq, Repr

/-- What is wrong with the text, in words. -/
def Unreadable.message (e : Unreadable) : Text := e.fault.message e.source

/-- Read a configuration file. -/
def parse (text : Text) : Except Unreadable Table :=
  let source := dropReturns text
  match statements (source.length + 1) .start source with
  | .ok p => .ok p.root
  | .error fault => .error ⟨source, fault⟩

end Offside.Toml
