import Offside.Text.Digit
import Offside.Text.Quoted

/-!
# Command-line arguments

The arguments of a run are switches and at most one operand, the input. Before anything is done,
every argument is sorted into switches and operands:

* an argument that starts with a hyphen and something more is a switch, unless it looks like a
  negative number or has a space in it;
* a long switch may be cut short as long as it stays unique, and may have its value behind an
  equals sign;
* a short switch may have its value right behind it, or further short switches;
* a double hyphen makes operands of all the arguments after it, and attached to a switch it is no
  value.

Then the arguments are taken from left to right. What nothing can be done with is collected and
refused at the end.

There are two conventions for what is attached to a switch, and this is the older one:

* `-h=h` is `-hh`: what stands behind the equals sign spells further switches. In the newer one it
  is refused, since `-h` takes no value.
* `-hx` is refused, since no switch is spelled `-x`. In the newer one the help is shown before the
  rest of the argument is looked at.
* `-o--`, `--output=--` and `--config=--` are switches given without a value. In the newer one the
  double hyphen is their value.
-/

namespace Offside

/-- The value of a switch: the switch is not given, it is given without a value, or with one. -/
inductive SwitchValue where
  | unset
  | blank
  | given (text : Text)
  deriving DecidableEq, Repr

/-- The arguments of a run. -/
structure Arguments where
  input : Text
  output : SwitchValue
  config : SwitchValue
  keepGoing : Bool
  check : Bool
  debug : Bool
  deriving DecidableEq, Repr

namespace Arguments

/-- The arguments of a run without any: the working directory is the input. -/
def default : Arguments := ⟨['.'], .unset, .unset, false, false, false⟩

/-! ### Switches -/

/-- The switches. -/
inductive Switch where
  | help
  | output
  | config
  | keepGoing
  | check
  | debug
  deriving DecidableEq, Repr

/-- The spellings of the switches. -/
def spellings : List (Text × Switch) :=
  [("-h".toList, .help), ("--help".toList, .help), ("-o".toList, .output),
    ("--output".toList, .output), ("--config".toList, .config),
    ("--keep-going".toList, .keepGoing), ("--check".toList, .check), ("--debug".toList, .debug)]

/-- All spellings of a switch, as messages show them. -/
def Switch.label (switch : Switch) : Text :=
  List.intercalate ['/'] ((spellings.filter (·.2 == switch)).map (·.1))

/-- Whether a value belongs to the switch. -/
def Switch.takesValue : Switch → Bool
  | .output => true
  | .config => true
  | _ => false

/-- Why the arguments are refused. -/
inductive Fault where
  | ambiguous (argument : Text) (candidates : List Text)
  | unexpectedValue (switch : Switch) (value : Text)
  | missingValue (switch : Switch)
  | unrecognized (arguments : List Text)
  deriving DecidableEq, Repr

/-- The fault in words. -/
def Fault.message : Fault → Text
  | .ambiguous argument candidates =>
    "ambiguous option: ".toList ++ argument ++ " could match ".toList
      ++ List.intercalate [',', ' '] candidates
  | .unexpectedValue switch value =>
    "argument ".toList ++ switch.label ++ ": ignored explicit argument ".toList
      ++ Text.quoted value
  | .missingValue switch => "argument ".toList ++ switch.label ++ ": expected one argument".toList
  | .unrecognized arguments =>
    "unrecognized arguments: ".toList ++ List.intercalate [' '] arguments

/-! ### Sorting the arguments -/

/-- An argument, sorted. A switch may be spelled with a single hyphen, and may have a text attached
to it. -/
inductive Word where
  | operand (text : Text)
  | switch (switch : Switch) (short : Bool) (attached : Option Text)
  | unknown (text : Text)
  deriving DecidableEq, Repr

/-- Whether the text is a negative number in decimal digits, perhaps with a line feed behind it. -/
def isNegativeNumber : Text → Bool
  | '-' :: s =>
    let s := if s.getLast? = some '\n' then s.dropLast else s
    let fraction := (s.dropWhile Text.isDecimalDigit).drop 1
    match s.dropWhile Text.isDecimalDigit with
    | [] => !s.isEmpty
    | c :: _ => c == '.' && !fraction.isEmpty && fraction.all Text.isDecimalDigit
  | _ => false

/-- The part of a text in front of its first equals sign, and the part behind it. -/
def splitEquals (s : Text) : Text × Option Text :=
  match s.dropWhile (· != '=') with
  | [] => (s, none)
  | _ :: value => (s.takeWhile (· != '='), some value)

/-- The switches that an argument, which is none by itself, may be meant for. -/
def candidates (s : Text) : List (Text × Switch × Option Text) :=
  if ['-', '-'].isPrefixOf s then
    let (name, value) := splitEquals s
    (spellings.filter fun e => name.isPrefixOf e.1).map fun e => (e.1, e.2, value)
  else
    (spellings.filter fun e => e.1 == s.take 2).map fun e => (e.1, e.2, some (s.drop 2))

/-- Whether a spelling of a switch has a single hyphen. -/
def isShort (spelling : Text) : Bool := !(['-', '-'].isPrefixOf spelling)

/-- Sort one argument. -/
def classify (s : Text) : Except Fault Word :=
  if s.head? ≠ some '-' then .ok (.operand s)
  else
    match spellings.lookup s with
    | some switch => .ok (.switch switch (isShort s) none)
    | none =>
      if s.length = 1 then .ok (.operand s)
      else
        let (name, value) := splitEquals s
        match spellings.lookup name, value with
        | some switch, some v => .ok (.switch switch (isShort name) (some v))
        | _, _ =>
          match candidates s with
          | [(spelling, switch, attached)] => .ok (.switch switch (isShort spelling) attached)
          | [] =>
            if isNegativeNumber s || s.contains ' ' then .ok (.operand s) else .ok (.unknown s)
          | several => .error (.ambiguous s (several.map (·.1)))

/-- The double hyphen that ends the switches. -/
def divider : Text := ['-', '-']

/-- Sort the arguments in front of the divider. The arguments behind it, if it is there, are
operands. -/
def classifyAll : List Text → Except Fault (List Word × Option (List Text))
  | [] => .ok ([], none)
  | s :: ss =>
    if s = divider then .ok ([], some ss)
    else do
      let word ← classify s
      let (words, operands) ← classifyAll ss
      return (word :: words, operands)

/-! ### Taking the arguments -/

/-- What one argument asks for: switches with their values, and whether the next argument was
taken as a value. -/
structure Request where
  switches : List (Switch × SwitchValue)
  tookNext : Bool
  deriving Repr

/-- A switch that has nothing attached takes its value from the next argument. -/
def Switch.alone (switch : Switch) (next : Option Word) : Except Fault Request :=
  if switch.takesValue then
    match next with
    | some (.operand value) => .ok ⟨[(switch, .given value)], true⟩
    | _ => .error (.missingValue switch)
  else .ok ⟨[(switch, .unset)], false⟩

/-- The switch that a hyphen and the character spell. -/
def shortSwitch? (c : Char) : Option Switch := spellings.lookup ['-', c]

/-- The value that an attached text stands for. The divider is dropped wherever it stands. -/
def attachedValue (text : Text) : SwitchValue := if text = divider then .blank else .given text

/-- A switch with something attached. If it takes no value and has a single hyphen, what is
attached has to spell further such switches, of which the last may have a value. -/
def Switch.attached (next : Option Word) : Switch → Bool → Text → Except Fault Request
  | switch, short, text =>
    if switch.takesValue then .ok ⟨[(switch, attachedValue text)], false⟩
    else
      match text with
      | [] => .error (.unexpectedValue switch [])
      | c :: rest =>
        match if short then shortSwitch? c else none with
        | none => .error (.unexpectedValue switch (c :: rest))
        | some other => do
          let request ← match rest with
            | [] => other.alone next
            | d :: rest => Switch.attached next other true (d :: rest)
          return { request with switches := (switch, .unset) :: request.switches }
  termination_by structural _ _ text => text

/-- Why arguments give no run: the help was asked for, or they are refused. -/
inductive Stop where
  | help
  | refused (fault : Fault)
  deriving DecidableEq, Repr

/-- The exit code when there is nothing to run. -/
def Stop.exitCode : Stop → Nat
  | .help => 0
  | .refused _ => 2

/-- Apply one switch. -/
def apply (args : Arguments) : Switch × SwitchValue → Except Stop Arguments
  | (.help, _) => .error .help
  | (.output, value) => .ok { args with output := value }
  | (.config, value) => .ok { args with config := value }
  | (.keepGoing, _) => .ok { args with keepGoing := true }
  | (.check, _) => .ok { args with check := true }
  | (.debug, _) => .ok { args with debug := true }

/-- The arguments so far, whether the input is among them, and what could not be used. -/
structure Taken where
  args : Arguments
  hasInput : Bool
  unused : List Text
  deriving Repr

/-- Take the operands behind the divider. The divider itself is unused if the input was given
earlier and not right in front of it. -/
def Taken.operands (taken : Taken) (adjacent : Bool) (operands : List Text) : Taken :=
  if taken.hasInput then
    let divider := if adjacent then [] else [divider]
    { taken with unused := taken.unused ++ divider ++ operands }
  else
    match operands with
    | [] => taken
    | input :: rest =>
      ⟨{ taken.args with input := input }, true, taken.unused ++ rest⟩

/-- Take the arguments from left to right. The flag says whether the last one was the input. -/
def takeAll (operands : Option (List Text)) :
    Taken → Bool → List Word → Except Stop Taken
  | taken, adjacent, [] =>
    match operands with
    | none => .ok taken
    | some operands => .ok (taken.operands adjacent operands)
  | taken, _, .operand text :: words =>
    if taken.hasInput then
      takeAll operands { taken with unused := taken.unused ++ [text] } false words
    else takeAll operands { taken with args.input := text, hasInput := true } true words
  | taken, _, .unknown text :: words =>
    takeAll operands { taken with unused := taken.unused ++ [text] } false words
  | taken, _, .switch switch short attached :: words => do
    let request ← match attached with
      | none => refuse (switch.alone words.head?)
      | some text => refuse (switch.attached words.head? short text)
    let args ← request.switches.foldlM apply taken.args
    let taken := { taken with args := args }
    match request.tookNext, words with
    | true, _ :: words => takeAll operands taken false words
    | _, words => takeAll operands taken false words
where
  /-- A fault ends the run. -/
  refuse (result : Except Fault Request) : Except Stop Request := result.mapError .refused

/-- The arguments that a command line spells. -/
def ofWords (argv : List Text) : Except Stop Arguments := do
  let (words, operands) ← (classifyAll argv).mapError Stop.refused
  let taken ← takeAll operands ⟨default, false, []⟩ false words
  if taken.unused.isEmpty then return taken.args
  else .error (.refused (.unrecognized taken.unused))

/-! ### Help -/

/-- How to call the program, for a terminal of eighty columns. -/
def usage : Text :=
  ("usage: wlisp [-h] [-o OUTPUT] [--config FILE] [--keep-going] [--check]\n"
    ++ "             [--debug]\n"
    ++ "             [input]\n").toList

/-- What the program does and what its arguments mean. -/
def help : Text :=
  usage ++ ("\nAn indentation-based Lisp syntax transpiler\n"
    ++ "\npositional arguments:\n"
    ++ "  input                 Input file or directory (default: current directory)\n"
    ++ "\noptions:\n"
    ++ "  -h, --help            show this help message and exit\n"
    ++ "  -o OUTPUT, --output OUTPUT\n"
    ++ "                        Output file (single input file only)\n"
    ++ "  --config FILE         Config file (default: auto-discover wlisp.toml)\n"
    ++ "  --keep-going          Report a failing file and continue with the rest\n"
    ++ "  --check               Compile without writing output\n"
    ++ "  --debug               Dump subtrees to stderr\n").toList

/-- What is printed when the arguments are refused. -/
def Fault.report (fault : Fault) : Text :=
  usage ++ "wlisp: error: ".toList ++ fault.message ++ ['\n']

end Arguments

end Offside
