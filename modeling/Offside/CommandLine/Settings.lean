import Offside.CommandLine.Arguments
import Offside.FileSystem.Search
import Offside.Toml.Document

/-!
# Settings of a run

The settings of a run come from the arguments and from a configuration file, which is looked for
next to the input unless the arguments name one. Arguments win over the file, and the file over
the defaults. The settings then say which files are to be compiled and where the results go.
-/

namespace Offside

/-! ### Failures -/

/-- What the user asked for and cannot have. -/
inductive UsageFault where
  | invalidSuffix (key value : Text)
  | outputNeedsFile
  | wrongExtension (path : Path)
  | notFound (path : Path)
  deriving DecidableEq, Repr

/-- The fault in words. -/
def UsageFault.message : UsageFault → Text
  | .invalidSuffix key value =>
    "invalid ".toList ++ key ++ " (expected e.g. '.ext'): ".toList ++ Text.quoted value
  | .outputNeedsFile => "--output needs a single input file".toList
  | .wrongExtension path => "incorrect file extension: ".toList ++ path.toText
  | .notFound path => "file or directory not found: ".toList ++ path.toText

/-- Why a run cannot go on. -/
inductive Failure where
  | usage (fault : UsageFault)
  /-- The configuration file cannot be read. -/
  | config (fault : Toml.Unreadable)
  /-- The configuration file is not UTF-8. -/
  | encoding (malformed : Utf8.Malformed)
  | path (refusal : FileSystem.PathRefusal)
  /-- The suffix for results has a slash in it. -/
  | slashInSuffix (suffix : Text)
  /-- Two stars stand side by side in the suffix of sources. -/
  | doubleStar
  /-- A number that is to be a suffix is too long to be written. -/
  | longNumber
  deriving DecidableEq, Repr

namespace Failure

/-- The failure in words. -/
def message : Failure → Text
  | .usage fault => fault.message
  | .config fault => fault.message
  | .encoding malformed => malformed.message
  | .path refusal => refusal.message
  | .slashInSuffix suffix => "Invalid suffix ".toList ++ Text.quoted suffix
  | .doubleStar => "Invalid pattern: '**' can only be an entire path component".toList
  | .longNumber =>
    ("Exceeds the limit (4300 digits) for integer string conversion; "
      ++ "use sys.set_int_max_str_digits() to increase the limit").toList

/-- Whether the run reports the failure and ends in an orderly way. Faults of usage and faults in
the text of the configuration file are reported. -/
def isReported : Failure → Bool
  | .usage _ => true
  | .config fault =>
    match fault.fault.cause with
    | .longInteger _ => false
    | _ => true
  | _ => false

end Failure

/-! ### Settings -/

/-- The settings of a run. -/
structure Settings where
  input : Path
  output : Option Path
  sourceSuffix : Text
  outputSuffix : Text
  keepGoing : Bool
  check : Bool
  debug : Bool
  deriving DecidableEq, Repr

namespace Settings

/-- The suffix of sources, if nothing else is set. -/
def defaultSourceSuffix : Text := ".wlisp".toList

/-- The suffix of results, if nothing else is set. -/
def defaultOutputSuffix : Text := ".lisp".toList

/-- The name of the configuration file. -/
def configName : Text := "wlisp.toml".toList

/-- The path that the value of a switch names; an empty text names none. -/
def pathOf : SwitchValue → Option Path
  | .given (c :: s) => some (Path.ofText (c :: s))
  | _ => none

/-- Ask the file system. -/
def ask {α : Type} (path : Path) (answer : Except Refusal α) : Except Failure α :=
  (FileSystem.about path answer).mapError .path

/-- Read the configuration file at a path. Without a file there, nothing is set. -/
def loadConfig (fs : FileSystem) (path : Path) : Except Failure Toml.Table := do
  if ← ask path (fs.isFile path) then
    let bytes ← ask path (fs.read path)
    let text ← (Utf8.decode bytes).mapError .encoding
    (Toml.parse text).mapError .config
  else return []

/-- The part of the configuration that is about compiling. -/
def compileSection (config : Toml.Table) : Toml.Table :=
  match config.get? "compile".toList with
  | some (.table entries) => entries
  | _ => []

/-- The suffix that a key sets. It has to start with a dot and to have more than that. -/
def suffixFor (entries : Toml.Table) (key default : Text) : Except Failure Text :=
  match entries.get? key with
  | none => .ok default
  | some value =>
    if !value.fits Toml.maxDigits then .error .longNumber
    else
      let suffix := value.toText
      if suffix.head? = some '.' ∧ 2 ≤ suffix.length then .ok suffix
      else .error (.usage (.invalidSuffix key suffix))

/-- Work the settings out from the arguments and the configuration file. -/
def resolve (fs : FileSystem) (args : Arguments) : Except Failure Settings := do
  let input := Path.ofText args.input
  let inputIsDirectory ← ask input (fs.isDirectory input)
  let directory := if inputIsDirectory then input else input.parent
  let config ← loadConfig fs ((pathOf args.config).getD (directory.child configName))
  let entries := compileSection config
  let sourceSuffix ← suffixFor entries "source_suffix".toList defaultSourceSuffix
  let outputSuffix ← suffixFor entries "output_suffix".toList defaultOutputSuffix
  let keepGoing := args.keepGoing || ((entries.get? "keep_going".toList).any (·.isTrue))
  let output := pathOf args.output
  if output.isSome && inputIsDirectory then .error (.usage .outputNeedsFile)
  return ⟨input, output, sourceSuffix, outputSuffix, keepGoing, args.check, args.debug⟩

/-- The files to be compiled: the input itself, or all that have the suffix of sources below it. -/
def sources (settings : Settings) (fs : FileSystem) : Except Failure (List Path) := do
  let path := settings.input
  if ← ask path (fs.isFile path) then
    if path.suffix = settings.sourceSuffix then return [path]
    else .error (.usage (.wrongExtension path))
  else if ← ask path (fs.isDirectory path) then
    match SearchPattern.ofText? ('*' :: settings.sourceSuffix) with
    | some pattern => (fs.search path pattern).mapError .path
    | none => .error .doubleStar
  else .error (.usage (.notFound path))

/-- Where the result of a source goes. -/
def outputPath (settings : Settings) (source : Path) : Except Failure Path :=
  match settings.output with
  | some path => .ok path
  | none =>
    match source.withSuffix? settings.outputSuffix with
    | some path => .ok path
    | none => .error (.slashInSuffix settings.outputSuffix)

/-- The files to be compiled, each with the place of its result. -/
def plan (settings : Settings) (fs : FileSystem) : Except Failure (List (Path × Path)) := do
  let sources ← settings.sources fs
  sources.mapM fun source => do return (source, ← settings.outputPath source)

end Settings

end Offside
