import Offside.CommandLine.Settings
import Offside.Compilation
import Offside.Outline.Listing

/-!
# Running over files

A run compiles one source after the other. A source that cannot be read, compiled or written is
reported; the run then stops, or goes on with the next source if it is told to. Each result is
written as soon as it is there, so a later source finds what the earlier ones have left.

A run is a function of the file system and the arguments. It gives the file system afterwards,
what was printed, and how it ended.
-/

namespace Offside

/-- What a run has printed, for the user to read and as messages. -/
structure Console where
  out : Text
  err : Text
  deriving DecidableEq, Repr

namespace Console

/-- Nothing is printed. -/
def empty : Console := ⟨[], []⟩

/-- Print a line for the user. -/
def print (console : Console) (line : Text) : Console :=
  { console with out := console.out ++ line ++ ['\n'] }

/-- Add to the messages. -/
def log (console : Console) (text : Text) : Console :=
  { console with err := console.err ++ text }

/-- Print a line as a message. -/
def logLine (console : Console) (line : Text) : Console := console.log (line ++ ['\n'])

/-- What is printed in place of a run. -/
def ofStop : Arguments.Stop → Console
  | .help => ⟨Arguments.help, []⟩
  | .refused fault => ⟨[], fault.report⟩

/-- Print a message about an error. -/
def logError (console : Console) (message : Text) : Console :=
  console.logLine ("error: ".toList ++ message)

end Console

/-- How a run ends. -/
inductive Ending (α : Type) where
  /-- It has a result. -/
  | returned (result : α)
  /-- The arguments have ended it, with an exit code. -/
  | exited (code : Nat)
  /-- A failure has ended it that it does not report. -/
  | escaped (failure : Failure)
  deriving DecidableEq, Repr

namespace Batch

/-! ### One source -/

/-- What becomes of one source. -/
inductive Verdict where
  | succeeded
  | failed
  | escaped (failure : Failure)
  deriving DecidableEq, Repr

/-- The state of a run after a source: the files, what was printed, and what became of the
source. -/
structure Turn where
  fs : FileSystem
  console : Console
  verdict : Verdict
  deriving Repr

/-- A refusal of the file system fails the source. Only a path that cannot be passed to it ends the
whole run. -/
def refused (fs : FileSystem) (console : Console) (refusal : FileSystem.PathRefusal) : Turn :=
  if refusal.refusal = .nullCharacter then ⟨fs, console, .escaped (.path refusal)⟩
  else ⟨fs, console.logError refusal.message, .failed⟩

/-- Write the result of a source. -/
def store (settings : Settings) (fs : FileSystem) (console : Console) (source : Path)
    (text : Text) : Turn :=
  match settings.outputPath source with
  | .error failure => ⟨fs, console, .escaped failure⟩
  | .ok path =>
    match fs.write path (Utf8.encode text) with
    | .error refusal => refused fs console ⟨path, refusal⟩
    | .ok fs => ⟨fs, console.print source.toText, .succeeded⟩

/-- Compile the text of a source. -/
def compileText (settings : Settings) (fs : FileSystem) (console : Console) (source : Path)
    (text : Text) : Turn :=
  let compilation := Compilation.ofText (normalizeBreaks text) source.name
  match compilation.result with
  | .error diagnostic => ⟨fs, console.logLine diagnostic.report, .failed⟩
  | .ok document =>
    let console := if settings.debug then console.log document.listing else console
    if settings.check then ⟨fs, console.print source.toText, .succeeded⟩
    else store settings fs console source compilation.text

/-- Read and compile one source. -/
def turn (settings : Settings) (fs : FileSystem) (console : Console) (source : Path) : Turn :=
  match fs.read source with
  | .error refusal => refused fs console ⟨source, refusal⟩
  | .ok bytes =>
    match Utf8.decode bytes with
    | .error malformed => ⟨fs, console.logError malformed.message, .failed⟩
    | .ok text => compileText settings fs console source text

/-! ### All sources -/

/-- A finished run: the files and what was printed, and how it ended. -/
structure Outcome where
  fs : FileSystem
  console : Console
  ending : Ending Nat
  deriving Repr

/-- The exit code of a run, by whether a source has failed. -/
def exitCode (failed : Bool) : Nat := if failed then 1 else 0

/-- Compile sources one after the other. The flag says whether one has failed before. -/
def compileAll (settings : Settings) :
    FileSystem → Console → Bool → List Path → Outcome
  | fs, console, failed, [] => ⟨fs, console, .returned (exitCode failed)⟩
  | fs, console, failed, source :: sources =>
    let t := turn settings fs console source
    match t.verdict with
    | .succeeded => compileAll settings t.fs t.console failed sources
    | .failed =>
      if settings.keepGoing then compileAll settings t.fs t.console true sources
      else ⟨t.fs, t.console, .returned (exitCode true)⟩
    | .escaped failure => ⟨t.fs, t.console, .escaped failure⟩

/-- Run with arguments that were understood. -/
def runWith (fs : FileSystem) (args : Arguments) : Outcome :=
  let prepared := do
    let settings ← Settings.resolve fs args
    return (settings, ← settings.sources fs)
  match prepared with
  | .ok (settings, sources) => compileAll settings fs .empty false sources
  | .error failure =>
    if failure.isReported then ⟨fs, Console.empty.logError failure.message, .returned 2⟩
    else ⟨fs, .empty, .escaped failure⟩

/-- Run with the arguments of a command line. -/
def run (fs : FileSystem) (argv : List Text) : Outcome :=
  match Arguments.ofWords argv with
  | .ok args => runWith fs args
  | .error stop => ⟨fs, Console.ofStop stop, .exited stop.exitCode⟩

end Batch

end Offside
