import Offside.Diagnostic
import Offside.Indentation
import Offside.Outline
import Offside.Token

/-!
# Reading an outline

The reader goes through the lines of a file once. It keeps the lines that are still open, that
is, those that may get further children: the line read last, its parent, and so on up to the
level where reading began. A new line goes to the innermost open level it fits.

* If it is wider than the parent of that level, it becomes a child there. All children that are
  lines have the width of the first of them.
* If it is as wide as the parent and starts with a pipe, it continues the parent.
* Otherwise the level is closed and the next level out is tried. At the outermost level the line
  is not read at all, and reading stops in front of it.

A line that closes levels finds its place in the same step, so every line is read once. A reader
also remembers the indentation mark of the file, and both its place and the mark outlive a fault.

Lines may be nested to any depth. A limit on the depth of nested calls, at which an interpreter
would give up on an outline, is left out.
-/

namespace Offside

/-! ### Open levels -/

/-- The siblings read so far below one parent: the width of the parent, the width that the first
child line has fixed, and the nodes, the newest first. -/
structure Level where
  parent : Int
  childWidth : Option Nat
  nodes : List Node
  deriving Repr

/-- A line whose children are being read, and the level it will join when it is closed. -/
structure OpenLine where
  line : Line
  tokens : Nat
  outer : Level
  deriving Repr

/-- The level below a parent of the given width, with nothing read. -/
def Level.under (parent : Int) : Level := ⟨parent, none, []⟩

/-- The level with one more node. -/
def Level.add (level : Level) (node : Node) : Level :=
  { level with nodes := node :: level.nodes }

/-- The nodes of the level in the order of the file. -/
def Level.toList (level : Level) : List Node := level.nodes.reverse

/-- Close an open line whose children are those of the level `inner`. -/
def OpenLine.close (opened : OpenLine) (inner : Level) : Level :=
  opened.outer.add (.subtree opened.line opened.tokens inner.toList)

/-- Close all open lines, the innermost first. -/
def Level.closeAll : Level → List OpenLine → Level
  | level, [] => level
  | level, opened :: above => closeAll (opened.close level) above

/-! ### Placing a line -/

/-- The character that starts the content of a continuation. -/
def continuationMark : Char := '|'

/-- The continuation that a line makes: the file's mark stands in for the pipe, so that the rest
of the line keeps its column. -/
def Line.continuation (line : Line) (mark : Option Char) : Node :=
  .continuation (line.indent ++ mark.toList ++ line.content.drop 1) line.number

/-- What becomes of a line: it has a place, it belongs to no open level, or it is at fault. The
fault is at an offset in the line. -/
inductive Placement where
  | placed (level : Level) (above : List OpenLine)
  | outside (level : Level)
  | refused (fault : Fault) (offset : Nat)
  deriving Repr

/-- Read a line as a child of the level, and open it. -/
def Level.nest (level : Level) (above : List OpenLine) (line : Line) : Placement :=
  if level.childWidth.all (· == line.width) then
    match Token.count line.content with
    | .ok tokens =>
      .placed (.under line.width)
        (⟨line, tokens, { level with childWidth := some line.width }⟩ :: above)
    | .error e => .refused .mismatchedParentheses (line.width + e.offset)
  else .refused .inconsistentIndentation line.width

/-- Whether the line continues a parent of the given width. -/
def Line.continues (line : Line) (parent : Int) : Bool :=
  (line.width : Int) == parent && line.content.head? == some continuationMark

/-- Find the place of a line among the open levels. -/
def Level.place (mark : Option Char) (line : Line) : Level → List OpenLine → Placement
  | level, above =>
    if level.parent < line.width then level.nest above line
    else if line.continues level.parent then
      .placed (level.add (line.continuation mark)) above
    else
      match above with
      | [] => .outside level
      | opened :: above => Level.place mark line (opened.close level) above
  termination_by structural _ above => above

/-! ### Reading lines -/

/-- The diagnostic for a fault at an offset of a line. -/
def Line.diagnose (line : Line) (filename : Text) (fault : Fault) (offset : Nat) : Diagnostic :=
  ⟨fault, filename, line.number, offset + 1, line.text⟩

/-- The end of reading: what was read, the number of the lines that are behind the reader, and
the mark. -/
structure Reading where
  result : Except Diagnostic (List Node)
  pos : Nat
  mark : Option Char

/-- Read lines into the open levels, of which the lines at `pos` and later are left. -/
def Reading.of (filename : Text) :
    Nat → Option Char → Level → List OpenLine → List Text → Reading
  | pos, mark, level, above, [] => ⟨.ok (level.closeAll above).toList, pos, mark⟩
  | pos, mark, level, above, text :: texts =>
    let line : Line := ⟨text, pos⟩
    if line.skipped then Reading.of filename (pos + 1) mark level above texts
    else
      let settled := Indentation.settle mark line.indent
      match Indentation.foreign? mark line.indent with
      | some offset =>
        ⟨.error (line.diagnose filename .mixedIndentation offset), pos + 1, settled⟩
      | none =>
        match level.place settled line above with
        | .placed level above => Reading.of filename (pos + 1) settled level above texts
        | .outside level => ⟨.ok level.toList, pos, settled⟩
        | .refused fault offset => ⟨.error (line.diagnose filename fault offset), pos + 1, settled⟩

/-- A reader: the lines of a file, how many of them are behind it, and the indentation mark. -/
structure Reader where
  filename : Text
  lines : List Text
  pos : Nat
  mark : Option Char
  deriving Repr

namespace Reader

/-- The reader at the start of a file. -/
def start (lines : List Text) (filename : Text) : Reader := ⟨filename, lines, 0, none⟩

/-- The next line, and the reader behind it. -/
def next? (r : Reader) : Option (Line × Reader) :=
  r.lines[r.pos]?.map fun text => (⟨text, r.pos⟩, { r with pos := r.pos + 1 })

/-- Go back by one line. -/
def unread (r : Reader) : Reader := { r with pos := r.pos - 1 }

/-- Read the nodes below a parent of the given width. -/
def collect (r : Reader) (parent : Int) : Except Diagnostic (List Node) × Reader :=
  let reading := Reading.of r.filename r.pos r.mark (.under parent) [] (r.lines.drop r.pos)
  (reading.result, { r with pos := reading.pos, mark := reading.mark })

/-- Read the nodes below a line that was just passed. -/
def subtree (r : Reader) (line : Line) : Except Diagnostic Node × Reader :=
  match Token.count line.content with
  | .error e =>
    (.error (line.diagnose r.filename .mismatchedParentheses (line.width + e.offset)), r)
  | .ok tokens =>
    let (children, r) := r.collect line.width
    (children.map (.subtree line tokens), r)

/-- The width of the parent of the roots: every line is wider. -/
def rootWidth : Int := -1

/-- Read all the lines that are left. -/
def document (r : Reader) : Except Diagnostic Document × Reader :=
  let (roots, r) := r.collect rootWidth
  (roots.map (⟨·, r.filename⟩), r)

end Reader

/-- The outline of the lines of a file. -/
def Document.read (lines : List Text) (filename : Text) : Except Diagnostic Document :=
  (Reader.start lines filename).document.1

/-! ### Single steps -/

namespace Reader

/-- The things a reader can be asked to do. -/
inductive Step where
  | next
  | unread
  | collect (parent : Int)
  | subtree
  | continuation
  | document
  deriving DecidableEq, Repr

/-- What a step answers. -/
inductive Answer where
  /-- There was nothing to read, or nothing to say. -/
  | nothing
  | line (line : Line)
  | nodes (nodes : List Node)
  | failed (diagnostic : Diagnostic)

/-- The answer that holds the result of reading. -/
def Answer.ofResult {α : Type} (nodes : α → List Node) : Except Diagnostic α → Answer
  | .ok a => .nodes (nodes a)
  | .error d => .failed d

/-- Take one step. -/
def step (r : Reader) : Step → Answer × Reader
  | .next =>
    match r.next? with
    | some (line, r) => (.line line, r)
    | none => (.nothing, r)
  | .unread => (.nothing, r.unread)
  | .collect parent =>
    let (result, r) := r.collect parent
    (.ofResult id result, r)
  | .subtree =>
    match r.next? with
    | some (line, r) =>
      let (result, r) := r.subtree line
      (.ofResult (fun node => [node]) result, r)
    | none => (.nothing, r)
  | .continuation =>
    match r.next? with
    | some (line, r) => (.nodes [line.continuation r.mark], r)
    | none => (.nothing, r)
  | .document =>
    let (result, r) := r.document
    (.ofResult Document.roots result, r)

/-- Take steps one after the other, and note the answer and the reader after each. -/
def steps (r : Reader) : List Step → List (Answer × Reader)
  | [] => []
  | s :: ss => r.step s :: (r.step s).2.steps ss

end Reader

end Offside
