import Offside.Editor
import Offside.Proofs.Effects
import Offside.Proofs.Encoding

/-!
# Three ways to compile a text

A text is compiled as such, as a document that an editor has open, or as a file of a run. The three
agree (`frontEnds_agree`). They accept the same texts. If a text is accepted, the run writes what
compiling gives; if not, all three report one fault at one place, in their own ways.

The ways differ in the name of the file and in the line breaks. The name is only copied into what
is read (`read_inFile`), and a run that writes line breaks anew reads the same lines
(`splitLines_normalizeBreaks`). An editor sends texts one after the other, and what it has been
told of a document last is about the text that it has sent last (`shown_serve`).
-/

namespace Offside

/-! ### The name of a file -/

/-- The diagnostic in a file of another name. -/
def Diagnostic.inFile (filename : Text) (d : Diagnostic) : Diagnostic :=
  { d with filename := filename }

theorem read_inFile (lines : List Text) (f g : Text) :
    Document.read lines g =
      ((Document.read lines f).map fun doc => { doc with filename := g }).mapError
        (Diagnostic.inFile g) := by
  rcases exists_isOutline_or_faultAt lines with
    ⟨roots, hroots⟩ | ⟨front, text, rest, rfl, hs, roots, hroots, fault, offset, hfault⟩
  · rw [read_of_isOutline hroots, read_of_isOutline hroots]
    rfl
  · rw [read_of_faultAt hroots hs hfault, read_of_faultAt hroots hs hfault]
    rfl

theorem compile_inFile (t f g : Text) :
    compile t g = (compile t f).mapError (Diagnostic.inFile g) := by
  rw [compile_eq, compile_eq, read_inFile (splitLines t) f g]
  cases Document.read (splitLines t) f <;> rfl

theorem compile_of_ok {t f out : Text} (h : compile t f = .ok out) (g : Text) :
    compile t g = .ok out := by
  rw [compile_inFile t f g, h]
  rfl

theorem compile_of_error {t f : Text} {d : Diagnostic} (h : compile t f = .error d) (g : Text) :
    compile t g = .error (d.inFile g) := by
  rw [compile_inFile t f g, h]
  rfl

/-! ### Documents of an editor -/

namespace Editor

/-- The document that an event is about. -/
def Event.uri : Event → Text
  | .opened uri _ => uri
  | .changed uri _ => uri

/-- The text that the document has from then on. -/
def Event.text : Event → Text
  | .opened _ text => text
  | .changed _ text => text

/-- What keeps the texts of the documents for the server: it takes in a text, and hands it back. -/
structure Workspace (σ : Type) where
  put : σ → Text → Text → σ
  source : σ → Text → Text

variable {σ : Type} {w : Workspace σ} {uri t : Text} {events : List Event}

/-- The text of a document is handed back unchanged. -/
def Workspace.Faithful (w : Workspace σ) : Prop :=
  ∀ s uri text, w.source (w.put s uri text) uri = text

/-- What is published as events come in. With each event the workspace takes in the text, and the
document is checked as the workspace hands it back. -/
def Workspace.serve (w : Workspace σ) : σ → List Event → List Publication
  | _, [] => []
  | s, event :: events =>
    let s := w.put s event.uri event.text
    check event.uri (w.source s event.uri) :: w.serve s events

/-- The text that was sent last for a document. -/
def latestText (uri : Text) (events : List Event) : Option Text :=
  (events.filter fun event => event.uri = uri).getLast?.map Event.text

/-- What was published last about a document. -/
def shown (uri : Text) (publications : List Publication) : Option (List Notice) :=
  (publications.filter fun publication => publication.uri = uri).getLast?.map Publication.notices

theorem respond_eq (event : Event) : respond event = check event.uri event.text := by
  cases event <;> rfl

theorem Workspace.Faithful.serve_eq (hw : w.Faithful) (s : σ) (events : List Event) :
    w.serve s events = events.map respond := by
  induction events generalizing s with
  | nil => rfl
  | cons event events ih =>
    rw [Workspace.serve, ih, hw, List.map_cons, respond_eq]

/-- What was published last about a document is about the text that was sent last. -/
theorem shown_serve (hw : w.Faithful) (s : σ) (h : latestText uri events = some t) :
    shown uri (w.serve s events) = some (check uri t).notices := by
  obtain ⟨event, hevent, rfl⟩ := Option.map_eq_some_iff.mp h
  have huri : event.uri = uri := by
    have hmem := List.mem_of_getLast? hevent
    simpa using (List.mem_filter.mp hmem).2
  have hfilter : (events.map respond).filter (fun publication => publication.uri = uri) =
      (events.filter fun event => event.uri = uri).map respond := by
    rw [List.filter_map]
    congr 2
    funext event
    rw [Function.comp_apply, respond_eq]
    rfl
  rw [hw.serve_eq, shown, hfilter, List.getLast?_map, hevent, Option.map_some, Option.map_some,
    respond_eq, huri]

theorem notices_check_of_ok {f out : Text} (h : compile t f = .ok out) (uri : Text) :
    (check uri t).notices = [] := by
  obtain ⟨doc, hread, -⟩ := compile_eq_ok_iff.mp (compile_of_ok h (filename uri))
  simp only [check, Compilation.ofText, Compilation.ofLines, Compilation.diagnostic?, hread]
  rfl

theorem notices_check_of_error {f : Text} {d : Diagnostic} (h : compile t f = .error d)
    (uri : Text) : (check uri t).notices = [notice d] := by
  have hread := compile_eq_error_iff.mp (compile_of_error h (filename uri))
  simp only [check, Compilation.ofText, Compilation.ofLines, Compilation.diagnostic?, hread]
  rfl

end Editor

/-! ### Files of a run -/

namespace Batch

variable {settings : Settings} {fs fs' : FileSystem} {argv : List Text} {source : Path}
  {t f out : Text} {console : Console}

/-- A run on one source that holds a text, with a place where the result can be written. -/
structure RunsOn (fs : FileSystem) (argv : List Text) (settings : Settings) (source : Path)
    (t : Text) : Prop where
  prepares : ∃ args, Prepares fs argv args settings [source]
  holds : fs.read source = .ok (Utf8.encode t)
  writable : settings.check = false → ∃ path, settings.outputPath source = .ok path ∧
    ∀ bytes, ∃ fs', fs.write path bytes = .ok fs'

theorem RunsOn.turn_eq (h : RunsOn fs argv settings source t) (console : Console) :
    turn settings fs console source = compileText settings fs console source t :=
  turn_of_contains ⟨_, h.holds, Utf8.decode_encode t⟩ settings console

theorem RunsOn.run_of_succeeded (h : RunsOn fs argv settings source t)
    (hturn : compileText settings fs .empty source t = ⟨fs', console, .succeeded⟩) :
    run fs argv = ⟨fs', console, .returned 0⟩ := by
  obtain ⟨args, hprepares⟩ := h.prepares
  rw [hprepares.run_eq, compileAll, h.turn_eq, hturn]
  rfl

theorem RunsOn.run_of_failed (h : RunsOn fs argv settings source t)
    (hturn : compileText settings fs .empty source t = ⟨fs', console, .failed⟩) :
    run fs argv = ⟨fs', console, .returned 1⟩ := by
  obtain ⟨args, hprepares⟩ := h.prepares
  rw [hprepares.run_eq, compileAll, h.turn_eq, hturn]
  exact ite_self _

theorem err_listed (doc : Document) :
    ((listed settings .empty doc).print source.toText).err =
      if settings.debug then doc.listing else [] := by
  rw [listed]
  split <;> rfl

theorem RunsOn.run_of_error (h : RunsOn fs argv settings source t) {d : Diagnostic}
    (hcompile : compile t f = .error d) :
    run fs argv = ⟨fs, ⟨[], (d.inFile source.name).report ++ ['\n']⟩, .returned 1⟩ :=
  h.run_of_failed (compileText_of_error (compile_of_error hcompile source.name) settings fs .empty)

theorem RunsOn.exists_run_of_ok (h : RunsOn fs argv settings source t)
    (hcompile : compile t f = .ok out) :
    ∃ doc fs', Document.read (splitLines t) source.name = .ok doc ∧
      run fs argv = ⟨fs', (listed settings .empty doc).print source.toText, .returned 0⟩ ∧
      (settings.check = false → ∃ path, settings.outputPath source = .ok path ∧
        fs'.read path = .ok (Utf8.encode out)) := by
  obtain ⟨doc, hread, hout⟩ := compile_eq_ok_iff.mp (compile_of_ok hcompile source.name)
  have htext := compileText_of_ok hread hout settings fs .empty
  cases hcheck : settings.check with
  | true =>
    rw [if_pos hcheck] at htext
    exact ⟨doc, fs, hread, h.run_of_succeeded htext, nofun⟩
  | false =>
    obtain ⟨path, hpath, hwrite⟩ := h.writable hcheck
    obtain ⟨fs', hfs'⟩ := hwrite (Utf8.encode out)
    obtain ⟨location, hupdates⟩ := FileSystem.updates_of_write hfs'
    rw [if_neg (by simp [hcheck])] at htext
    simp only [store, hpath, hfs'] at htext
    exact ⟨doc, fs', hread, h.run_of_succeeded htext, fun _ => ⟨path, hpath, hupdates.read_eq_ok⟩⟩

end Batch

/-! ### Agreement -/

/-- What the three ways say about a text. The notices are those that an editor shows, and the
outcome is that of a run on one source. -/
structure Agree (t f : Text) (notices : Option (List Editor.Notice)) (settings : Settings)
    (source : Path) (outcome : Batch.Outcome) : Prop where
  /-- The editor shows nothing if and only if the text compiles. -/
  shown_iff : (∃ out, compile t f = .ok out) ↔ notices = some []
  /-- The run succeeds if and only if the text compiles. -/
  returned_iff : (∃ out, compile t f = .ok out) ↔ outcome.ending = .returned 0
  /-- A run that succeeds reports nothing, apart from the outline that it may be asked for. -/
  quiet : ∀ out, compile t f = .ok out → ∃ doc,
    Document.read (splitLines t) source.name = .ok doc ∧
    outcome.console.err = if settings.debug then doc.listing else []
  /-- What the run writes is the compiled text. -/
  written : ∀ out, compile t f = .ok out → settings.check = false → ∃ path bytes,
    settings.outputPath source = .ok path ∧ outcome.fs.read path = .ok bytes ∧
    Utf8.decode bytes = .ok out
  /-- The editor shows a fault, counted from zero. -/
  shown : ∀ d, compile t f = .error d → ∃ notice, notices = some [notice] ∧
    notice.message = d.fault.message ∧ notice.first = ⟨d.line - 1, d.column - 1⟩
  /-- The run reports the same fault in its file. -/
  reported : ∀ d, compile t f = .error d → outcome.ending = .returned 1 ∧
    outcome.console.err = (d.inFile source.name).report ++ ['\n']

/-- A text is accepted by all three or by none, with the same result or the same fault. -/
theorem frontEnds_agree {σ : Type} {w : Editor.Workspace σ} (hw : w.Faithful) (s : σ)
    {events : List Editor.Event} {uri t : Text} (hlatest : Editor.latestText uri events = some t)
    {fs : FileSystem} {argv : List Text} {settings : Settings} {source : Path}
    (hrun : Batch.RunsOn fs argv settings source t) (f : Text) :
    Agree t f (Editor.shown uri (w.serve s events)) settings source (Batch.run fs argv) ∧
      splitLines (normalizeBreaks t) = splitLines t := by
  refine ⟨?_, splitLines_normalizeBreaks t⟩
  rw [Editor.shown_serve hw s hlatest]
  cases hcompile : compile t f with
  | ok out =>
    obtain ⟨doc, fs', hread, heq, hwritten⟩ := hrun.exists_run_of_ok hcompile
    rw [Editor.notices_check_of_ok hcompile, heq]
    have hno : ∀ d, compile t f ≠ .error d := fun d => by simp [hcompile]
    exact
      { shown_iff := iff_of_true ⟨out, hcompile⟩ rfl
        returned_iff := iff_of_true ⟨out, hcompile⟩ rfl
        quiet := fun _ _ => ⟨doc, hread, Batch.err_listed doc⟩
        written := fun out' hout' hcheck => by
          obtain rfl : out = out' := Except.ok.inj (hcompile.symm.trans hout')
          obtain ⟨path, hpath, hbytes⟩ := hwritten hcheck
          exact ⟨path, _, hpath, hbytes, Utf8.decode_encode out⟩
        shown := fun d hd => absurd hd (hno d)
        reported := fun d hd => absurd hd (hno d) }
  | error d =>
    rw [Editor.notices_check_of_error hcompile, hrun.run_of_error hcompile]
    have hno : ∀ out, compile t f ≠ .ok out := fun out => by simp [hcompile]
    exact
      { shown_iff := iff_of_false (fun ⟨out, hout⟩ => hno out hout) (by simp)
        returned_iff := iff_of_false (fun ⟨out, hout⟩ => hno out hout) (by simp)
        quiet := fun out hout => absurd hout (hno out)
        written := fun out hout => absurd hout (hno out)
        shown := fun d' hd' => by
          obtain rfl : d = d' := Except.error.inj (hcompile.symm.trans hd')
          exact ⟨_, rfl, rfl, rfl⟩
        reported := fun d' hd' => by
          obtain rfl : d = d' := Except.error.inj (hcompile.symm.trans hd')
          exact ⟨rfl, rfl⟩ }

section Mixed

/-- A text with two kinds of line breaks, in which a tab and a space indent. -/
def mixedText : Text := "a\r\n\tb\r c".toList

/-- A workspace that is a function from documents to texts. -/
def functionWorkspace : Editor.Workspace (Text → Text) where
  put s uri text := fun other => if other = uri then text else s other
  source s uri := s uri

/-- One document gets the text, and another one is opened in between. -/
def mixedEvents : List Editor.Event :=
  [.opened "file:///a.wlisp".toList ['a'], .opened "file:///b.wlisp".toList mixedText,
    .changed "file:///a.wlisp".toList mixedText, .changed "file:///b.wlisp".toList ['b']]

/-- A source that holds the text. -/
def mixedFiles : FileSystem := ⟨[(["a.wlisp".toList], .file (Utf8.encode mixedText))], []⟩

/-- The settings of a run on that source. -/
def mixedSettings : Settings where
  input := Path.ofText "a.wlisp".toList
  output := none
  sourceSuffix := Settings.defaultSourceSuffix
  outputSuffix := Settings.defaultOutputSuffix
  keepGoing := false
  check := false
  debug := false

theorem functionWorkspace_faithful : functionWorkspace.Faithful :=
  fun _ _ _ => if_pos rfl

theorem runsOn_mixedFiles :
    Batch.RunsOn mixedFiles ["a.wlisp".toList] mixedSettings mixedSettings.input mixedText where
  prepares := by
    refine ⟨{ Arguments.default with input := "a.wlisp".toList }, ?_, ?_, ?_⟩ <;> decide +kernel
  holds := by decide +kernel
  writable := by
    intro _
    have htarget : mixedFiles.target (Path.ofText "a.lisp".toList) = .ok ["a.lisp".toList] := by
      decide +kernel
    refine ⟨Path.ofText "a.lisp".toList, by decide +kernel, fun bytes => ?_⟩
    refine ⟨mixedFiles.put ["a.lisp".toList] (.file bytes), ?_⟩
    rw [FileSystem.write, htarget]
    rfl

theorem frontEnds_agree_mixed :
    functionWorkspace.Faithful ∧
      Editor.latestText "file:///a.wlisp".toList mixedEvents = some mixedText ∧
      Batch.RunsOn mixedFiles ["a.wlisp".toList] mixedSettings mixedSettings.input mixedText ∧
      Agree mixedText "input.wlisp".toList
        (Editor.shown "file:///a.wlisp".toList
          (functionWorkspace.serve (fun _ => []) mixedEvents))
        mixedSettings mixedSettings.input (Batch.run mixedFiles ["a.wlisp".toList]) := by
  have hlatest : Editor.latestText "file:///a.wlisp".toList mixedEvents = some mixedText := by
    decide +kernel
  exact ⟨functionWorkspace_faithful, hlatest, runsOn_mixedFiles,
    (frontEnds_agree functionWorkspace_faithful (fun _ => []) hlatest runsOn_mixedFiles
      "input.wlisp".toList).1⟩

end Mixed

end Offside
