import Offside.CommandLine.Batch
import Offside.Proofs.Reading
import Offside.Proofs.Storage

/-!
# One source of a run

What becomes of one source, said without the steps that a run takes. A source is delivered if it
holds a text that compiles: the compiled text is put where it belongs, or only the check was asked
for (`Delivers`). It fails if it cannot be read, decoded or compiled, or if the result cannot be
written (`Fails`). A turn that ends with a verdict does one or the other, and it changes no file
if the source fails (`ends_turn`).

The text of a source is read with its line breaks written anew, which changes no line
(`splitLines_normalizeBreaks`). So what is compiled is the text as it stands in the file.
-/

namespace Offside

/-! ### Line breaks -/

/-- The lines of a text are the same however its line breaks are written. -/
theorem splitLines_normalizeBreaks (s : Text) : splitLines (normalizeBreaks s) = splitLines s := by
  fun_induction normalizeBreaks s with
  | case1 => rfl
  | case2 s ih => rw [splitLines, splitLines, ih]
  | case3 s hs ih =>
    rw [splitLines, splitLines, ih]
    exact hs
  | case4 c s hcrlf hcr ih =>
    by_cases hc : c = '\n'
    · subst hc
      rw [splitLines, splitLines, ih]
    · rw [splitLines, splitLines, ih]
      all_goals grind

/-! ### Compiling -/

section Compile

variable {text out filename : Text} {d : Diagnostic}

theorem compile_eq (text filename : Text) :
    compile text filename =
      (Document.read (splitLines text) filename).map fun doc =>
        doc.records.flatMap (· ++ ['\n']) := by
  rw [compile, transpile]
  cases Document.read (splitLines text) filename <;> rfl

theorem compile_eq_error_iff :
    compile text filename = .error d ↔ Document.read (splitLines text) filename = .error d := by
  rw [compile_eq]
  cases Document.read (splitLines text) filename <;> simp [Except.map]

theorem compile_eq_ok_iff :
    compile text filename = .ok out ↔
      ∃ doc, Document.read (splitLines text) filename = .ok doc ∧
        doc.records.flatMap (· ++ ['\n']) = out := by
  rw [compile_eq]
  cases Document.read (splitLines text) filename <;> simp [Except.map]

end Compile

namespace Batch

variable {settings : Settings} {fs fs' : FileSystem} {console : Console} {source : Path}
  {text out : Text}

/-! ### The text of a source -/

/-- A source holds a text: it can be read and is the text in UTF-8. -/
def Contains (fs : FileSystem) (source : Path) (text : Text) : Prop :=
  ∃ bytes, fs.read source = .ok bytes ∧ Utf8.decode bytes = .ok text

theorem turn_of_contains (h : Contains fs source text) (settings : Settings) (console : Console) :
    turn settings fs console source = compileText settings fs console source text := by
  obtain ⟨bytes, hread, hdecode⟩ := h
  simp only [turn, hread, hdecode]

/-- A fault is reported, and no file changes. -/
theorem compileText_of_error {d : Diagnostic} (h : compile text source.name = .error d)
    (settings : Settings) (fs : FileSystem) (console : Console) :
    compileText settings fs console source text =
      ⟨fs, console.logLine d.report, .failed⟩ := by
  rw [compile_eq_error_iff] at h
  simp only [compileText, Compilation.ofText,
    Compilation.ofLines, splitLines_normalizeBreaks, h]

/-- What is printed about the outline of a source, if this was asked for. -/
def listed (settings : Settings) (console : Console) (doc : Document) : Console :=
  if settings.debug then console.log doc.listing else console

theorem out_listed (doc : Document) : (listed settings console doc).out = console.out := by
  rw [listed]
  split <;> rfl

theorem compileText_of_ok {doc : Document}
    (h : Document.read (splitLines text) source.name = .ok doc)
    (hout : doc.records.flatMap (· ++ ['\n']) = out) (settings : Settings) (fs : FileSystem)
    (console : Console) :
    compileText settings fs console source text =
      if settings.check then ⟨fs, (listed settings console doc).print source.toText, .succeeded⟩
      else store settings fs (listed settings console doc) source out := by
  simp only [compileText, Compilation.ofText,
    Compilation.ofLines, Compilation.text, Compilation.records,
    splitLines_normalizeBreaks, h, hout]
  rfl

/-! ### Success and failure -/

/-- A source compiles to a text. -/
def Compiles (fs : FileSystem) (source : Path) (out : Text) : Prop :=
  ∃ text, Contains fs source text ∧ compile text source.name = .ok out

/-- The source compiles, and the files are `fs'` then: the compiled text is at the output path in
UTF-8 and nothing else has changed, or nothing at all has if only a check was asked for. -/
inductive Delivers (settings : Settings) (fs : FileSystem) (source : Path) : FileSystem → Prop
  | checked {out : Text} (check : settings.check = true) (compiles : Compiles fs source out) :
      Delivers settings fs source fs
  | written {out : Text} {path : Path} {location : Location} {fs' : FileSystem}
      (check : settings.check = false) (compiles : Compiles fs source out)
      (path_eq : settings.outputPath source = .ok path)
      (write_eq : fs.write path (Utf8.encode out) = .ok fs')
      (updates : fs.Updates path (Utf8.encode out) location fs') :
      Delivers settings fs source fs'

/-- The source cannot be read, decoded or compiled, or its result cannot be written. -/
inductive Fails (settings : Settings) (fs : FileSystem) (source : Path) : Prop
  | unreadable {refusal : Refusal} (read_eq : fs.read source = .error refusal)
  | undecodable {bytes : List UInt8} {malformed : Utf8.Malformed}
      (read_eq : fs.read source = .ok bytes) (decode_eq : Utf8.decode bytes = .error malformed)
  | uncompilable {text : Text} {d : Diagnostic} (contains : Contains fs source text)
      (compile_eq : compile text source.name = .error d)
  | unwritable {out : Text} {path : Path} {refusal : Refusal} (check : settings.check = false)
      (compiles : Compiles fs source out) (path_eq : settings.outputPath source = .ok path)
      (write_eq : fs.write path (Utf8.encode out) = .error refusal)

/-- What a turn comes to, by its verdict. Only a source that is delivered changes files, and only
then is it printed. -/
inductive Ends (settings : Settings) (fs : FileSystem) (console : Console) (source : Path) :
    Turn → Prop
  | succeeded {fs' : FileSystem} {console' : Console} (delivers : Delivers settings fs source fs')
      (out_eq : console'.out = console.out ++ source.toText ++ ['\n']) :
      Ends settings fs console source ⟨fs', console', .succeeded⟩
  | failed {console' : Console} (fails : Fails settings fs source)
      (out_eq : console'.out = console.out) :
      Ends settings fs console source ⟨fs, console', .failed⟩
  | escaped {console' : Console} {failure : Failure} :
      Ends settings fs console source ⟨fs, console', .escaped failure⟩

theorem ends_refused {console' : Console} (h : Fails settings fs source)
    (hout : console'.out = console.out) (refusal : FileSystem.PathRefusal) :
    Ends settings fs console source (refused fs console' refusal) := by
  rw [refused]
  split
  · exact .escaped
  · exact .failed h hout

theorem ends_store {console' : Console} (hcheck : settings.check = false)
    (h : Compiles fs source out) (hout : console'.out = console.out) :
    Ends settings fs console source (store settings fs console' source out) := by
  rw [store]
  split
  · exact .escaped
  · rename_i path hpath
    split
    · rename_i refusal hwrite
      exact ends_refused (.unwritable hcheck h hpath hwrite) hout _
    · rename_i fs' hwrite
      obtain ⟨location, hupdates⟩ := FileSystem.updates_of_write hwrite
      refine .succeeded (.written hcheck h hpath hwrite hupdates) ?_
      rw [Console.print, hout]

theorem ends_compileText (h : Contains fs source text) :
    Ends settings fs console source (compileText settings fs console source text) := by
  cases hread : Document.read (splitLines text) source.name with
  | error d =>
    have hcompile : compile text source.name = .error d := compile_eq_error_iff.mpr hread
    rw [compileText_of_error hcompile]
    exact .failed (.uncompilable h hcompile) rfl
  | ok doc =>
    have hcompiles : Compiles fs source (doc.records.flatMap (· ++ ['\n'])) :=
      ⟨text, h, compile_eq_ok_iff.mpr ⟨doc, hread, rfl⟩⟩
    rw [compileText_of_ok hread rfl]
    split
    · rename_i hcheck
      refine .succeeded (.checked hcheck hcompiles) ?_
      rw [Console.print, out_listed]
    · rename_i hcheck
      exact ends_store (Bool.eq_false_iff.mpr hcheck) hcompiles (out_listed doc)

/-- A turn delivers its source or fails, unless it ends the run. -/
theorem ends_turn (settings : Settings) (fs : FileSystem) (console : Console) (source : Path) :
    Ends settings fs console source (turn settings fs console source) := by
  cases hread : fs.read source with
  | error refusal =>
    rw [turn, hread]
    exact ends_refused (.unreadable hread) rfl _
  | ok bytes =>
    cases hdecode : Utf8.decode bytes with
    | error malformed =>
      simp only [turn, hread, hdecode]
      exact .failed (.undecodable hread hdecode) rfl
    | ok text =>
      have hcontains : Contains fs source text := ⟨bytes, hread, hdecode⟩
      rw [turn_of_contains hcontains]
      exact ends_compileText hcontains

end Batch

end Offside
