import Offside.Proofs.Effects
import Offside.Proofs.Overwriting

/-!
# Running twice

A second run finds what the first one has left, and it does the same again. What a run leaves are
results, so the files differ from those before at names with the suffix of results only
(`AlikeBut`). A source has another suffix, and with the default suffixes no name has both
(`not_isSuffix_of_isSuffix`). So a turn cannot tell the files before the first run from those after
it: it writes the same, prints the same and comes to the same verdict (`Settles`, `settles_turn`),
and so does a run over sources (`settlesAll_compileAll`). The settings and the sources are the same
as well (`resolve_of_alikeBut`, `sources_eq_ok`), and writing the same again changes nothing
(`run_run`).

Two sources may share the place of their results. Then the last one of them wins in both runs.
-/

namespace Offside

namespace Batch

open FileSystem

variable {settings : Settings} {fs fs' : FileSystem} {console : Console} {source : Path}
  {l : Location} {text : Text} {sources : List Path}

theorem exists_refused_eq (console : Console) (refusal : PathRefusal) :
    ∃ console' verdict, ∀ fs, refused fs console refusal = ⟨fs, console', verdict⟩ := by
  by_cases h : refusal.refusal = .nullCharacter
  · exact ⟨_, _, fun fs => if_pos h⟩
  · exact ⟨_, _, fun fs => if_neg h⟩

/-- What a computation does to the files is a matter of what files it writes: there are writes,
something printed and a verdict that are the same for all file systems that are alike. -/
def Settles (o : Text) (fs : FileSystem) (f : FileSystem → Turn) : Prop :=
  ∃ writes console verdict, Spares o fs writes ∧
    ∀ fs', AlikeBut o fs fs' → f fs' = ⟨fs'.putAll writes, console, verdict⟩

theorem settles_of_unchanged {o : Text} {f : FileSystem → Turn}
    (h : ∃ console verdict, ∀ fs', AlikeBut o fs fs' → f fs' = ⟨fs', console, verdict⟩) :
    Settles o fs f := by
  obtain ⟨console, verdict, h⟩ := h
  exact ⟨[], console, verdict, fun w hw => absurd hw List.not_mem_nil, h⟩

theorem settles_store (houtput : settings.output = none)
    (hslash : '/' ∉ settings.outputSuffix) (hsource : fs.Reaches source l) (console : Console)
    (text : Text) :
    Settles settings.outputSuffix fs fun fs' => store settings fs' console source text := by
  have hpath := Settings.outputPath_eq houtput hslash source
  generalize hpathEq : source.parent.child
    (Path.renamed settings.outputSuffix source.name) = path at hpath
  have hreaches : fs.Reaches path l := hpathEq ▸ hsource.sibling _
  cases htarget : fs.target path with
  | error refusal =>
    obtain ⟨console', verdict, hrefused⟩ := exists_refused_eq console ⟨path, refusal⟩
    refine settles_of_unchanged ⟨console', verdict, fun fs' halike => ?_⟩
    have hwrite : fs'.write path (Utf8.encode text) = .error refusal := by
      rw [write, halike.target_eq hreaches, htarget]
      rfl
    simp only [store, hpath, hwrite]
    exact hrefused fs'
  | ok location =>
    obtain ⟨-, -, parent, -, -, -, -, rfl, hentry⟩ := exists_of_target_eq_ok htarget
    refine ⟨[(parent ++ [path.name], .file (Utf8.encode text))], console.print source.toText,
      .succeeded, ?_, fun fs' halike => ?_⟩
    · intro w hw
      refine ⟨parent, path.name, _, List.mem_singleton.mp hw, ?_, hentry⟩
      rw [← hpathEq, Path.name_child, Path.renamed]
      exact List.suffix_append _ _
    · have hwrite : fs'.write path (Utf8.encode text) =
          .ok (fs'.put (parent ++ [path.name]) (.file (Utf8.encode text))) := by
        rw [write, halike.target_eq hreaches, htarget]
        rfl
      simp only [store, hpath, hwrite]
      rfl

theorem settles_turn (houtput : settings.output = none) (hslash : '/' ∉ settings.outputSuffix)
    (hsource : fs.Reaches source l) (hname : ¬settings.outputSuffix <:+ source.name)
    (hparent : source.name ≠ parentName) (console : Console) :
    Settles settings.outputSuffix fs fun fs' => turn settings fs' console source := by
  have hread : ∀ fs', AlikeBut settings.outputSuffix fs fs' → fs'.read source = fs.read source :=
    fun fs' halike => halike.read_eq hsource hname hparent
  cases hbytes : fs.read source with
  | error refusal =>
    obtain ⟨console', verdict, hrefused⟩ := exists_refused_eq console ⟨source, refusal⟩
    refine settles_of_unchanged ⟨console', verdict, fun fs' halike => ?_⟩
    simp only [turn, hread fs' halike, hbytes]
    exact hrefused fs'
  | ok bytes =>
    cases hdecode : Utf8.decode bytes with
    | error malformed =>
      refine settles_of_unchanged
        ⟨console.logError malformed.message, .failed, fun fs' halike => ?_⟩
      simp only [turn, hread fs' halike, hbytes, hdecode]
    | ok text =>
      have hturn : ∀ fs', AlikeBut settings.outputSuffix fs fs' →
          turn settings fs' console source = compileText settings fs' console source text :=
        fun fs' halike => turn_of_contains ⟨bytes, (hread fs' halike).trans hbytes, hdecode⟩ _ _
      cases hdoc : Document.read (splitLines text) source.name with
      | error d =>
        refine settles_of_unchanged
          ⟨console.logLine d.report, .failed, fun fs' halike => ?_⟩
        rw [hturn fs' halike, compileText_of_error (compile_eq_error_iff.mpr hdoc)]
      | ok doc =>
        by_cases hcheck : settings.check = true
        · refine settles_of_unchanged ⟨(listed settings console doc).print source.toText,
            .succeeded, fun fs' halike => ?_⟩
          rw [hturn fs' halike, compileText_of_ok hdoc rfl, if_pos hcheck]
        · obtain ⟨writes, console', verdict, hspares, hstore⟩ :=
            settles_store houtput hslash hsource (listed settings console doc)
              (doc.records.flatMap (· ++ ['\n']))
          refine ⟨writes, console', verdict, hspares, fun fs' halike => ?_⟩
          dsimp only
          rw [hturn fs' halike, compileText_of_ok hdoc rfl, if_neg hcheck]
          exact hstore fs' halike

/-- The same for all that comes after: there are writes, something printed and an ending that are
the same for all file systems that are alike. -/
def SettlesAll (o : Text) (fs : FileSystem) (f : FileSystem → Outcome) : Prop :=
  ∃ writes console ending, Spares o fs writes ∧
    ∀ fs', AlikeBut o fs fs' → f fs' = ⟨fs'.putAll writes, console, ending⟩

/-- What comes first may write files that are spared. -/
theorem SettlesAll.after {o : Text} {writes : List (Location × Entry)}
    {f g : FileSystem → Outcome} (h : SettlesAll o fs g) (hspares : Spares o fs writes)
    (hf : ∀ fs', AlikeBut o fs fs' → f fs' = g (fs'.putAll writes)) : SettlesAll o fs f := by
  obtain ⟨writes', console, ending, hspares', hg⟩ := h
  refine ⟨writes ++ writes', console, ending, fun w hw => ?_, fun fs' halike => ?_⟩
  · exact (List.mem_append.mp hw).elim (hspares w) (hspares' w)
  · rw [hf fs' halike, hg _ (halike.putAll hspares), putAll_append]

/-- A run over sources writes the same files in all file systems that are alike, prints the same,
and ends alike. -/
theorem settlesAll_compileAll (houtput : settings.output = none)
    (hslash : '/' ∉ settings.outputSuffix) (console : Console) (failed : Bool)
    (hsources : ∀ source ∈ sources, (∃ l, fs.Reaches source l) ∧
      ¬settings.outputSuffix <:+ source.name ∧ source.name ≠ parentName) :
    SettlesAll settings.outputSuffix fs fun fs' =>
      compileAll settings fs' console failed sources := by
  induction sources generalizing console failed with
  | nil =>
    exact ⟨[], console, .returned (exitCode failed), fun w hw => absurd hw List.not_mem_nil,
      fun fs' _ => rfl⟩
  | cons source sources ih =>
    obtain ⟨⟨l, hreaches⟩, hname, hparent⟩ := hsources source List.mem_cons_self
    have hrest := fun console failed =>
      ih console failed fun other hother => hsources other (List.mem_cons_of_mem _ hother)
    obtain ⟨writes, console', verdict, hspares, hturn⟩ :=
      settles_turn houtput hslash hreaches hname hparent console
    dsimp only at hturn
    cases verdict with
    | succeeded =>
      exact (hrest console' failed).after hspares fun fs' halike =>
        compileAll_of_succeeded (hturn fs' halike)
    | failed =>
      by_cases hkeep : settings.keepGoing = true
      · refine (hrest console' true).after hspares fun fs' halike => ?_
        exact (compileAll_of_failed (hturn fs' halike)).trans (if_pos hkeep)
      · refine ⟨writes, console', .returned (exitCode true), hspares, fun fs' halike => ?_⟩
        exact (compileAll_of_failed (hturn fs' halike)).trans (if_neg hkeep)
    | escaped failure =>
      exact ⟨writes, console', .escaped failure, hspares, fun fs' halike =>
        compileAll_of_escaped (hturn fs' halike)⟩

end Batch

/-! ### Settings in file systems that are alike -/

namespace FileSystem

variable {fs fs' : FileSystem} {p dir : Path} {l : Location} {entry : Entry}

theorem reaches_child (h : fs.locate dir = .ok l) (name : Text) :
    fs.Reaches (dir.child name) l where
  named := by simp [Path.child]
  follow_eq := by
    obtain ⟨-, -, hfollow⟩ := exists_of_bind_eq_ok h
    have hnames : (dir.child name).names.dropLast = dir.names := List.dropLast_concat
    rw [hnames]
    exact hfollow

theorem exists_reaches_of_find (h : fs.find p = .ok entry) (hnames : p.names ≠ []) :
    ∃ l, fs.Reaches p l := by
  obtain ⟨l, hl, -⟩ := find_eq_ok_iff.mp h
  obtain ⟨-, -, hfollow⟩ := exists_of_bind_eq_ok hl
  rw [names_eq_concat hnames, follow_append] at hfollow
  obtain ⟨l', hl', -⟩ := exists_of_bind_eq_ok hfollow
  exact ⟨l', hnames, hl'⟩

/-- The directory is still one. -/
theorem AlikeBut.find_directory {o : Text} (h : AlikeBut o fs fs')
    (hdir : fs.find dir = .ok .directory) : fs'.find dir = .ok .directory := by
  obtain ⟨l, hl, hentry⟩ := find_eq_ok_iff.mp hdir
  exact find_eq_ok_iff.mpr ⟨l, h.retains.locate_eq_ok hl, h.retains.directory hentry⟩

end FileSystem

namespace Settings

open FileSystem

variable {fs fs' : FileSystem} {args : Arguments} {settings : Settings} {p path : Path}
  {paths : List Path}

/-- No name ends with both suffixes. -/
theorem not_isSuffix_of_isSuffix {name : Text} (h : defaultSourceSuffix <:+ name) :
    ¬defaultOutputSuffix <:+ name := by
  intro h'
  have hle : defaultOutputSuffix.length ≤ defaultSourceSuffix.length := by decide
  exact absurd (List.suffix_of_suffix_length_le h' h hle) (by decide)

theorem names_ne_nil_of_isSuffix {s : Text} (hsuffix : Path.IsSuffix s) (h : s <:+ p.name) :
    p.names ≠ [] := by
  intro hnil
  have hname : p.name = [] := by rw [Path.name, hnil]; rfl
  rw [hname, List.suffix_nil] at h
  exact hsuffix.ne_nil h

/-- The path of a source ends with the suffix, and leads to it from a directory. -/
theorem exists_reaches_of_mem_sources (hsuffix : Path.IsSuffix settings.sourceSuffix)
    (hplain : SearchPattern.Plain settings.sourceSuffix)
    (hpaths : settings.sources fs = .ok paths) (hp : p ∈ paths) :
    (∃ l, fs.Reaches p l) ∧ settings.sourceSuffix <:+ p.name := by
  obtain ⟨entry, hfind⟩ := exists_find_of_sources hpaths
  cases entry with
  | directory =>
    rw [sources_of_plain hfind hsuffix hplain, mapError_eq_ok_iff] at hpaths
    obtain ⟨-, -, d, -, l, name, -, hl, -, hname, rfl⟩ := (mem_of_search_ending hpaths).mp hp
    exact ⟨⟨l, reaches_child hl name⟩, by rwa [Path.name_child]⟩
  | file bytes =>
    rw [sources_of_file hfind] at hpaths
    split_ifs at hpaths with hname
    obtain rfl := Except.ok.inj hpaths
    obtain rfl := List.mem_singleton.mp hp
    have hends := ((Path.suffixOf_eq_iff hsuffix).mp hname).1
    exact ⟨exists_reaches_of_find hfind (names_ne_nil_of_isSuffix hsuffix hends), hends⟩

theorem ne_parentName_of_isSuffix {name : Text} (h : defaultSourceSuffix <:+ name) :
    name ≠ parentName := by
  rintro rfl
  exact absurd h (by decide)

theorem loadConfig_of_isFile_eq_false (h : fs.isFile path = .ok false) :
    loadConfig fs path = .ok [] := by
  rw [loadConfig, h]
  rfl

theorem isFile_of_loadConfig {config : Toml.Table} (h : loadConfig fs path = .ok config)
    (hfile : fs.isFile path ≠ .ok true) : fs.isFile path = .ok false := by
  obtain ⟨isFile, hasked, -⟩ := exists_of_bind_eq_ok h
  rw [ask_eq_ok_iff] at hasked
  cases isFile with
  | false => exact hasked
  | true => exact absurd hasked hfile

/-- Without a configuration file the suffixes are the default ones. -/
theorem resolve_eq_ok_iff_of_isFile_ne (hfile : fs.isFile (configPath fs args) ≠ .ok true) :
    resolve fs args = .ok settings ↔
      fs.isFile (configPath fs args) = .ok false ∧
      ∃ isDirectory, fs.isDirectory (Path.ofText args.input) = .ok isDirectory ∧
        (isDirectory = true → pathOf args.output = none) ∧
        settings = ⟨Path.ofText args.input, pathOf args.output, defaultSourceSuffix,
          defaultOutputSuffix, args.keepGoing, args.check, args.debug⟩ := by
  rw [resolve_eq_ok_iff]
  constructor
  · rintro ⟨isDirectory, config, source, output, hdirectory, hconfig, hsuffixes, hneeds, rfl⟩
    have hfalse := isFile_of_loadConfig hconfig hfile
    obtain rfl := Except.ok.inj ((loadConfig_of_isFile_eq_false hfalse).symm.trans hconfig)
    obtain rfl := Except.ok.inj hsuffixes.source_eq
    obtain rfl := Except.ok.inj hsuffixes.output_eq
    refine ⟨hfalse, isDirectory, hdirectory, hneeds, ?_⟩
    rw [show goesOn [] = false from rfl, Bool.or_false]
  · rintro ⟨hfalse, isDirectory, hdirectory, hneeds, rfl⟩
    refine ⟨isDirectory, [], _, _, hdirectory, loadConfig_of_isFile_eq_false hfalse, ⟨rfl, rfl⟩,
      hneeds, ?_⟩
    rw [show goesOn [] = false from rfl, Bool.or_false]

theorem input_mem_of_find {bytes : List UInt8} (hpaths : settings.sources fs = .ok paths)
    (hfind : fs.find settings.input = .ok (.file bytes)) : settings.input ∈ paths := by
  rw [sources_of_file hfind] at hpaths
  split_ifs at hpaths with hname
  exact Except.ok.inj hpaths ▸ List.mem_singleton_self _

section Alike

variable (hsource : settings.sourceSuffix = defaultSourceSuffix)
  (hpaths : settings.sources fs = .ok paths)

include hsource hpaths

theorem exists_reaches_of_default (hp : p ∈ paths) :
    (∃ l, fs.Reaches p l) ∧ defaultSourceSuffix <:+ p.name := by
  have hsuffix : Path.IsSuffix settings.sourceSuffix := hsource ▸ isSuffix_defaultSourceSuffix
  have hplain : SearchPattern.Plain settings.sourceSuffix := hsource ▸ plain_defaultSourceSuffix
  rw [← hsource]
  exact exists_reaches_of_mem_sources hsuffix hplain hpaths hp

theorem find_input_eq (halike : AlikeBut defaultOutputSuffix fs fs') :
    fs'.find settings.input = fs.find settings.input := by
  obtain ⟨entry, hfind⟩ := exists_find_of_sources hpaths
  cases entry with
  | directory => rw [hfind, halike.find_directory hfind]
  | file bytes =>
    obtain ⟨⟨l, hl⟩, hname⟩ :=
      exists_reaches_of_default hsource hpaths (input_mem_of_find hpaths hfind)
    exact halike.find_eq hl (not_isSuffix_of_isSuffix hname) (ne_parentName_of_isSuffix hname)

theorem sources_eq_ok (halike : AlikeBut defaultOutputSuffix fs fs') :
    settings.sources fs' = .ok paths := by
  obtain ⟨entry, hfind⟩ := exists_find_of_sources hpaths
  have hfind' := (find_input_eq hsource hpaths halike).trans hfind
  cases entry with
  | file bytes => rwa [sources_of_file hfind', ← sources_of_file hfind]
  | directory =>
    have hsuffix : Path.IsSuffix settings.sourceSuffix := hsource ▸ isSuffix_defaultSourceSuffix
    have hplain : SearchPattern.Plain settings.sourceSuffix := hsource ▸ plain_defaultSourceSuffix
    rw [sources_of_plain hfind hsuffix hplain, mapError_eq_ok_iff] at hpaths
    rw [sources_of_plain hfind' hsuffix hplain, mapError_eq_ok_iff]
    exact halike.search_ending_eq_ok (fun name hname => not_isSuffix_of_isSuffix (hsource ▸ hname))
      hpaths

/-- The place of the configuration file is in a directory that is reached. -/
theorem exists_reaches_config :
    ∃ l, fs.Reaches ((inputDirectory fs settings.input).child configName) l := by
  obtain ⟨entry, hfind⟩ := exists_find_of_sources hpaths
  cases entry with
  | directory =>
    rw [inputDirectory, if_pos (isDirectory_eq_ok_true_iff.mpr hfind)]
    obtain ⟨l, hl, -⟩ := find_eq_ok_iff.mp hfind
    exact ⟨l, reaches_child hl configName⟩
  | file bytes =>
    rw [inputDirectory, if_neg (by simp [isDirectory_eq_ok_true_iff, hfind])]
    obtain ⟨⟨l, hl⟩, -⟩ :=
      exists_reaches_of_default hsource hpaths (input_mem_of_find hpaths hfind)
    exact ⟨l, hl.sibling configName⟩

end Alike

theorem suffixes_of_resolve (hfile : fs.isFile (configPath fs args) ≠ .ok true)
    (hresolve : resolve fs args = .ok settings) :
    settings.sourceSuffix = defaultSourceSuffix ∧ settings.outputSuffix = defaultOutputSuffix ∧
      settings.output = pathOf args.output := by
  obtain ⟨-, _, -, -, rfl⟩ := (resolve_eq_ok_iff_of_isFile_ne hfile).mp hresolve
  exact ⟨rfl, rfl, rfl⟩

/-- The settings are the same in file systems that are alike. -/
theorem resolve_of_alikeBut (hconfig : pathOf args.config = none)
    (hfile : fs.isFile (configPath fs args) ≠ .ok true)
    (hresolve : resolve fs args = .ok settings) (hpaths : settings.sources fs = .ok paths)
    (halike : AlikeBut defaultOutputSuffix fs fs') : resolve fs' args = .ok settings := by
  obtain ⟨hfalse, isDirectory, hdirectory, hneeds, rfl⟩ :=
    (resolve_eq_ok_iff_of_isFile_ne hfile).mp hresolve
  have hfind := find_input_eq rfl hpaths halike
  dsimp only at hfind
  have hdirectory' : fs'.isDirectory (Path.ofText args.input) = .ok isDirectory := by
    rw [FileSystem.isDirectory, hfind]
    exact hdirectory
  have hpath : configPath fs' args = configPath fs args := by
    rw [configPath, configPath, inputDirectory, inputDirectory, hdirectory', hdirectory]
  have hfalse' : fs'.isFile (configPath fs' args) = .ok false := by
    obtain ⟨l, hl⟩ := exists_reaches_config rfl hpaths
    rw [hpath, ← hfalse, isFile, isFile, halike.find_eq (l := l)]
    · rw [configPath, hconfig]
      exact hl
    · rw [configPath, hconfig, Option.getD_none, Path.name_child]
      decide
    · rw [configPath, hconfig, Option.getD_none, Path.name_child]
      decide
  refine (resolve_eq_ok_iff_of_isFile_ne ?_).mpr ⟨hfalse', isDirectory, hdirectory', hneeds, rfl⟩
  simp [hfalse']

end Settings

/-! ### Whole runs -/

namespace Batch

open FileSystem

variable {fs : FileSystem} {argv : List Text} {args : Arguments}

/-- A second run changes nothing, and it prints and ends like the first one. -/
theorem run_run (hfs : (fs.entries.map Prod.fst).Nodup)
    (hargs : Arguments.ofWords argv = .ok args) (houtput : Settings.pathOf args.output = none)
    (hconfig : Settings.pathOf args.config = none)
    (hnone : fs.isFile ((Settings.inputDirectory fs (Path.ofText args.input)).child
      Settings.configName) ≠ .ok true) :
    run (run fs argv).fs argv = run fs argv := by
  have hfile : fs.isFile (Settings.configPath fs args) ≠ .ok true := by
    rwa [Settings.configPath, hconfig, Option.getD_none]
  rcases runWith_cases fs args with
    ⟨settings, sources, hresolve, hsources⟩ | ⟨console, heq⟩ | ⟨console, failure, heq⟩
  · have hprepares : Prepares fs argv args settings sources := ⟨hargs, hresolve, hsources⟩
    obtain ⟨hsource, hsuffix, hplace⟩ := Settings.suffixes_of_resolve hfile hresolve
    rw [houtput] at hplace
    obtain ⟨writes, console, ending, hspares, hall⟩ := settlesAll_compileAll hplace
      (hsuffix ▸ by decide) .empty false fun source hmem => by
        obtain ⟨hreaches, hname⟩ := Settings.exists_reaches_of_default hsource hsources hmem
        exact ⟨hreaches, hsuffix ▸ Settings.not_isSuffix_of_isSuffix hname,
          Settings.ne_parentName_of_isSuffix hname⟩
    dsimp only at hall
    have hrefl := AlikeBut.refl settings.outputSuffix hfs
    have hfirst : run fs argv = ⟨fs.putAll writes, console, ending⟩ :=
      hprepares.run_eq.trans (hall fs hrefl)
    have halike : AlikeBut settings.outputSuffix fs (fs.putAll writes) := hrefl.putAll hspares
    have hprepares' : Prepares (fs.putAll writes) argv args settings sources :=
      ⟨hargs, Settings.resolve_of_alikeBut hconfig hfile hresolve hsources (hsuffix ▸ halike),
        Settings.sources_eq_ok hsource hsources (hsuffix ▸ halike)⟩
    rw [hfirst]
    dsimp only
    rw [hprepares'.run_eq, hall _ halike, putAll_putAll]
  · have hfirst := (run_of_ofWords hargs fs).trans heq
    rw [hfirst]
    exact hfirst
  · have hfirst := (run_of_ofWords hargs fs).trans heq
    rw [hfirst]
    exact hfirst

/-- Two sources that share the place of their results, one with an open parenthesis, and one whose
result would go where a directory is. -/
def rerunFiles : FileSystem where
  entries := [([".wlisp".toList], .file [97, 32, 98]), ([".wlisp.wlisp".toList], .file [99]),
    (["d.lisp".toList], .directory), (["d.wlisp".toList], .file [100]),
    (["e.wlisp".toList], .file [40])]
  workingDirectory := []

theorem run_run_keepGoing :
    (rerunFiles.entries.map Prod.fst).Nodup ∧
      Arguments.ofWords ["--keep-going".toList] = .ok { Arguments.default with keepGoing := true } ∧
      rerunFiles.isFile ((Settings.inputDirectory rerunFiles (Path.ofText ".".toList)).child
        Settings.configName) ≠ .ok true ∧
      (run rerunFiles ["--keep-going".toList]).fs.entries ≠ rerunFiles.entries ∧
      run (run rerunFiles ["--keep-going".toList]).fs ["--keep-going".toList] =
        run rerunFiles ["--keep-going".toList] := by
  have hfs : (rerunFiles.entries.map Prod.fst).Nodup := by decide
  have hargs : Arguments.ofWords ["--keep-going".toList] =
      .ok { Arguments.default with keepGoing := true } := by decide +kernel
  have hnone : rerunFiles.isFile ((Settings.inputDirectory rerunFiles
      (Path.ofText ".".toList)).child Settings.configName) ≠ .ok true := by decide +kernel
  exact ⟨hfs, hargs, hnone, by decide +kernel, run_run hfs hargs rfl rfl hnone⟩

end Batch

end Offside
