import Offside.Proofs.Effects
import Offside.Proofs.Obstacles

/-!
# How a run ends

A run that has understood its arguments returns a code or lets a failure escape. What escapes is
listed here. An obstacle escapes unless the run reports it, and then the code is two. A source that
fails is reported, with three exceptions: a path with a null character in it cannot be read or
written, and a suffix with a slash gives no path for the result (`Escapes`).

A turn delivers its source, reports it or lets a failure escape, and exactly one of these
(`turn_of_delivers`, `turn_of_reports`, `turn_of_escapes`). A run over sources goes from one turn
to the next (`Arrives`), and its messages only grow (`err_compileAll`). So it ends where a failure
escapes, and every report up to there is among its messages.
-/

namespace Offside

namespace Path

/-- The path has a null character in it. -/
def HasNull (p : Path) : Prop := Char.ofNat 0 ∈ p.toText

end Path

namespace FileSystem

variable {fs : FileSystem} {p : Path}

theorem guard_eq_nullCharacter_iff : guard p = .error .nullCharacter ↔ p.HasNull := by
  rw [guard, Path.HasNull]
  split_ifs with hnull hlong <;> simpa using hnull

theorem follow_ne_nullCharacter (fs : FileSystem) (l : Location) (names : List Text) :
    fs.follow l names ≠ .error .nullCharacter := by
  induction names generalizing l with
  | nil =>
    rw [follow]
    split <;> simp
  | cons name names ih =>
    rw [follow]
    split
    · simp
    · simp
    · split_ifs
      · exact ih _
      · simp
      · exact ih _

theorem find_eq_nullCharacter_iff : fs.find p = .error .nullCharacter ↔ p.HasNull := by
  rw [← guard_eq_nullCharacter_iff, find, locate, bind_eq_error_iff, bind_eq_error_iff]
  constructor
  · rintro ((hguard | ⟨⟨⟩, -, hfollow⟩) | ⟨l, -, hentry⟩)
    · exact hguard
    · exact absurd hfollow (follow_ne_nullCharacter _ _ _)
    · split at hentry <;> contradiction
  · exact fun hguard => .inl (.inl hguard)

theorem read_eq_nullCharacter_iff : fs.read p = .error .nullCharacter ↔ p.HasNull := by
  have hfind := @find_eq_nullCharacter_iff fs p
  rw [← hfind, read, bind_eq_error_iff]
  constructor
  · rintro (hfind | ⟨entry, -, hentry⟩)
    · exact hfind
    · cases entry <;> contradiction
  · exact .inl

theorem target_eq_nullCharacter_iff : fs.target p = .error .nullCharacter ↔ p.HasNull := by
  rw [← guard_eq_nullCharacter_iff, target, bind_eq_error_iff]
  constructor
  · rintro (hguard | ⟨⟨⟩, -, htarget⟩)
    · exact hguard
    · by_cases hnames : p.names.isEmpty = true
      · rw [if_pos hnames] at htarget
        exact nomatch htarget
      rw [if_neg hnames] at htarget
      rcases bind_eq_error_iff.mp htarget with hfollow | ⟨parent, -, hrest⟩
      · exact absurd hfollow (follow_ne_nullCharacter _ _ _)
      · split at hrest
        · exact nomatch hrest
        · exact nomatch hrest
        · split_ifs at hrest <;> exact nomatch hrest
  · exact .inl

theorem write_eq_nullCharacter_iff {bytes : List UInt8} :
    fs.write p bytes = .error .nullCharacter ↔ p.HasNull := by
  have htarget := @target_eq_nullCharacter_iff fs p
  rw [← htarget, write, bind_eq_error_iff]
  constructor
  · rintro (htarget | ⟨l, -, hput⟩)
    · exact htarget
    · exact nomatch hput
  · exact .inl

end FileSystem

namespace Settings

theorem outputPath_eq_error_iff {settings : Settings} {source : Path} {failure : Failure} :
    settings.outputPath source = .error failure ↔
      settings.output = none ∧ '/' ∈ settings.outputSuffix ∧
        failure = .slashInSuffix settings.outputSuffix := by
  rw [outputPath, Path.withSuffix?]
  cases settings.output with
  | some path => simp
  | none =>
    by_cases hslash : '/' ∈ settings.outputSuffix
    · simp [hslash, eq_comm]
    · simp [hslash]

end Settings

namespace Batch

variable {settings : Settings} {fs fs' : FileSystem} {source : Path} {report : Text}
  {failure : Failure} {sources : List Path}

/-! ### One source -/

/-- What is said about a source that fails. -/
inductive Reports (settings : Settings) (fs : FileSystem) (source : Path) : Text → Prop
  | unreadable {refusal : Refusal} (read_eq : fs.read source = .error refusal)
      (passable : ¬source.HasNull) :
      Reports settings fs source ("error: ".toList ++ refusal.message source ++ ['\n'])
  | undecodable {bytes : List UInt8} {malformed : Utf8.Malformed}
      (read_eq : fs.read source = .ok bytes) (decode_eq : Utf8.decode bytes = .error malformed) :
      Reports settings fs source ("error: ".toList ++ malformed.message ++ ['\n'])
  | uncompilable {text : Text} {d : Diagnostic} (contains : Contains fs source text)
      (compile_eq : compile text source.name = .error d) :
      Reports settings fs source (d.report ++ ['\n'])
  | unwritable {out : Text} {path : Path} {refusal : Refusal} (check : settings.check = false)
      (compiles : Compiles fs source out) (path_eq : settings.outputPath source = .ok path)
      (write_eq : fs.write path (Utf8.encode out) = .error refusal) (passable : ¬path.HasNull) :
      Reports settings fs source ("error: ".toList ++ refusal.message path ++ ['\n'])

/-- What a source ends the run with: a path that cannot be passed to the file system, or a suffix
that gives no path. -/
inductive Escapes (settings : Settings) (fs : FileSystem) (source : Path) : Failure → Prop
  | unreadable (null : source.HasNull) :
      Escapes settings fs source (.path ⟨source, .nullCharacter⟩)
  | slash {out : Text} (check : settings.check = false) (compiles : Compiles fs source out)
      (output : settings.output = none) (slash : '/' ∈ settings.outputSuffix) :
      Escapes settings fs source (.slashInSuffix settings.outputSuffix)
  | unwritable {out : Text} {path : Path} (check : settings.check = false)
      (compiles : Compiles fs source out) (path_eq : settings.outputPath source = .ok path)
      (null : path.HasNull) : Escapes settings fs source (.path ⟨path, .nullCharacter⟩)

theorem refused_of_null (fs : FileSystem) (console : Console) (p : Path) :
    refused fs console ⟨p, .nullCharacter⟩ = ⟨fs, console, .escaped (.path ⟨p, .nullCharacter⟩)⟩ :=
  if_pos rfl

theorem refused_of_ne {refusal : Refusal} (h : refusal ≠ .nullCharacter) (fs : FileSystem)
    (console : Console) (p : Path) :
    refused fs console ⟨p, refusal⟩ = ⟨fs, console.logError (refusal.message p), .failed⟩ :=
  if_neg h

theorem err_listed_prefix (settings : Settings) (console : Console) (doc : Document) :
    console.err <+: (listed settings console doc).err := by
  rw [listed]
  split
  · exact List.prefix_append _ _
  · exact List.prefix_rfl

/-- The compiled text of a source is stored unless only a check was asked for. What is printed
before adds to the messages. -/
theorem exists_turn_of_compiles {out : Text} (h : Compiles fs source out) (settings : Settings)
    (console : Console) :
    ∃ console' : Console, console.err <+: console'.err ∧
      turn settings fs console source =
        if settings.check then ⟨fs, console'.print source.toText, .succeeded⟩
        else store settings fs console' source out := by
  obtain ⟨text, hcontains, hcompile⟩ := h
  obtain ⟨doc, hread, hout⟩ := compile_eq_ok_iff.mp hcompile
  refine ⟨listed settings console doc, err_listed_prefix settings console doc, ?_⟩
  rw [turn_of_contains hcontains, compileText_of_ok hread hout]

theorem turn_of_delivers (h : Delivers settings fs source fs') (console : Console) :
    ∃ console' : Console, console.err <+: console'.err ∧
      turn settings fs console source = ⟨fs', console', .succeeded⟩ := by
  rcases h with ⟨hcheck, hcompiles⟩ | ⟨hcheck, hcompiles, hpath, hwrite, -⟩
  · obtain ⟨console', herr, hturn⟩ := exists_turn_of_compiles hcompiles settings console
    exact ⟨console'.print source.toText, herr, by rw [hturn, if_pos hcheck]⟩
  · obtain ⟨console', herr, hturn⟩ := exists_turn_of_compiles hcompiles settings console
    refine ⟨console'.print source.toText, herr, ?_⟩
    rw [hturn, hcheck]
    simp only [Bool.false_eq_true, if_false, store, hpath, hwrite]

theorem turn_of_reports (h : Reports settings fs source report) (console : Console) :
    ∃ console' : Console, console.err <+: console'.err ∧ report <:+ console'.err ∧
      turn settings fs console source = ⟨fs, console', .failed⟩ := by
  have hlogged : ∀ (console : Console) (message : Text),
      console.err <+: (console.logError message).err ∧
        "error: ".toList ++ message ++ ['\n'] <:+ (console.logError message).err :=
    fun console message => ⟨List.prefix_append _ _, List.suffix_append _ _⟩
  rcases h with @⟨refusal, hread, hnull⟩ | @⟨bytes, malformed, hread, hdecode⟩ |
    @⟨text, d, hcontains, hcompile⟩ | @⟨out, path, refusal, hcheck, hcompiles, hpath, hwrite, hnull⟩
  · refine ⟨console.logError (refusal.message source), (hlogged _ _).1, (hlogged _ _).2, ?_⟩
    rw [turn, hread]
    refine refused_of_ne ?_ fs console source
    rintro rfl
    exact hnull (FileSystem.read_eq_nullCharacter_iff.mp hread)
  · refine ⟨console.logError malformed.message, (hlogged _ _).1, (hlogged _ _).2, ?_⟩
    simp only [turn, hread, hdecode]
  · refine ⟨console.logLine d.report, List.prefix_append _ _, List.suffix_append _ _, ?_⟩
    rw [turn_of_contains hcontains, compileText_of_error hcompile]
  · obtain ⟨console', herr, hturn⟩ := exists_turn_of_compiles hcompiles settings console
    refine ⟨console'.logError (refusal.message path), herr.trans (hlogged _ _).1,
      (hlogged _ _).2, ?_⟩
    rw [hturn, if_neg (by simp [hcheck])]
    simp only [store, hpath, hwrite]
    refine refused_of_ne ?_ fs console' path
    rintro rfl
    exact hnull (FileSystem.write_eq_nullCharacter_iff.mp hwrite)

theorem turn_of_escapes (h : Escapes settings fs source failure) (console : Console) :
    ∃ console' : Console, console.err <+: console'.err ∧
      turn settings fs console source = ⟨fs, console', .escaped failure⟩ := by
  rcases h with ⟨hnull⟩ | ⟨hcheck, hcompiles, houtput, hslash⟩ | ⟨hcheck, hcompiles, hpath, hnull⟩
  · refine ⟨console, List.prefix_rfl, ?_⟩
    rw [turn, FileSystem.read_eq_nullCharacter_iff.mpr hnull]
    exact refused_of_null fs console source
  · obtain ⟨console', herr, hturn⟩ := exists_turn_of_compiles hcompiles settings console
    refine ⟨console', herr, ?_⟩
    rw [hturn, if_neg (by simp [hcheck]), store,
      Settings.outputPath_eq_error_iff.mpr ⟨houtput, hslash, rfl⟩]
  · obtain ⟨console', herr, hturn⟩ := exists_turn_of_compiles hcompiles settings console
    refine ⟨console', herr, ?_⟩
    rw [hturn, if_neg (by simp [hcheck]), store, hpath]
    dsimp only
    rw [FileSystem.write_eq_nullCharacter_iff.mpr hnull]
    exact refused_of_null fs console' _

/-- A source is delivered, or it is reported, or it ends the run. -/
theorem delivers_or_reports_or_escapes (settings : Settings) (fs : FileSystem) (source : Path) :
    (∃ fs', Delivers settings fs source fs') ∨ (∃ report, Reports settings fs source report) ∨
      ∃ failure, Escapes settings fs source failure := by
  -- the steps of a turn in their order: each one settles the matter or leads to the next
  by_cases hnull : source.HasNull
  · exact .inr (.inr ⟨_, .unreadable hnull⟩)
  rcases hread : fs.read source with refusal | bytes
  · exact .inr (.inl ⟨_, .unreadable hread hnull⟩)
  rcases hdecode : Utf8.decode bytes with malformed | text
  · exact .inr (.inl ⟨_, .undecodable hread hdecode⟩)
  have hcontains : Contains fs source text := ⟨bytes, hread, hdecode⟩
  rcases hcompile : compile text source.name with d | out
  · exact .inr (.inl ⟨_, .uncompilable hcontains hcompile⟩)
  have hcompiles : Compiles fs source out := ⟨text, hcontains, hcompile⟩
  rcases hcheck : settings.check with _ | _
  · rcases hpath : settings.outputPath source with failure | path
    · obtain ⟨houtput, hslash, rfl⟩ := Settings.outputPath_eq_error_iff.mp hpath
      exact .inr (.inr ⟨_, .slash hcheck hcompiles houtput hslash⟩)
    by_cases hnull' : path.HasNull
    · exact .inr (.inr ⟨_, .unwritable hcheck hcompiles hpath hnull'⟩)
    rcases hwrite : fs.write path (Utf8.encode out) with refusal | fs'
    · exact .inr (.inl ⟨_, .unwritable hcheck hcompiles hpath hwrite hnull'⟩)
    · obtain ⟨location, hupdates⟩ := FileSystem.updates_of_write hwrite
      exact .inl ⟨fs', .written hcheck hcompiles hpath hwrite hupdates⟩
  · exact .inl ⟨fs, .checked hcheck hcompiles⟩

/-! ### One source after the other -/

/-- A run over sources comes to a source with the files `fs'`: those before it were delivered, or
they were reported and the run keeps going. -/
inductive Arrives (settings : Settings) :
    FileSystem → List Path → FileSystem → Path → Prop
  | here {fs : FileSystem} {source : Path} {sources : List Path} :
      Arrives settings fs (source :: sources) fs source
  | delivered {fs fs' fs'' : FileSystem} {first source : Path} {sources : List Path}
      (delivers : Delivers settings fs first fs')
      (rest : Arrives settings fs' sources fs'' source) :
      Arrives settings fs (first :: sources) fs'' source
  | reported {fs fs' : FileSystem} {first source : Path} {sources : List Path} {report : Text}
      (keepGoing : settings.keepGoing = true) (reports : Reports settings fs first report)
      (rest : Arrives settings fs sources fs' source) :
      Arrives settings fs (first :: sources) fs' source

/-- A run over sources goes on from where it has arrived. -/
theorem compileAll_of_arrives (h : Arrives settings fs sources fs' source) (console : Console)
    (failed : Bool) :
    ∃ console' failed' rest, compileAll settings fs console failed sources =
      compileAll settings fs' console' failed' (source :: rest) := by
  induction h generalizing console failed with
  | here => exact ⟨console, failed, _, rfl⟩
  | delivered delivers rest ih =>
    obtain ⟨console', -, hturn⟩ := turn_of_delivers delivers console
    rw [compileAll_of_succeeded hturn]
    exact ih console' failed
  | reported keepGoing reports rest ih =>
    obtain ⟨console', -, -, hturn⟩ := turn_of_reports reports console
    rw [compileAll_of_failed hturn, if_pos keepGoing]
    exact ih console' true

/-- Messages are added and never taken back. -/
theorem err_compileAll (settings : Settings) (fs : FileSystem) (console : Console) (failed : Bool)
    (sources : List Path) :
    console.err <+: (compileAll settings fs console failed sources).console.err := by
  induction sources generalizing fs console failed with
  | nil => exact List.prefix_rfl
  | cons source sources ih =>
    rcases delivers_or_reports_or_escapes settings fs source with
      ⟨fs', hdelivers⟩ | ⟨report, hreports⟩ | ⟨failure, hescapes⟩
    · obtain ⟨console', herr, hturn⟩ := turn_of_delivers hdelivers console
      rw [compileAll_of_succeeded hturn]
      exact herr.trans (ih fs' console' failed)
    · obtain ⟨console', herr, -, hturn⟩ := turn_of_reports hreports console
      rw [compileAll_of_failed hturn]
      split
      · exact herr.trans (ih fs console' true)
      · exact herr
    · obtain ⟨console', herr, hturn⟩ := turn_of_escapes hescapes console
      rw [compileAll_of_escaped hturn]
      exact herr

/-- A run over sources returns zero or one, unless it arrives at a source that ends it. It returns
zero only if no source has failed. -/
theorem ending_compileAll (settings : Settings) (fs : FileSystem) (console : Console)
    (failed : Bool) (sources : List Path) :
    (∃ failed', (failed = true → failed' = true) ∧
      (compileAll settings fs console failed sources).ending = .returned (exitCode failed')) ∨
    ∃ fs' source failure, Arrives settings fs sources fs' source ∧
      Escapes settings fs' source failure ∧
      (compileAll settings fs console failed sources).ending = .escaped failure := by
  induction sources generalizing fs console failed with
  | nil => exact .inl ⟨failed, id, rfl⟩
  | cons source sources ih =>
    rcases delivers_or_reports_or_escapes settings fs source with
      ⟨fs', hdelivers⟩ | ⟨report, hreports⟩ | ⟨failure, hescapes⟩
    · obtain ⟨console', -, hturn⟩ := turn_of_delivers hdelivers console
      rw [compileAll_of_succeeded hturn]
      refine (ih fs' console' failed).imp_right ?_
      rintro ⟨fs'', other, failure, harrives, hrest⟩
      exact ⟨fs'', other, failure, .delivered hdelivers harrives, hrest⟩
    · obtain ⟨console', -, -, hturn⟩ := turn_of_reports hreports console
      rw [compileAll_of_failed hturn]
      split
      · rename_i hkeep
        refine (ih fs console' true).imp ?_ ?_
        · exact fun ⟨failed', hfailed, hending⟩ => ⟨failed', fun _ => hfailed rfl, hending⟩
        · rintro ⟨fs'', other, failure, harrives, hrest⟩
          exact ⟨fs'', other, failure, .reported hkeep hreports harrives, hrest⟩
      · exact .inl ⟨true, fun _ => rfl, rfl⟩
    · obtain ⟨console', -, hturn⟩ := turn_of_escapes hescapes console
      rw [compileAll_of_escaped hturn]
      exact .inr ⟨fs, source, failure, .here, hescapes, rfl⟩

/-! ### Whole runs -/

open Settings (Obstacle)

variable {args : Arguments} {argv : List Text}

/-- The failures that a run does not report. -/
inductive Unreported : Failure → Prop
  | encoding (malformed : Utf8.Malformed) : Unreported (.encoding malformed)
  | path (refusal : FileSystem.PathRefusal) : Unreported (.path refusal)
  | longInteger {fault : Toml.Unreadable} {digits : Nat}
      (cause_eq : fault.fault.cause = .longInteger digits) : Unreported (.config fault)
  | longNumber : Unreported .longNumber
  | doubleStar : Unreported .doubleStar
  | slashInSuffix (suffix : Text) : Unreported (.slashInSuffix suffix)

theorem isReported_eq_false_iff : failure.isReported = false ↔ Unreported failure := by
  constructor
  · intro h
    match failure with
    | .usage fault => exact nomatch h
    | .config fault =>
      rw [Failure.isReported] at h
      split at h
      · rename_i digits hcause
        exact .longInteger hcause
      · exact nomatch h
    | .encoding malformed => exact .encoding malformed
    | .path refusal => exact .path refusal
    | .slashInSuffix suffix => exact .slashInSuffix suffix
    | .doubleStar => exact .doubleStar
    | .longNumber => exact .longNumber
  · rintro (_ | _ | hcause | _ | _ | _)
    case longInteger => simp only [Failure.isReported, hcause]
    all_goals rfl

/-- What a run does not answer with a code: an obstacle that it does not report, or a source that
ends it. -/
inductive Breaks (fs : FileSystem) (args : Arguments) : Failure → Prop
  | obstacle {failure : Failure} (obstacle : Obstacle fs args failure)
      (unreported : Unreported failure) : Breaks fs args failure
  | source {settings : Settings} {sources : List Path} {fs' : FileSystem} {source : Path}
      {failure : Failure} (resolved : Settings.resolve fs args = .ok settings)
      (found : settings.sources fs = .ok sources)
      (arrives : Arrives settings fs sources fs' source)
      (escapes : Escapes settings fs' source failure) : Breaks fs args failure

theorem obstacle_or_sources (fs : FileSystem) (args : Arguments) :
    (∃ failure, Obstacle fs args failure) ∨
      ∃ settings sources, Settings.resolve fs args = .ok settings ∧
        settings.sources fs = .ok sources := by
  rcases hresolve : Settings.resolve fs args with failure | settings
  · exact .inl ⟨failure, Settings.obstacle_of_resolve hresolve⟩
  rcases hsources : settings.sources fs with failure | sources
  · exact .inl ⟨failure, .sources hresolve (Settings.sources_eq_error_iff.mp hsources)⟩
  · exact .inr ⟨settings, sources, rfl, hsources⟩

theorem runWith_of_obstacle (h : Obstacle fs args failure) :
    runWith fs args =
      if failure.isReported then
        ⟨fs, ⟨[], "error: ".toList ++ failure.message ++ ['\n']⟩, .returned 2⟩
      else ⟨fs, .empty, .escaped failure⟩ := by
  have herror := Settings.prepare_eq_error_iff.mpr h
  unfold runWith
  dsimp only
  rw [herror]
  rfl

theorem runWith_of_reported (h : Obstacle fs args failure) (hreported : ¬Unreported failure) :
    runWith fs args =
      ⟨fs, ⟨[], "error: ".toList ++ failure.message ++ ['\n']⟩, .returned 2⟩ := by
  rw [← isReported_eq_false_iff, Bool.not_eq_false] at hreported
  rw [runWith_of_obstacle h, if_pos hreported]

theorem runWith_of_unreported (h : Obstacle fs args failure) (hunreported : Unreported failure) :
    runWith fs args = ⟨fs, .empty, .escaped failure⟩ := by
  rw [runWith_of_obstacle h, isReported_eq_false_iff.mpr hunreported]
  rfl

theorem ending_of_escapes {console : Console} {failed : Bool}
    (harrives : Arrives settings fs sources fs' source)
    (hescapes : Escapes settings fs' source failure) :
    (compileAll settings fs console failed sources).ending = .escaped failure := by
  obtain ⟨console', failed', rest, heq⟩ := compileAll_of_arrives harrives console failed
  obtain ⟨console'', -, hturn⟩ := turn_of_escapes hescapes console'
  rw [heq, compileAll_of_escaped hturn]

/-- A source that fails is reported, and the code is not zero. -/
theorem reported_of_arrives {console : Console} {failed : Bool}
    (harrives : Arrives settings fs sources fs' source)
    (hreports : Reports settings fs' source report) :
    report <:+: (compileAll settings fs console failed sources).console.err ∧
      (compileAll settings fs console failed sources).ending ≠ .returned 0 := by
  obtain ⟨console', failed', rest, heq⟩ := compileAll_of_arrives harrives console failed
  obtain ⟨console'', -, hreport, hturn⟩ := turn_of_reports hreports console'
  rw [heq, compileAll_of_failed hturn]
  split
  · refine ⟨hreport.isInfix.trans (err_compileAll _ _ _ _ _).isInfix, ?_⟩
    -- the failure is noted from here on, whatever the sources after it come to
    rcases ending_compileAll settings fs' console'' true rest with
      ⟨failed, hfailed, hending⟩ | ⟨_, _, failure, -, -, hending⟩
    · rw [hending, hfailed rfl]
      exact nofun
    · rw [hending]
      exact nofun
  · exact ⟨hreport.isInfix, nofun⟩

theorem ending_of_breaks (hargs : Arguments.ofWords argv = .ok args)
    (h : Breaks fs args failure) : (run fs argv).ending = .escaped failure := by
  rcases h with ⟨hobstacle, hunreported⟩ | ⟨hresolve, hsources, harrives, hescapes⟩
  · rw [run_of_ofWords hargs, runWith_of_unreported hobstacle hunreported]
  · rw [Prepares.run_eq ⟨hargs, hresolve, hsources⟩]
    exact ending_of_escapes harrives hescapes

theorem returns_or_breaks (hargs : Arguments.ofWords argv = .ok args) (fs : FileSystem) :
    (∃ code ≤ 2, (run fs argv).ending = .returned code) ∨ ∃ failure, Breaks fs args failure := by
  rcases obstacle_or_sources fs args with
    ⟨failure, hobstacle⟩ | ⟨settings, sources, hresolve, hsources⟩
  · by_cases hunreported : Unreported failure
    · exact .inr ⟨failure, .obstacle hobstacle hunreported⟩
    · refine .inl ⟨2, le_rfl, ?_⟩
      rw [run_of_ofWords hargs, runWith_of_reported hobstacle hunreported]
  · rw [Prepares.run_eq ⟨hargs, hresolve, hsources⟩]
    refine (ending_compileAll settings fs .empty false sources).imp ?_ ?_
    · rintro ⟨failed, -, hending⟩
      exact ⟨exitCode failed, Nat.le_succ_of_le (exitCode_le_one failed), hending⟩
    · rintro ⟨fs', source, failure, harrives, hescapes, -⟩
      exact ⟨failure, .source hresolve hsources harrives hescapes⟩

/-- A run returns a code, zero, one or two, if and only if nothing breaks it, and what breaks it
escapes. An obstacle that does not break the run is reported, with the code two. A source that
fails is reported, whatever comes after it. -/
theorem run_ending (hargs : Arguments.ofWords argv = .ok args) (fs : FileSystem) :
    ((∃ code ≤ 2, (run fs argv).ending = .returned code) ↔ ∀ failure, ¬Breaks fs args failure) ∧
    (∀ failure, (run fs argv).ending = .escaped failure ↔ Breaks fs args failure) ∧
    (∀ failure, Obstacle fs args failure → ¬Breaks fs args failure →
      run fs argv = ⟨fs, ⟨[], "error: ".toList ++ failure.message ++ ['\n']⟩, .returned 2⟩) ∧
    ∀ settings sources fs' source report, Settings.resolve fs args = .ok settings →
      settings.sources fs = .ok sources → Arrives settings fs sources fs' source →
      Reports settings fs' source report →
      report <:+: (run fs argv).console.err ∧ (run fs argv).ending ≠ .returned 0 := by
  -- a run ends in one way only, so a code and a break exclude each other
  have hreturned : ∀ {code}, (run fs argv).ending = .returned code →
      ∀ failure, ¬Breaks fs args failure := fun hcode failure hbreaks =>
    nomatch hcode.symm.trans (ending_of_breaks hargs hbreaks)
  refine ⟨⟨?_, ?_⟩, fun failure => ⟨fun hescaped => ?_, ending_of_breaks hargs⟩, ?_, ?_⟩
  · rintro ⟨code, -, hcode⟩
    exact hreturned hcode
  · intro hnone
    exact (returns_or_breaks hargs fs).resolve_right fun ⟨failure, hbreaks⟩ =>
      hnone failure hbreaks
  · rcases returns_or_breaks hargs fs with ⟨code, -, hcode⟩ | ⟨failure', hbreaks⟩
    · exact nomatch hcode.symm.trans hescaped
    · obtain rfl : failure' = failure := by
        injection (ending_of_breaks hargs hbreaks).symm.trans hescaped
      exact hbreaks
  · intro failure hobstacle hbreaks
    rw [run_of_ofWords hargs]
    exact runWith_of_reported hobstacle fun hunreported =>
      hbreaks (.obstacle hobstacle hunreported)
  · intro settings sources fs' source report hresolve hsources harrives hreports
    rw [Prepares.run_eq ⟨hargs, hresolve, hsources⟩]
    exact reported_of_arrives harrives hreports

/-- A source, and a configuration file that puts results into a directory. -/
def slashedFiles : FileSystem where
  entries := [
    (["a.wlisp".toList], .file [120]),
    (["wlisp.toml".toList], .file
      (Utf8.encode "[compile]\noutput_suffix = './out'".toList))]
  workingDirectory := []

theorem run_ending_slashed :
    Arguments.ofWords [] = .ok .default ∧
      Breaks slashedFiles .default (.slashInSuffix "./out".toList) ∧
      ¬∃ code ≤ 2, (run slashedFiles []).ending = .returned code := by
  have hargs : Arguments.ofWords [] = .ok .default := by decide
  have hending : (run slashedFiles []).ending = .escaped (.slashInSuffix "./out".toList) := by
    decide +kernel
  obtain ⟨hreturned, hescaped, -⟩ := run_ending hargs slashedFiles
  have hbreaks := (hescaped _).mp hending
  exact ⟨hargs, hbreaks, fun hcode => hreturned.mp hcode _ hbreaks⟩

/-- A configuration file that is not UTF-8. -/
def malformedConfig : FileSystem where
  entries := [(["wlisp.toml".toList], .file [0xff])]
  workingDirectory := []

/-- No code is returned and nothing is said, for arguments that are understood. -/
theorem run_escapes :
    Arguments.ofWords [] = .ok .default ∧
      (run malformedConfig []).ending = .escaped (.encoding ⟨0, 0xff, 1, .invalidStart⟩) ∧
      (run malformedConfig []).console = .empty := by
  decide +kernel

end Batch

end Offside
