import Offside.Proofs.Turn

/-!
# What a run changes

A run goes through its sources in order and stops at the first one that fails, unless it keeps
going (`Covers`). Every source finds the files as those before it have left them. If it succeeds,
its output is written; if it fails, nothing changes (`Processes`).

What a turn can do is said once (`ends_turn`), and a run over sources is followed from there by
induction (`exists_processes_of_compileAll`). So the sources that a run has visited account for
all that it leaves behind: the files, the printed lines and the exit code (`run_effects`).
-/

namespace Offside.Batch

variable {settings : Settings} {fs fs' fs'' : FileSystem} {console : Console} {source : Path}

/-! ### Visits -/

/-- A source that was processed, and whether it succeeded. -/
structure Visit where
  source : Path
  succeeded : Bool
  deriving DecidableEq, Repr

/-- Sources are processed one after the other, each with the files that those before it have left.
-/
inductive Processes (settings : Settings) : FileSystem → List Visit → FileSystem → Prop
  | nil {fs : FileSystem} : Processes settings fs [] fs
  | succeeded {fs fs' fs'' : FileSystem} {source : Path} {visits : List Visit}
      (delivers : Delivers settings fs source fs') (rest : Processes settings fs' visits fs'') :
      Processes settings fs (⟨source, true⟩ :: visits) fs''
  | failed {fs fs' : FileSystem} {source : Path} {visits : List Visit}
      (fails : Fails settings fs source) (rest : Processes settings fs visits fs') :
      Processes settings fs (⟨source, false⟩ :: visits) fs'

/-- The sources that are processed: the first ones, in order. They are all of them if the run keeps
going, and otherwise those up to the first one that fails. -/
structure Covers (keepGoing : Bool) (sources : List Path) (visits : List Visit) : Prop where
  ordered : visits.map Visit.source <+: sources
  complete : keepGoing = true → visits.map Visit.source = sources
  stops : keepGoing = false →
    (∀ visit ∈ visits.dropLast, visit.succeeded = true) ∧
      (visits.map Visit.source = sources ∨ ∃ last ∈ visits.getLast?, last.succeeded = false)

/-- The lines that are printed for the sources that succeeded. -/
def printed (visits : List Visit) : Text :=
  (visits.filter Visit.succeeded).flatMap fun visit => visit.source.toText ++ ['\n']

/-- Whether some source has failed. -/
def anyFailed (visits : List Visit) : Bool := visits.any fun visit => !visit.succeeded

section Visits

variable {keepGoing : Bool} {sources : List Path} {visits : List Visit}

theorem Covers.nil : Covers keepGoing [] [] where
  ordered := List.prefix_rfl
  complete _ := rfl
  stops _ := ⟨fun _ h => absurd h (by simp), .inl rfl⟩

theorem Covers.cons (h : Covers keepGoing sources visits) (source : Path) {succeeded : Bool}
    (hnext : succeeded = true ∨ keepGoing = true) :
    Covers keepGoing (source :: sources) (⟨source, succeeded⟩ :: visits) where
  ordered := List.cons_prefix_cons.mpr ⟨rfl, h.ordered⟩
  complete hkeep := congrArg _ (h.complete hkeep)
  stops hstop := by
    have hsucceeded : succeeded = true := hnext.resolve_right (by simp [hstop])
    obtain ⟨hfront, hlast⟩ := h.stops hstop
    cases visits with
    | nil => exact ⟨fun _ hmem => absurd hmem (by simp), .inl (by simpa using hlast)⟩
    | cons next visits =>
      refine ⟨fun visit hvisit => ?_, hlast.imp (congrArg _) id⟩
      rw [List.dropLast_cons_cons] at hvisit
      rcases List.mem_cons.mp hvisit with rfl | hvisit
      · exact hsucceeded
      · exact hfront visit hvisit

/-- A run that does not keep going stops at a source that fails. -/
theorem covers_of_failed (hstop : keepGoing = false) (source : Path) (sources : List Path) :
    Covers keepGoing (source :: sources) [⟨source, false⟩] where
  ordered := List.cons_prefix_cons.mpr ⟨rfl, List.nil_prefix⟩
  complete hkeep := absurd hkeep (by simp [hstop])
  stops _ := ⟨fun _ h => absurd h (by simp), .inr ⟨_, rfl, rfl⟩⟩

theorem printed_cons_succeeded (source : Path) (visits : List Visit) :
    printed (⟨source, true⟩ :: visits) = source.toText ++ ['\n'] ++ printed visits := by
  rw [printed, printed, List.filter_cons_of_pos rfl, List.flatMap_cons]

theorem printed_cons_failed (source : Path) (visits : List Visit) :
    printed (⟨source, false⟩ :: visits) = printed visits := by
  rw [printed, printed, List.filter_cons_of_neg Bool.false_ne_true]

/-- What a run over sources comes to if it returns. -/
theorem exists_processes_of_compileAll {failed : Bool} {code : Nat}
    (h : (compileAll settings fs console failed sources).ending = .returned code) :
    ∃ visits, Processes settings fs visits (compileAll settings fs console failed sources).fs ∧
      Covers settings.keepGoing sources visits ∧
      code = exitCode (failed || anyFailed visits) ∧
      (compileAll settings fs console failed sources).console.out =
        console.out ++ printed visits := by
  induction sources generalizing fs console failed with
  | nil =>
    obtain rfl : exitCode failed = code := by injection h
    refine ⟨[], .nil, .nil, ?_, ?_⟩
    · rw [anyFailed, List.any_nil, Bool.or_false]
    · exact (List.append_nil _).symm
  | cons source sources ih =>
    have hends := ends_turn settings fs console source
    rw [compileAll] at h ⊢
    generalize turn settings fs console source = t at h hends ⊢
    cases hends with
    | escaped => exact nomatch h
    | succeeded delivers out_eq =>
      obtain ⟨visits, hprocesses, hcovers, hcode, hout⟩ := ih h
      refine ⟨⟨source, true⟩ :: visits, .succeeded delivers hprocesses,
        hcovers.cons source (.inl rfl), hcode, ?_⟩
      rw [hout, out_eq, printed_cons_succeeded, List.append_assoc, List.append_assoc,
        List.append_assoc]
    | failed fails out_eq =>
      dsimp only at h ⊢
      by_cases hkeep : settings.keepGoing = true
      · rw [if_pos hkeep] at h ⊢
        obtain ⟨visits, hprocesses, hcovers, hcode, hout⟩ := ih h
        refine ⟨⟨source, false⟩ :: visits, .failed fails hprocesses,
          hcovers.cons source (.inr hkeep), ?_, ?_⟩
        · rw [hcode, Bool.true_or, anyFailed, List.any_cons, Bool.not_false, Bool.true_or,
            Bool.or_true]
        · rw [hout, out_eq, printed_cons_failed]
      · rw [if_neg hkeep] at h ⊢
        obtain rfl : exitCode true = code := by injection h
        refine ⟨[⟨source, false⟩], .failed fails .nil,
          covers_of_failed (Bool.eq_false_iff.mpr hkeep) source sources, ?_, ?_⟩
        · rw [anyFailed, List.any_cons, Bool.not_false, Bool.true_or, Bool.or_true]
        · rw [out_eq, printed_cons_failed]
          exact (List.append_nil _).symm

end Visits

/-! ### The files after a run -/

section Files

variable {visits : List Visit}

theorem Delivers.retains (h : Delivers settings fs source fs') : fs.Retains fs' := by
  cases h with
  | checked check compiles => exact .refl fs
  | written check compiles path_eq write_eq updates => exact updates.retains

theorem Processes.retains (h : Processes settings fs visits fs') : fs.Retains fs' := by
  induction h with
  | nil => exact .refl _
  | succeeded delivers rest ih => exact delivers.retains.trans ih
  | failed fails rest ih => exact ih

/-- Only the output paths of sources that succeeded lead to something that has changed. -/
theorem Processes.exists_of_entry?_ne (h : Processes settings fs visits fs') {l : Location}
    (hl : fs'.entry? l ≠ fs.entry? l) :
    ∃ source path, ⟨source, true⟩ ∈ visits ∧ settings.outputPath source = .ok path ∧
      fs'.locate path = .ok l := by
  induction h with
  | nil => exact absurd rfl hl
  | @succeeded fs fs' fs'' source visits delivers rest ih =>
    by_cases hrest : fs''.entry? l = fs'.entry? l
    · rw [hrest] at hl
      -- the change was made by this source, and its path still leads there at the end
      cases delivers with
      | checked check compiles => exact absurd rfl hl
      | written check compiles path_eq write_eq updates =>
        obtain rfl := Decidable.not_not.mp (mt (updates.kept l) hl)
        exact ⟨source, _, List.mem_cons_self, path_eq, rest.retains.locate_eq_ok updates.located⟩
    · obtain ⟨other, path, hmem, hpath, hlocate⟩ := ih hrest
      exact ⟨other, path, List.mem_cons_of_mem _ hmem, hpath, hlocate⟩
  | failed fails rest ih =>
    obtain ⟨other, path, hmem, hpath, hlocate⟩ := ih hl
    exact ⟨other, path, List.mem_cons_of_mem _ hmem, hpath, hlocate⟩

/-- A check changes nothing. -/
theorem Processes.eq_of_check (h : Processes settings fs visits fs')
    (hcheck : settings.check = true) : fs' = fs := by
  induction h with
  | nil => rfl
  | succeeded delivers rest ih =>
    cases delivers with
    | checked check compiles => exact ih
    | written check compiles path_eq write_eq updates => simp [hcheck] at check
  | failed fails rest ih => exact ih

end Files

/-! ### One source after the other -/

section Steps

variable {console' : Console} {failed : Bool} {failure : Failure} {sources : List Path}

theorem compileAll_of_succeeded
    (h : turn settings fs console source = ⟨fs', console', .succeeded⟩) :
    compileAll settings fs console failed (source :: sources) =
      compileAll settings fs' console' failed sources := by
  rw [compileAll, h]

theorem compileAll_of_failed (h : turn settings fs console source = ⟨fs', console', .failed⟩) :
    compileAll settings fs console failed (source :: sources) =
      if settings.keepGoing then compileAll settings fs' console' true sources
      else ⟨fs', console', .returned (exitCode true)⟩ := by
  rw [compileAll, h]

theorem compileAll_of_escaped
    (h : turn settings fs console source = ⟨fs', console', .escaped failure⟩) :
    compileAll settings fs console failed (source :: sources) =
      ⟨fs', console', .escaped failure⟩ := by
  rw [compileAll, h]

end Steps

/-! ### Whole runs -/

/-- The arguments are understood, the settings are worked out, and these are the sources. -/
structure Prepares (fs : FileSystem) (argv : List Text) (args : Arguments) (settings : Settings)
    (sources : List Path) : Prop where
  understood : Arguments.ofWords argv = .ok args
  resolved : Settings.resolve fs args = .ok settings
  found : settings.sources fs = .ok sources

variable {argv : List Text} {args : Arguments} {sources : List Path}

theorem run_of_ofWords (h : Arguments.ofWords argv = .ok args) (fs : FileSystem) :
    run fs argv = runWith fs args := by
  rw [run, h]

theorem Prepares.run_eq (h : Prepares fs argv args settings sources) :
    run fs argv = compileAll settings fs .empty false sources := by
  rw [run_of_ofWords h.understood]
  unfold runWith
  rw [h.resolved]
  dsimp only [bind, Except.bind]
  rw [h.found]
  rfl

theorem check_of_resolve (h : Settings.resolve fs args = .ok settings) :
    settings.check = args.check := by
  obtain ⟨inputIsDirectory, -, h⟩ := exists_of_bind_eq_ok h
  obtain ⟨config, -, h⟩ := exists_of_bind_eq_ok h
  obtain ⟨sourceSuffix, -, h⟩ := exists_of_bind_eq_ok h
  obtain ⟨outputSuffix, -, h⟩ := exists_of_bind_eq_ok h
  dsimp only at h
  split at h
  · exact nomatch h
  · rw [← Except.ok.inj h]

theorem runWith_cases (fs : FileSystem) (args : Arguments) :
    (∃ settings sources,
      Settings.resolve fs args = .ok settings ∧ settings.sources fs = .ok sources) ∨
    (∃ console, runWith fs args = ⟨fs, console, .returned 2⟩) ∨
    ∃ console failure, runWith fs args = ⟨fs, console, .escaped failure⟩ := by
  unfold runWith
  dsimp only
  split
  · rename_i settings sources hprepared
    obtain ⟨settings', hsettings, hrest⟩ := exists_of_bind_eq_ok hprepared
    obtain ⟨sources', hsources, hpair⟩ := exists_of_bind_eq_ok hrest
    exact .inl ⟨settings', sources', hsettings, hsources⟩
  · split
    · exact .inr (.inl ⟨_, rfl⟩)
    · exact .inr (.inr ⟨_, _, rfl⟩)

/-- A run that returns has found its sources, or it ends with the code two before it does
anything. -/
theorem exists_prepares_or_of_run {code : Nat} (h : (run fs argv).ending = .returned code) :
    (∃ args settings sources, Prepares fs argv args settings sources) ∨
      code = 2 ∧ (run fs argv).fs = fs := by
  cases hargs : Arguments.ofWords argv with
  | error stop =>
    simp only [run, hargs] at h
    exact nomatch h
  | ok args =>
    rw [run_of_ofWords hargs] at h ⊢
    rcases runWith_cases fs args with
      ⟨settings, sources, hsettings, hsources⟩ | ⟨console, heq⟩ | ⟨console, failure, heq⟩
    · exact .inl ⟨args, settings, sources, hargs, hsettings, hsources⟩
    · rw [heq] at h ⊢
      obtain rfl : 2 = code := by injection h
      exact .inr ⟨rfl, rfl⟩
    · rw [heq] at h
      exact nomatch h

theorem exitCode_eq_one_iff {visits : List Visit} :
    exitCode (anyFailed visits) = 1 ↔ ∃ visit ∈ visits, visit.succeeded = false := by
  rw [exitCode, anyFailed]
  simp

theorem exitCode_le_one (failed : Bool) : exitCode failed ≤ 1 := by
  cases failed <;> decide

/-- The sources that a run has visited account for its outcome: the files have changed only at their
output paths, their failures make the exit code, and what is printed are those that succeeded. -/
structure Accounts (args : Arguments) (settings : Settings) (fs : FileSystem)
    (sources : List Path) (visits : List Visit) (outcome : Outcome) (code : Nat) : Prop where
  covers : Covers settings.keepGoing sources visits
  processes : Processes settings fs visits outcome.fs
  framed : ∀ l, FileSystem.entry? outcome.fs l ≠ fs.entry? l →
    ∃ source path, ⟨source, true⟩ ∈ visits ∧ settings.outputPath source = .ok path ∧
      outcome.fs.locate path = .ok l
  unchanged : args.check = true → outcome.fs = fs
  code_eq_one_iff : code = 1 ↔ ∃ visit ∈ visits, visit.succeeded = false
  code_le_one : code ≤ 1
  out_eq : outcome.console.out = printed visits

/-- A run that returns the code two has changed nothing. With any other code, the sources that it
has visited account for its outcome. -/
theorem run_effects {code : Nat} (h : (run fs argv).ending = .returned code) :
    (code = 2 → (run fs argv).fs = fs) ∧
      (code ≠ 2 → ∃ args settings sources visits, Prepares fs argv args settings sources ∧
        Accounts args settings fs sources visits (run fs argv) code) := by
  rcases exists_prepares_or_of_run h with ⟨args, settings, sources, hprepares⟩ | ⟨rfl, hfs⟩
  · rw [hprepares.run_eq] at h ⊢
    obtain ⟨visits, hprocesses, hcovers, rfl, hout⟩ := exists_processes_of_compileAll h
    have haccounts : Accounts args settings fs sources visits
        (compileAll settings fs .empty false sources) (exitCode (anyFailed visits)) :=
      { covers := hcovers
        processes := hprocesses
        framed := fun l hl => hprocesses.exists_of_entry?_ne hl
        unchanged := fun hcheck =>
          hprocesses.eq_of_check ((check_of_resolve hprepares.resolved).trans hcheck)
        code_eq_one_iff := exitCode_eq_one_iff
        code_le_one := exitCode_le_one _
        out_eq := hout }
    refine ⟨fun htwo => ?_, fun _ => ⟨args, settings, sources, visits, hprepares, haccounts⟩⟩
    have hle := exitCode_le_one (anyFailed visits)
    rw [Bool.false_or] at htwo
    omega
  · exact ⟨fun _ => hfs, fun hne => absurd rfl hne⟩

/-- Two sources in the working directory, of which the first one has an open parenthesis. -/
def twoSources : FileSystem where
  entries := [(["a.wlisp".toList], .file [40]), (["b.wlisp".toList], .file [120, 32, 121])]
  workingDirectory := []

theorem run_effects_keepGoing :
    (run twoSources ["--keep-going".toList]).ending = .returned 1 ∧
      ∃ args settings sources visits,
        Prepares twoSources ["--keep-going".toList] args settings sources ∧
        Accounts args settings twoSources sources visits
          (run twoSources ["--keep-going".toList]) 1 := by
  have hending : (run twoSources ["--keep-going".toList]).ending = .returned 1 := by
    decide +kernel
  exact ⟨hending, (run_effects hending).2 (by decide)⟩

end Offside.Batch
