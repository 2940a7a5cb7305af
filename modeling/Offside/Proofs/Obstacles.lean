import Offside.Proofs.Discovery

/-!
# What stands in the way of a run

Before the first source is compiled the settings are worked out and the sources are looked for.
Every step of this can fail, and each function here has its list of the ways it does: the
configuration file (`BadConfig`), a suffix in it (`BadSuffix`), the input (`BadInput`). Together
they are the obstacles of a run (`Obstacle`), and there are no others: a run has its sources if and
only if it has no obstacle (`prepare_eq_error_iff`).
-/

namespace Offside

section Except

variable {ε ε' α β : Type} {x : Except ε α}

theorem bind_eq_error_iff {f : α → Except ε β} {e : ε} :
    (x >>= f) = .error e ↔ x = .error e ∨ ∃ a, x = .ok a ∧ f a = .error e := by
  cases x <;> simp [bind, Except.bind]

theorem mapError_eq_error_iff {f : ε → ε'} {e' : ε'} :
    x.mapError f = .error e' ↔ ∃ e, x = .error e ∧ f e = e' := by
  cases x <;> simp [Except.mapError]

end Except

namespace FileSystem

variable {fs : FileSystem} {p : Path}

/-- The path is too long to be followed, or a name on the way is. -/
def IsTooLong (fs : FileSystem) (p : Path) : Prop := fs.find p = .error .nameTooLong

/-- Asking about a path is refused only if it is too long. -/
theorem holds_eq_error_iff {q : Entry → Bool} {refusal : Refusal} :
    holds q (fs.find p) = .error refusal ↔ fs.IsTooLong p ∧ refusal = .nameTooLong := by
  rw [IsTooLong]
  cases fs.find p with
  | error refusal => cases refusal <;> simp [holds, eq_comm]
  | ok entry => simp [holds]

theorem about_eq_error_iff {α : Type} {answer : Except Refusal α} {e : PathRefusal} :
    about p answer = .error e ↔ ∃ refusal, answer = .error refusal ∧ e = ⟨p, refusal⟩ := by
  cases answer <;> simp [about, eq_comm]

theorem read_of_find {bytes : List UInt8} (h : fs.find p = .ok (.file bytes)) :
    fs.read p = .ok bytes := by
  rw [read, h]
  rfl

theorem exists_isDirectory_iff : (∃ answer, fs.isDirectory p = .ok answer) ↔ ¬fs.IsTooLong p := by
  rw [isDirectory, IsTooLong]
  cases fs.find p with
  | error refusal => cases refusal <;> simp [holds]
  | ok entry => simp [holds]

end FileSystem

namespace Settings

open FileSystem

variable {fs : FileSystem} {args : Arguments} {settings : Settings} {path : Path}
  {failure : Failure}

theorem ask_eq_error_iff {q : Entry → Bool} :
    ask path (holds q (fs.find path)) = .error failure ↔
      fs.IsTooLong path ∧ failure = .path ⟨path, .nameTooLong⟩ := by
  rw [ask, mapError_eq_error_iff]
  constructor
  · rintro ⟨refusal, hrefusal, rfl⟩
    obtain ⟨reason, hreason, rfl⟩ := about_eq_error_iff.mp hrefusal
    obtain ⟨hlong, rfl⟩ := holds_eq_error_iff.mp hreason
    exact ⟨hlong, rfl⟩
  · rintro ⟨hlong, rfl⟩
    exact ⟨_, about_eq_error_iff.mpr ⟨_, holds_eq_error_iff.mpr ⟨hlong, rfl⟩, rfl⟩, rfl⟩

/-! ### The configuration -/

/-- The configuration file is of no use: its path is too long, it is not UTF-8, or it cannot be
read. -/
inductive BadConfig (fs : FileSystem) (path : Path) : Failure → Prop
  | tooLong (tooLong : fs.IsTooLong path) : BadConfig fs path (.path ⟨path, .nameTooLong⟩)
  | undecodable {bytes : List UInt8} {malformed : Utf8.Malformed}
      (find_eq : fs.find path = .ok (.file bytes))
      (decode_eq : Utf8.decode bytes = .error malformed) : BadConfig fs path (.encoding malformed)
  | unreadable {bytes : List UInt8} {text : Text} {fault : Toml.Unreadable}
      (find_eq : fs.find path = .ok (.file bytes)) (decode_eq : Utf8.decode bytes = .ok text)
      (parse_eq : Toml.parse text = .error fault) : BadConfig fs path (.config fault)

theorem loadConfig_of_find {bytes : List UInt8} (h : fs.find path = .ok (.file bytes)) :
    loadConfig fs path =
      (Utf8.decode bytes).mapError .encoding >>= fun text =>
        (Toml.parse text).mapError .config := by
  rw [loadConfig, isFile_of_find h, read_of_find h]
  rfl

theorem loadConfig_eq_error_iff :
    loadConfig fs path = .error failure ↔ BadConfig fs path failure := by
  constructor
  · intro h
    rcases bind_eq_error_iff.mp h with hasked | ⟨isFile, hisFile, hrest⟩
    · obtain ⟨hlong, rfl⟩ := ask_eq_error_iff.mp hasked
      exact .tooLong hlong
    · cases isFile with
      | false => exact nomatch hrest
      | true =>
        obtain ⟨bytes, hfind⟩ := isFile_eq_ok_true_iff.mp (ask_eq_ok_iff.mp hisFile)
        rw [loadConfig_of_find hfind, bind_eq_error_iff] at h
        rcases h with hdecode | ⟨text, hdecode, hparse⟩
        · obtain ⟨malformed, hmalformed, rfl⟩ := mapError_eq_error_iff.mp hdecode
          exact .undecodable hfind hmalformed
        · obtain ⟨fault, hfault, rfl⟩ := mapError_eq_error_iff.mp hparse
          exact .unreadable hfind (mapError_eq_ok_iff.mp hdecode) hfault
  · intro h
    cases h with
    | tooLong hlong => exact bind_eq_error_iff.mpr (.inl (ask_eq_error_iff.mpr ⟨hlong, rfl⟩))
    | undecodable hfind hdecode =>
      rw [loadConfig_of_find hfind, hdecode]
      rfl
    | unreadable hfind hdecode hparse =>
      rw [loadConfig_of_find hfind, hdecode]
      exact mapError_eq_error_iff.mpr ⟨_, hparse, rfl⟩

/-- The configuration sets a key to what is no suffix. A number that is too long to be written out
is one of these cases, and it has a failure of its own. -/
inductive BadSuffix (config : Toml.Table) (key : Text) : Failure → Prop
  | longNumber {value : Toml.Value} (get_eq : (compileSection config).get? key = some value)
      (long : value.fits Toml.maxDigits = false) : BadSuffix config key .longNumber
  | invalid {value : Toml.Value} (get_eq : (compileSection config).get? key = some value)
      (fits : value.fits Toml.maxDigits = true) (invalid : ¬Path.IsSuffix value.toText) :
      BadSuffix config key (.usage (.invalidSuffix key value.toText))

theorem suffixFor_eq_error_iff {config : Toml.Table} {key default : Text} :
    suffixFor (compileSection config) key default = .error failure ↔
      BadSuffix config key failure := by
  constructor
  · intro h
    rw [suffixFor] at h
    split at h
    · contradiction
    · rename_i value hvalue
      dsimp only at h
      split_ifs at h with hlong hsuffix
      · obtain rfl := Except.error.inj h
        exact .longNumber hvalue (by simpa using hlong)
      · obtain rfl := Except.error.inj h
        exact .invalid hvalue (by simpa using hlong) fun hs => hsuffix ⟨hs.dotted, hs.proper⟩
  · intro h
    cases h with
    | longNumber hvalue hlong => simp [suffixFor, hvalue, hlong]
    | invalid hvalue hfits hinvalid =>
      rw [suffixFor, hvalue]
      dsimp only
      rw [if_neg (by simp [hfits]), if_neg fun h => hinvalid ⟨h.1, h.2⟩]

/-! ### The input -/

/-- There are no sources: the input is not one itself, or it is a directory that cannot be
searched, or there is nothing. -/
inductive BadInput (settings : Settings) (fs : FileSystem) : Failure → Prop
  | tooLong (tooLong : fs.IsTooLong settings.input) :
      BadInput settings fs (.path ⟨settings.input, .nameTooLong⟩)
  | notFound {refusal : Refusal} (find_eq : fs.find settings.input = .error refusal)
      (short : refusal ≠ .nameTooLong) : BadInput settings fs (.usage (.notFound settings.input))
  | wrongExtension {bytes : List UInt8} (find_eq : fs.find settings.input = .ok (.file bytes))
      (suffix_ne : settings.input.suffix ≠ settings.sourceSuffix) :
      BadInput settings fs (.usage (.wrongExtension settings.input))
  | doubleStar (find_eq : fs.find settings.input = .ok .directory)
      (pattern_eq : SearchPattern.ofText? ('*' :: settings.sourceSuffix) = none) :
      BadInput settings fs .doubleStar
  | unsearchable {pattern : SearchPattern} {refusal : PathRefusal}
      (find_eq : fs.find settings.input = .ok .directory)
      (pattern_eq : SearchPattern.ofText? ('*' :: settings.sourceSuffix) = some pattern)
      (search_eq : fs.search settings.input pattern = .error refusal) :
      BadInput settings fs (.path refusal)

theorem sources_eq_error_iff :
    settings.sources fs = .error failure ↔ BadInput settings fs failure := by
  constructor
  · intro h
    cases hfind : fs.find settings.input with
    | error refusal =>
      rw [sources_of_error hfind] at h
      split_ifs at h with hlong
      · subst hlong
        exact Except.error.inj h ▸ .tooLong hfind
      · exact Except.error.inj h ▸ .notFound hfind hlong
    | ok entry =>
      cases entry with
      | file bytes =>
        rw [sources_of_file hfind] at h
        split_ifs at h with hsuffix
        exact Except.error.inj h ▸ .wrongExtension hfind hsuffix
      | directory =>
        rw [sources_of_directory hfind] at h
        split at h
        · rename_i pattern hpattern
          obtain ⟨refusal, hsearch, rfl⟩ := mapError_eq_error_iff.mp h
          exact .unsearchable hfind hpattern hsearch
        · rename_i hpattern
          exact Except.error.inj h ▸ .doubleStar hfind hpattern
  · intro h
    cases h with
    | tooLong hlong => rw [sources_of_error hlong, if_pos rfl]
    | notFound hfind hshort => rw [sources_of_error hfind, if_neg hshort]
    | wrongExtension hfind hsuffix => rw [sources_of_file hfind, if_neg hsuffix]
    | doubleStar hfind hpattern => rw [sources_of_directory hfind, hpattern]
    | unsearchable hfind hpattern hsearch =>
      rw [sources_of_directory hfind, hpattern]
      exact mapError_eq_error_iff.mpr ⟨_, hsearch, rfl⟩

/-! ### All obstacles -/

/-- What keeps a run from its first source. Every step has to wait for those before it, so there is
at most one obstacle. -/
inductive Obstacle (fs : FileSystem) (args : Arguments) : Failure → Prop
  | input (tooLong : fs.IsTooLong (Path.ofText args.input)) :
      Obstacle fs args (.path ⟨Path.ofText args.input, .nameTooLong⟩)
  | config {failure : Failure} (asked : ¬fs.IsTooLong (Path.ofText args.input))
      (bad : BadConfig fs (configPath fs args) failure) : Obstacle fs args failure
  | sourceSuffix {failure : Failure} {config : Toml.Table}
      (asked : ¬fs.IsTooLong (Path.ofText args.input))
      (loaded : loadConfig fs (configPath fs args) = .ok config)
      (bad : BadSuffix config "source_suffix".toList failure) : Obstacle fs args failure
  | outputSuffix {failure : Failure} {config : Toml.Table} {source : Text}
      (asked : ¬fs.IsTooLong (Path.ofText args.input))
      (loaded : loadConfig fs (configPath fs args) = .ok config)
      (source_eq : suffixFor (compileSection config) "source_suffix".toList defaultSourceSuffix =
        .ok source)
      (bad : BadSuffix config "output_suffix".toList failure) : Obstacle fs args failure
  | output {config : Toml.Table} {source output : Text}
      (directory : fs.isDirectory (Path.ofText args.input) = .ok true)
      (loaded : loadConfig fs (configPath fs args) = .ok config)
      (suffixes : SetsSuffixes config source output) (given : pathOf args.output ≠ none) :
      Obstacle fs args (.usage .outputNeedsFile)
  | sources {failure : Failure} {settings : Settings} (resolved : resolve fs args = .ok settings)
      (bad : BadInput settings fs failure) : Obstacle fs args failure

theorem obstacle_of_resolve (h : resolve fs args = .error failure) : Obstacle fs args failure := by
  rcases bind_eq_error_iff.mp h with hasked | ⟨isDirectory, hdirectory, h⟩
  · obtain ⟨hlong, rfl⟩ := ask_eq_error_iff.mp hasked
    exact .input hlong
  rw [ask_eq_ok_iff] at hdirectory
  have hshort := exists_isDirectory_iff.mp ⟨isDirectory, hdirectory⟩
  dsimp only at h
  rw [← inputDirectory_eq hdirectory] at h
  rcases bind_eq_error_iff.mp h with hconfig | ⟨config, hconfig, h⟩
  · exact .config hshort (loadConfig_eq_error_iff.mp hconfig)
  rcases bind_eq_error_iff.mp h with hsource | ⟨source, hsource, h⟩
  · exact .sourceSuffix hshort hconfig (suffixFor_eq_error_iff.mp hsource)
  rcases bind_eq_error_iff.mp h with houtput | ⟨output, houtput, h⟩
  · exact .outputSuffix hshort hconfig hsource (suffixFor_eq_error_iff.mp houtput)
  split at h
  · rename_i hneeds
    obtain rfl := Except.error.inj h
    obtain ⟨hgiven, rfl⟩ := Bool.and_eq_true_iff.mp hneeds
    exact .output hdirectory hconfig ⟨hsource, houtput⟩ (Option.isSome_iff_ne_none.mp hgiven)
  · exact nomatch h

theorem resolve_eq_error_of_input (h : fs.IsTooLong (Path.ofText args.input)) :
    resolve fs args = .error (.path ⟨Path.ofText args.input, .nameTooLong⟩) :=
  bind_eq_error_iff.mpr (.inl (ask_eq_error_iff.mpr ⟨h, rfl⟩))

theorem resolve_eq_error_of_config (hshort : ¬fs.IsTooLong (Path.ofText args.input))
    (h : loadConfig fs (configPath fs args) = .error failure) :
    resolve fs args = .error failure := by
  obtain ⟨isDirectory, hdirectory⟩ := exists_isDirectory_iff.mpr hshort
  rw [configPath, inputDirectory_eq hdirectory] at h
  exact bind_eq_error_iff.mpr
    (.inr ⟨isDirectory, ask_eq_ok_iff.mpr hdirectory, bind_eq_error_iff.mpr (.inl h)⟩)

theorem resolve_eq_error_of_suffixFor {config : Toml.Table}
    (hshort : ¬fs.IsTooLong (Path.ofText args.input))
    (hconfig : loadConfig fs (configPath fs args) = .ok config)
    (h : suffixFor (compileSection config) "source_suffix".toList defaultSourceSuffix =
        .error failure ∨
      ∃ source, suffixFor (compileSection config) "source_suffix".toList defaultSourceSuffix =
          .ok source ∧
        suffixFor (compileSection config) "output_suffix".toList defaultOutputSuffix =
          .error failure) :
    resolve fs args = .error failure := by
  -- which answer it was does not matter, it only says where the configuration file is
  obtain ⟨isDirectory, hdirectory⟩ := exists_isDirectory_iff.mpr hshort
  rw [configPath, inputDirectory_eq hdirectory] at hconfig
  refine bind_eq_error_iff.mpr (.inr ⟨isDirectory, ask_eq_ok_iff.mpr hdirectory,
    bind_eq_error_iff.mpr (.inr ⟨config, hconfig, bind_eq_error_iff.mpr ?_⟩)⟩)
  refine h.imp_right ?_
  rintro ⟨source, hsource, houtput⟩
  exact ⟨source, hsource, bind_eq_error_iff.mpr (.inl houtput)⟩

theorem resolve_eq_error_of_output {config : Toml.Table} {source output : Text}
    (hdirectory : fs.isDirectory (Path.ofText args.input) = .ok true)
    (hconfig : loadConfig fs (configPath fs args) = .ok config)
    (hsuffixes : SetsSuffixes config source output) (hgiven : pathOf args.output ≠ none) :
    resolve fs args = .error (.usage .outputNeedsFile) := by
  rw [configPath, inputDirectory_eq hdirectory] at hconfig
  refine bind_eq_error_iff.mpr (.inr ⟨true, ask_eq_ok_iff.mpr hdirectory,
    bind_eq_error_iff.mpr (.inr ⟨config, hconfig, bind_eq_error_iff.mpr (.inr
      ⟨source, hsuffixes.source_eq, bind_eq_error_iff.mpr (.inr
        ⟨output, hsuffixes.output_eq, ?_⟩)⟩)⟩)⟩)
  rw [if_pos (by simpa [Option.isSome_iff_ne_none] using hgiven)]
  rfl

/-- A run has its sources unless there is an obstacle. -/
theorem prepare_eq_error_iff :
    (resolve fs args >>= fun settings => settings.sources fs >>= fun sources =>
      pure (settings, sources)) = .error failure ↔ Obstacle fs args failure := by
  rw [bind_eq_error_iff]
  constructor
  · rintro (hresolve | ⟨settings, hresolve, h⟩)
    · exact obstacle_of_resolve hresolve
    · rcases bind_eq_error_iff.mp h with hsources | ⟨sources, -, hpure⟩
      · exact .sources hresolve (sources_eq_error_iff.mp hsources)
      · exact nomatch hpure
  · intro h
    cases h with
    | input hlong => exact .inl (resolve_eq_error_of_input hlong)
    | config hshort hbad =>
      exact .inl (resolve_eq_error_of_config hshort (loadConfig_eq_error_iff.mpr hbad))
    | sourceSuffix hshort hconfig hbad =>
      exact .inl (resolve_eq_error_of_suffixFor hshort hconfig
        (.inl (suffixFor_eq_error_iff.mpr hbad)))
    | outputSuffix hshort hconfig hsource hbad =>
      exact .inl (resolve_eq_error_of_suffixFor hshort hconfig
        (.inr ⟨_, hsource, suffixFor_eq_error_iff.mpr hbad⟩))
    | output hdirectory hconfig hsuffixes hgiven =>
      exact .inl (resolve_eq_error_of_output hdirectory hconfig hsuffixes hgiven)
    | sources hresolve hbad =>
      exact .inr ⟨_, hresolve, bind_eq_error_iff.mpr (.inl (sources_eq_error_iff.mpr hbad))⟩

end Settings

end Offside
