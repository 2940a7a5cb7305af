import Offside.Proofs.Naming
import Offside.Proofs.Storage

/-!
# What the settings are

The settings of a run are worked out step by step, and every step may fail. Here is said once what
the steps come to if none of them does (`resolve_eq_ok_iff`). Callers take from there what they
need: suffixes are a dot and something more (`isSuffix_of_resolve`), and there is no output path if
the input is a directory (`output_eq_none_of_resolve`).
-/

namespace Offside

theorem mapError_eq_ok_iff {ε ε' α : Type} {f : ε → ε'} {x : Except ε α} {a : α} :
    x.mapError f = .ok a ↔ x = .ok a := by
  cases x <;> simp [Except.mapError]

namespace Settings

variable {fs : FileSystem} {args : Arguments} {settings : Settings}

theorem ask_eq_ok_iff {α : Type} {path : Path} {answer : Except Refusal α} {a : α} :
    ask path answer = .ok a ↔ answer = .ok a := by
  rw [ask, mapError_eq_ok_iff]
  cases answer <;> simp [FileSystem.about]

/-! ### The configuration file -/

/-- The directory of the input: the input itself if it is one, and otherwise what it is in. -/
def inputDirectory (fs : FileSystem) (input : Path) : Path :=
  if fs.isDirectory input = .ok true then input else input.parent

/-- Where the configuration file is looked for. -/
def configPath (fs : FileSystem) (args : Arguments) : Path :=
  (pathOf args.config).getD ((inputDirectory fs (Path.ofText args.input)).child configName)

/-- The suffixes that a configuration sets. -/
structure SetsSuffixes (config : Toml.Table) (source output : Text) : Prop where
  source_eq : suffixFor (compileSection config) "source_suffix".toList defaultSourceSuffix =
    .ok source
  output_eq : suffixFor (compileSection config) "output_suffix".toList defaultOutputSuffix =
    .ok output

/-- Whether a configuration asks to go on after a failure. -/
def goesOn (config : Toml.Table) : Bool :=
  ((compileSection config).get? "keep_going".toList).any (·.isTrue)

theorem inputDirectory_eq {input : Path} {isDirectory : Bool}
    (h : fs.isDirectory input = .ok isDirectory) :
    inputDirectory fs input = if isDirectory then input else input.parent := by
  rw [inputDirectory, h]
  cases isDirectory <;> rfl

/-- Settings are worked out if and only if no step fails, and these are they. -/
theorem resolve_eq_ok_iff :
    resolve fs args = .ok settings ↔
      ∃ isDirectory config source output,
        fs.isDirectory (Path.ofText args.input) = .ok isDirectory ∧
        loadConfig fs (configPath fs args) = .ok config ∧ SetsSuffixes config source output ∧
        (isDirectory = true → pathOf args.output = none) ∧
        settings = ⟨Path.ofText args.input, pathOf args.output, source, output,
          args.keepGoing || goesOn config, args.check, args.debug⟩ := by
  constructor
  · intro h
    obtain ⟨isDirectory, hdirectory, h⟩ := exists_of_bind_eq_ok h
    rw [ask_eq_ok_iff] at hdirectory
    obtain ⟨config, hconfig, h⟩ := exists_of_bind_eq_ok h
    obtain ⟨source, hsource, h⟩ := exists_of_bind_eq_ok h
    obtain ⟨output, houtput, h⟩ := exists_of_bind_eq_ok h
    rw [← inputDirectory_eq hdirectory] at hconfig
    refine ⟨isDirectory, config, source, output, hdirectory, hconfig, ⟨hsource, houtput⟩, ?_⟩
    dsimp only at h
    split at h
    · exact nomatch h
    · rename_i hneeds
      refine ⟨fun htrue => ?_, (Except.ok.inj h).symm⟩
      simpa [htrue] using hneeds
  · rintro ⟨isDirectory, config, source, output, hdirectory, hconfig, hsuffixes, hneeds, rfl⟩
    rw [configPath, inputDirectory_eq hdirectory] at hconfig
    rw [resolve, ask_eq_ok_iff.mpr hdirectory]
    dsimp only [bind, Except.bind]
    rw [hconfig]
    dsimp only
    rw [hsuffixes.source_eq]
    dsimp only
    rw [hsuffixes.output_eq]
    dsimp only
    rw [if_neg]
    · rfl
    · cases isDirectory <;> simp_all

theorem output_eq_none_of_resolve (h : resolve fs args = .ok settings)
    (hdirectory : fs.isDirectory settings.input = .ok true) : settings.output = none := by
  obtain ⟨isDirectory, _, _, _, hasked, -, -, hneeds, rfl⟩ := resolve_eq_ok_iff.mp h
  exact hneeds (Except.ok.inj (hasked.symm.trans hdirectory))

/-! ### Suffixes -/

theorem isSuffix_of_suffixFor {entries : Toml.Table} {key default s : Text}
    (hdefault : Path.IsSuffix default) (h : suffixFor entries key default = .ok s) :
    Path.IsSuffix s := by
  rw [suffixFor] at h
  split at h
  · exact Except.ok.inj h ▸ hdefault
  · dsimp only at h
    split_ifs at h with hfits hsuffix
    exact Except.ok.inj h ▸ ⟨hsuffix.1, hsuffix.2⟩

theorem isSuffix_defaultSourceSuffix : Path.IsSuffix defaultSourceSuffix := ⟨rfl, by decide⟩

theorem isSuffix_defaultOutputSuffix : Path.IsSuffix defaultOutputSuffix := ⟨rfl, by decide⟩

theorem isSuffix_of_resolve (h : resolve fs args = .ok settings) :
    Path.IsSuffix settings.sourceSuffix ∧ Path.IsSuffix settings.outputSuffix := by
  obtain ⟨_, _, _, _, -, -, hsuffixes, -, rfl⟩ := resolve_eq_ok_iff.mp h
  exact ⟨isSuffix_of_suffixFor isSuffix_defaultSourceSuffix hsuffixes.source_eq,
    isSuffix_of_suffixFor isSuffix_defaultOutputSuffix hsuffixes.output_eq⟩

end Settings

end Offside
