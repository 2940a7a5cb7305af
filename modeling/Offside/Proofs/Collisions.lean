import Offside.Proofs.Discovery

/-!
# Where results go

The result of a source goes next to it, under a name with another suffix. A run over a directory
would lose a file if two sources had one place for their results, or if that place were taken by
a source.

Both can happen, and it is a matter of names. Two sources share the place of their results if and
only if they are in one directory, one of them is named like the suffix and the other one like the
suffix twice. The place of a result has the name of a source depending on the two suffixes alone,
and then whatever is there is a source. With two suffixes of one dot each this does not happen
(`outputs_collide_iff`).
-/

namespace Offside

namespace Path

variable {p q : Path} {name other : Text}

theorem child_inj : p.child name = q.child other ↔ p = q ∧ name = other := by
  constructor
  · intro h
    have hparent := congrArg Path.parent h
    have hname := congrArg Path.name h
    rw [parent_child, parent_child] at hparent
    rw [name_child, name_child] at hname
    exact ⟨hparent, hname⟩
  · rintro ⟨rfl, rfl⟩
    rfl

theorem child_parent (h : p.names ≠ []) : p.parent.child p.name = p := by
  rw [parent, child, Path.name, List.getLast?_eq_some_getLast h, Option.getD_some,
    List.dropLast_concat_getLast h]

end Path

namespace Settings

open FileSystem

variable {fs : FileSystem} {args : Arguments} {settings : Settings} {paths : List Path} {p q : Path}

theorem outputPath_eq (houtput : settings.output = none) (hslash : '/' ∉ settings.outputSuffix)
    (p : Path) :
    settings.outputPath p =
      .ok (p.parent.child (Path.renamed settings.outputSuffix p.name)) := by
  rw [outputPath, houtput]
  dsimp only
  rw [Path.withSuffix?_eq_some p hslash]

theorem names_ne_nil_of_leads {dir : Path} {entry : Entry} (h : fs.Leads dir p entry) :
    p.names ≠ [] := by
  obtain ⟨l, names, -, hmem, rfl⟩ := h
  simp [Path.join, (mem_below_iff.mp hmem).1]

/-- Which sources share the place of their results, and which results go where a source is. -/
theorem outputs_collide_iff (htree : fs.IsTree) (hresolve : resolve fs args = .ok settings)
    (hdir : fs.isDirectory settings.input = .ok true)
    (hne : settings.sourceSuffix ≠ settings.outputSuffix)
    (hsource : SearchPattern.Plain settings.sourceSuffix)
    (houtput : SearchPattern.Plain settings.outputSuffix)
    (hpaths : settings.sources fs = .ok paths) :
    (∀ p ∈ paths, ∃ q, settings.outputPath p = .ok q) ∧
    (∀ p ∈ paths, ∀ q ∈ paths, p ≠ q →
      (settings.outputPath p = settings.outputPath q ↔
        p.parent = q.parent ∧ Path.HasOneDot settings.sourceSuffix ∧
          (p.name = settings.sourceSuffix ∧
              q.name = settings.sourceSuffix ++ settings.sourceSuffix ∨
            q.name = settings.sourceSuffix ∧
              p.name = settings.sourceSuffix ++ settings.sourceSuffix))) ∧
    (∀ p ∈ paths, ∀ q, settings.outputPath p = .ok q →
      (q ∈ paths ↔
        settings.sourceSuffix <:+ Path.renewed settings.sourceSuffix settings.outputSuffix ∧
          ∃ entry, fs.Leads settings.input q entry)) ∧
    (Path.HasOneDot settings.sourceSuffix → Path.HasOneDot settings.outputSuffix →
      ¬settings.sourceSuffix <:+ Path.renewed settings.sourceSuffix settings.outputSuffix) := by
  obtain ⟨hsuffix, hsuffix'⟩ := isSuffix_of_resolve hresolve
  have hpath := outputPath_eq (output_eq_none_of_resolve hresolve hdir) houtput.unbroken
  rw [isDirectory_eq_ok_true_iff] at hdir
  rw [sources_of_plain hdir hsuffix hsource, mapError_eq_ok_iff] at hpaths
  have hmem : ∀ p, p ∈ paths ↔
      ∃ entry, fs.Leads settings.input p entry ∧ settings.sourceSuffix <:+ p.name :=
    fun p => htree.mem_of_search_ending hdir hpaths
  refine ⟨fun p _ => ⟨_, hpath p⟩, fun p hp q hq hpq => ?_, fun p hp q hq => ?_,
    fun hdot hdot' => Path.not_isSuffix_renewed hsuffix hsuffix' hdot hdot' hne⟩
  · obtain ⟨_, hleads, hname⟩ := (hmem p).mp hp
    obtain ⟨_, hleads', hname'⟩ := (hmem q).mp hq
    rw [hpath, hpath, Except.ok.injEq, Path.child_inj]
    refine and_congr_right fun hparent => Path.renamed_eq_renamed_iff hsuffix hname hname' ?_
    -- in one directory, two sources have two names
    intro heq
    apply hpq
    rw [← Path.child_parent (names_ne_nil_of_leads hleads), hparent, heq,
      Path.child_parent (names_ne_nil_of_leads hleads')]
  · obtain ⟨_, -, hname⟩ := (hmem p).mp hp
    obtain rfl : p.parent.child (Path.renamed settings.outputSuffix p.name) = q :=
      Except.ok.inj ((hpath p).symm.trans hq)
    rw [hmem, Path.name_child, exists_and_right, Path.isSuffix_renamed_iff hsuffix hsuffix' hname,
      and_comm]

/-- Two sources, of which one is named like the suffix and the other one like the suffix twice. -/
def twiceSuffixed : FileSystem where
  entries := [([".wlisp".toList], .file []), ([".wlisp.wlisp".toList], .file [])]
  workingDirectory := []

theorem isTree_twiceSuffixed : twiceSuffixed.IsTree where
  distinct := by decide +kernel
  inDirectory := by decide +kernel
  named := by decide +kernel

theorem plain_defaultOutputSuffix : SearchPattern.Plain defaultOutputSuffix :=
  ⟨by decide, by decide⟩

theorem outputs_collide_iff_twiceSuffixed :
    twiceSuffixed.IsTree ∧ resolve twiceSuffixed .default = .ok defaultSettings ∧
      twiceSuffixed.isDirectory defaultSettings.input = .ok true ∧
      defaultSettings.sourceSuffix ≠ defaultSettings.outputSuffix ∧
      SearchPattern.Plain defaultSettings.sourceSuffix ∧
      SearchPattern.Plain defaultSettings.outputSuffix ∧
      defaultSettings.sources twiceSuffixed =
        .ok [Path.ofText ".wlisp".toList, Path.ofText ".wlisp.wlisp".toList] ∧
      defaultSettings.outputPath (Path.ofText ".wlisp".toList) =
        defaultSettings.outputPath (Path.ofText ".wlisp.wlisp".toList) := by
  have hresolve : resolve twiceSuffixed .default = .ok defaultSettings := by decide +kernel
  have hdir : twiceSuffixed.isDirectory defaultSettings.input = .ok true := by decide +kernel
  have hne : defaultSettings.sourceSuffix ≠ defaultSettings.outputSuffix := by decide
  have hpaths : defaultSettings.sources twiceSuffixed =
      .ok [Path.ofText ".wlisp".toList, Path.ofText ".wlisp.wlisp".toList] := by decide +kernel
  refine ⟨isTree_twiceSuffixed, hresolve, hdir, hne, plain_defaultSourceSuffix,
    plain_defaultOutputSuffix, hpaths, ?_⟩
  exact ((outputs_collide_iff isTree_twiceSuffixed hresolve hdir hne plain_defaultSourceSuffix
    plain_defaultOutputSuffix hpaths).2.1 _ (by decide) _ (by decide) (by decide)).mpr
      (by decide)

/-- Two sources, of which one has the name that the result of the other one gets, and a
configuration that sets the suffixes. -/
def innerSuffixed : FileSystem where
  entries := [(["x.a".toList], .file []), (["x.b.a".toList], .file []), ([configName],
    .file (Utf8.encode "[compile]\nsource_suffix = '.a'\noutput_suffix = '.b.a'".toList))]
  workingDirectory := []

/-- The settings for it. -/
def innerSettings : Settings :=
  { defaultSettings with sourceSuffix := ".a".toList, outputSuffix := ".b.a".toList }

/-- Two sources have one place for their results; and a result goes where a source is. -/
theorem outputs_collide :
    (resolve twiceSuffixed .default = .ok defaultSettings ∧
      ∃ paths, defaultSettings.sources twiceSuffixed = .ok paths ∧
        ∃ p ∈ paths, ∃ q ∈ paths, p ≠ q ∧
          defaultSettings.outputPath p = defaultSettings.outputPath q) ∧
    (resolve innerSuffixed .default = .ok innerSettings ∧
      ∃ paths, innerSettings.sources innerSuffixed = .ok paths ∧
        ∃ p ∈ paths, ∃ q ∈ paths, innerSettings.outputPath p = .ok q) := by
  constructor
  · refine ⟨by decide +kernel, [Path.ofText ".wlisp".toList, Path.ofText ".wlisp.wlisp".toList],
      by decide +kernel, Path.ofText ".wlisp".toList, by decide,
      Path.ofText ".wlisp.wlisp".toList, by decide, by decide, by decide +kernel⟩
  · refine ⟨by decide +kernel, [Path.ofText "x.a".toList, Path.ofText "x.b.a".toList],
      by decide +kernel, Path.ofText "x.a".toList, by decide, Path.ofText "x.b.a".toList,
      by decide, by decide +kernel⟩

end Settings

end Offside
