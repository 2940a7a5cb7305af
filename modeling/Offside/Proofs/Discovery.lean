import Mathlib.Data.Char
import Mathlib.Data.List.Induction
import Mathlib.Data.List.Lex
import Offside.Proofs.Resolution

/-!
# Which files are sources

A run is given a file, or a directory that is searched for files. A search goes through all
directories below and takes the entries whose names end with the suffix of sources. For a suffix
without wildcards and slashes it is worked out here step by step (`search_ending`): it gives a
result if every directory can be listed (`exists_search_ending_iff`), the result are the entries
with the suffix (`mem_of_search_ending`), and there is none twice (`nodup_of_search_ending`).

In a tree every entry can be reached by the names that lead to it (`IsTree.locate_join`), so the
answers can be given in terms of entries. A single file is accepted if its name has the suffix from
the last dot on. That is not the same as ending with it, and a search does not ask whether there is
a file. `sources_agree_iff` says when the two come to the same.
-/

namespace Offside

section MapM

variable {ε α β : Type} {f : α → Except ε β} {a : α} {as : List α} {b : β} {bs : List β}

theorem mapM_cons_eq_ok_iff :
    (a :: as).mapM f = .ok bs ↔ ∃ b bs', f a = .ok b ∧ as.mapM f = .ok bs' ∧ bs = b :: bs' := by
  rw [List.mapM_cons]
  constructor
  · intro h
    obtain ⟨b, hb, h⟩ := exists_of_bind_eq_ok h
    obtain ⟨bs', hbs, h⟩ := exists_of_bind_eq_ok h
    exact ⟨b, bs', hb, hbs, (Except.ok.inj h).symm⟩
  · rintro ⟨b, bs', hb, hbs, rfl⟩
    rw [hb, hbs]
    rfl

theorem exists_mapM_eq_ok_iff : (∃ bs, as.mapM f = .ok bs) ↔ ∀ a ∈ as, ∃ b, f a = .ok b := by
  induction as with
  | nil => exact iff_of_true ⟨[], rfl⟩ fun _ h => absurd h List.not_mem_nil
  | cons a as ih =>
    simp only [mapM_cons_eq_ok_iff, List.forall_mem_cons, ← ih]
    constructor
    · rintro ⟨_, b, bs, hb, hbs, -⟩
      exact ⟨⟨b, hb⟩, bs, hbs⟩
    · rintro ⟨⟨b, hb⟩, bs, hbs⟩
      exact ⟨_, b, bs, hb, hbs, rfl⟩

theorem mem_of_mapM_eq_ok (h : as.mapM f = .ok bs) : b ∈ bs ↔ ∃ a ∈ as, f a = .ok b := by
  induction as generalizing bs with
  | nil =>
    obtain rfl := Except.ok.inj h
    simp
  | cons a as ih =>
    obtain ⟨b', bs', hb', hbs', rfl⟩ := mapM_cons_eq_ok_iff.mp h
    rw [List.mem_cons, ih hbs', List.exists_mem_cons_iff, hb', Except.ok.injEq, eq_comm]

end MapM

/-! ### Paths -/

namespace Path

/-- The path of what the names lead to from a directory. -/
def join (p : Path) (names : List Text) : Path := { p with names := p.names ++ names }

variable {p q : Path} {name : Text} {names : List Text}

theorem join_nil : p.join [] = p := by
  rw [join, List.append_nil]

theorem child_join : (p.join names).child name = p.join (names ++ [name]) := by
  rw [join, child, join, List.append_assoc]

theorem name_child : (p.child name).name = name := by
  simp [child, Path.name]

theorem parent_child : (p.child name).parent = p := by
  simp [child, parent]

theorem join_inj {names' : List Text} : p.join names = p.join names' ↔ names = names' := by
  simp [join]

theorem isBefore_eq : Text.isBefore = fun s t => decide (s < t) := by
  funext s t
  rw [Text.isBefore, List.lex_eq_decide_lex]
  simp

theorem le_iff : p.le q = true ↔ p.names ≤ q.names := by
  rw [le, isBefore_eq, List.lex_eq_decide_lex]
  simp

end Path

namespace FileSystem

variable {fs : FileSystem} {l : Location} {entry : Entry} {names : List Text} {p q dir : Path}
  {paths : List Path} {s : Text}

/-! ### The order of paths -/

theorem mem_insertPath : q ∈ insertPath p paths ↔ q = p ∨ q ∈ paths := by
  fun_induction insertPath p paths with
  | case1 => simp
  | case2 paths => simp
  | case3 r paths _ hle => simp
  | case4 r paths _ hle ih => simp [ih, or_left_comm]

theorem mem_inOrder : p ∈ inOrder paths ↔ p ∈ paths := by
  induction paths with
  | nil => rfl
  | cons q paths ih => rw [inOrder, List.foldr_cons, ← inOrder, mem_insertPath, ih, List.mem_cons]

theorem pairwise_insertPath (h : paths.Pairwise fun p q => p.names < q.names)
    (hroot : ∀ q ∈ paths, q.root = p.root) :
    (insertPath p paths).Pairwise fun p q => p.names < q.names := by
  fun_induction insertPath p paths with
  | case1 => simp
  | case2 paths => exact h
  | case3 q paths hne hle =>
    rw [Path.le_iff] at hle
    have hlt : p.names < q.names := by
      refine lt_of_le_of_ne hle fun hnames => hne ?_
      have := hroot q List.mem_cons_self
      cases p
      cases q
      simp_all
    refine List.pairwise_cons.mpr ⟨fun r hr => ?_, h⟩
    rcases List.mem_cons.mp hr with rfl | hr
    · exact hlt
    · exact hlt.trans (List.rel_of_pairwise_cons h hr)
  | case4 q paths hne hle ih =>
    rw [Path.le_iff, not_le] at hle
    refine List.pairwise_cons.mpr ⟨fun r hr => ?_, ih h.of_cons fun r hr => ?_⟩
    · rcases mem_insertPath.mp hr with rfl | hr
      · exact hle
      · exact List.rel_of_pairwise_cons h hr
    · exact hroot r (List.mem_cons_of_mem _ hr)

theorem pairwise_inOrder {root : Text} (h : ∀ p ∈ paths, p.root = root) :
    (inOrder paths).Pairwise fun p q => p.names < q.names := by
  induction paths with
  | nil => exact .nil
  | cons p paths ih =>
    rw [inOrder, List.foldr_cons, ← inOrder]
    refine pairwise_insertPath (ih fun q hq => h q (List.mem_cons_of_mem _ hq)) fun q hq => ?_
    rw [h q (List.mem_cons_of_mem _ (mem_inOrder.mp hq)), h p List.mem_cons_self]

/-! ### Searching for a suffix -/

theorem mem_below_iff :
    (names, entry) ∈ fs.below l ↔ names ≠ [] ∧ (l ++ names, entry) ∈ fs.entries := by
  rw [below, List.mem_filterMap]
  constructor
  · rintro ⟨⟨location, entry'⟩, hmem, h⟩
    split_ifs at h with hbelow
    rw [Bool.and_eq_true, List.isPrefixOf_iff_prefix, decide_eq_true_eq] at hbelow
    obtain ⟨⟨names', rfl⟩, hlength⟩ := hbelow
    simp only [List.drop_left, Option.some.injEq, Prod.mk.injEq] at h
    obtain ⟨rfl, rfl⟩ := h
    refine ⟨?_, hmem⟩
    rintro rfl
    simp at hlength
  · rintro ⟨hne, hmem⟩
    refine ⟨_, hmem, ?_⟩
    have hlength : 0 < names.length := List.length_pos_iff.mpr hne
    simp [hlength]

/-- The paths of those entries in a directory that have the suffix. -/
def matching (s : Text) (dir : Path) (found : List (List Text × Entry)) : List Path :=
  found.filterMap fun e =>
    match e.1 with
    | [name] => if s.isSuffixOf name then some (dir.child name) else none
    | _ => none

theorem mem_matching_iff {found : List (List Text × Entry)} :
    p ∈ matching s dir found ↔
      ∃ name entry, ([name], entry) ∈ found ∧ s <:+ name ∧ p = dir.child name := by
  rw [matching, List.mem_filterMap]
  constructor
  · rintro ⟨⟨names, entry⟩, hmem, h⟩
    dsimp only at h
    split at h
    · split_ifs at h with hsuffix
      exact ⟨_, entry, hmem, List.isSuffixOf_iff_suffix.mp hsuffix, (Option.some.inj h).symm⟩
    · exact nomatch h
  · rintro ⟨name, entry, hmem, hsuffix, rfl⟩
    exact ⟨_, hmem, if_pos (List.isSuffixOf_iff_suffix.mpr hsuffix)⟩

theorem contents_eq_ok_iff {found : List (List Text × Entry)} :
    fs.contents dir = .ok found ↔ ∃ l, fs.locate dir = .ok l ∧ found = fs.below l := by
  rw [contents]
  cases fs.locate dir with
  | error e => simp [about, bind, Except.bind]
  | ok l => simp [about, bind, Except.bind, pure, Except.pure, eq_comm]

theorem mapM_select_nil (fs : FileSystem) (paths : List Path) :
    (paths.mapM (fs.select false [])) = .ok (paths.map ([·])) := by
  have hselect : fs.select false [] = fun p => pure [p] := by
    funext p
    rfl
  rw [hselect, List.mapM_pure]
  rfl

theorem select_ending (fs : FileSystem) (dir : Path) (s : Text) :
    fs.select false (SearchPattern.ending s).parts dir =
      (fs.contents dir).map (matching s dir) := by
  rw [SearchPattern.ending, select]
  cases fs.contents dir with
  | error refusal => rfl
  | ok found =>
    dsimp only [bind, Except.bind, pure, Except.pure]
    rw [mapM_select_nil, Except.map, matching]
    dsimp only
    rw [← List.flatMap_def, List.flatMap_singleton']
    refine congrArg _ (List.filterMap_congr fun e _ => ?_)
    obtain ⟨names, entry⟩ := e
    rcases names with _ | ⟨name, _ | ⟨_, _⟩⟩
    · rfl
    · simp [NamePattern.matches?_star_iff]
    · rfl

/-- The directories that a search goes through: the one where it begins, and those below it. -/
def directories (dir : Path) (found : List (List Text × Entry)) : List Path :=
  dir :: (found.filter (·.2 == .directory)).map fun e => dir.join e.1

theorem search_ending (fs : FileSystem) (dir : Path) (s : Text) :
    fs.search dir (SearchPattern.ending s) = do
      let found ← fs.contents dir
      let paths ← (directories dir found).mapM fun d => (fs.contents d).map (matching s d)
      return inOrder paths.flatten := by
  have hselect : fs.select false (SearchPattern.ending s).parts = fun d =>
      (fs.contents d).map (matching s d) := funext fun d => select_ending fs d s
  rw [search, select, ← hselect]
  simp only [bind_assoc, pure_bind]
  rfl

theorem map_contents_eq_ok_iff {α : Type} {f : List (List Text × Entry) → α} {a : α} :
    (fs.contents dir).map f = .ok a ↔ ∃ l, fs.locate dir = .ok l ∧ f (fs.below l) = a := by
  rw [contents]
  cases fs.locate dir with
  | error e => simp [about, bind, Except.bind, Except.map]
  | ok l => simp [about, bind, Except.bind, pure, Except.pure, Except.map]

theorem search_ending_eq_ok_iff :
    fs.search dir (SearchPattern.ending s) = .ok paths ↔
      ∃ l groups, fs.locate dir = .ok l ∧
        ((directories dir (fs.below l)).mapM fun d => (fs.contents d).map (matching s d)) =
          .ok groups ∧
        inOrder groups.flatten = paths := by
  rw [search_ending]
  constructor
  · intro h
    obtain ⟨found, hfound, h⟩ := exists_of_bind_eq_ok h
    obtain ⟨l, hl, rfl⟩ := contents_eq_ok_iff.mp hfound
    obtain ⟨groups, hgroups, h⟩ := exists_of_bind_eq_ok h
    exact ⟨l, groups, hl, hgroups, Except.ok.inj h⟩
  · rintro ⟨l, groups, hl, hgroups, rfl⟩
    rw [contents_eq_ok_iff.mpr ⟨l, hl, rfl⟩]
    dsimp only [bind, Except.bind]
    rw [hgroups]
    rfl

theorem exists_search_ending_iff :
    (∃ paths, fs.search dir (SearchPattern.ending s) = .ok paths) ↔
      ∃ l, fs.locate dir = .ok l ∧
        ∀ d ∈ directories dir (fs.below l), ∃ l', fs.locate d = .ok l' := by
  have hgroup : ∀ d, (∃ group, (fs.contents d).map (matching s d) = .ok group) ↔
      ∃ l', fs.locate d = .ok l' := by
    intro d
    simp only [map_contents_eq_ok_iff]
    rw [exists_comm]
    simp
  simp only [search_ending_eq_ok_iff, ← hgroup, ← exists_mapM_eq_ok_iff]
  constructor
  · rintro ⟨_, l, groups, hl, hgroups, -⟩
    exact ⟨l, hl, groups, hgroups⟩
  · rintro ⟨l, hl, groups, hgroups⟩
    exact ⟨_, l, groups, hl, hgroups, rfl⟩

theorem mem_of_search_ending (h : fs.search dir (SearchPattern.ending s) = .ok paths) :
    p ∈ paths ↔ ∃ l, fs.locate dir = .ok l ∧ ∃ d ∈ directories dir (fs.below l),
      ∃ l' name entry, fs.locate d = .ok l' ∧ ([name], entry) ∈ fs.below l' ∧ s <:+ name ∧
        p = d.child name := by
  obtain ⟨l, groups, hl, hgroups, rfl⟩ := search_ending_eq_ok_iff.mp h
  simp only [mem_inOrder, List.mem_flatten, mem_of_mapM_eq_ok hgroups, map_contents_eq_ok_iff]
  constructor
  · rintro ⟨_, ⟨d, hd, l', hl', rfl⟩, hp⟩
    obtain ⟨name, entry, hmem, hsuffix, rfl⟩ := mem_matching_iff.mp hp
    exact ⟨l, hl, d, hd, l', name, entry, hl', hmem, hsuffix, rfl⟩
  · rintro ⟨l₁, hl₁, d, hd, l', name, entry, hl', hmem, hsuffix, rfl⟩
    obtain rfl : l = l₁ := Except.ok.inj (hl.symm.trans hl₁)
    exact ⟨_, ⟨d, hd, l', hl', rfl⟩, mem_matching_iff.mpr ⟨name, entry, hmem, hsuffix, rfl⟩⟩

theorem root_of_mem_directories {d : Path} {found : List (List Text × Entry)}
    (h : d ∈ directories dir found) : d.root = dir.root := by
  rcases List.mem_cons.mp h with rfl | h
  · rfl
  · obtain ⟨e, -, rfl⟩ := List.mem_map.mp h
    rfl

theorem nodup_of_search_ending (h : fs.search dir (SearchPattern.ending s) = .ok paths) :
    paths.Nodup := by
  have hroot : ∀ p ∈ paths, p.root = dir.root := by
    intro p hp
    obtain ⟨l, -, d, hd, -, name, -, -, -, -, rfl⟩ := (mem_of_search_ending h).mp hp
    change d.root = dir.root
    exact root_of_mem_directories hd
  obtain ⟨l, groups, -, -, rfl⟩ := search_ending_eq_ok_iff.mp h
  refine (pairwise_inOrder fun p hp => hroot p (mem_inOrder.mpr hp)).imp ?_
  rintro p q hlt rfl
  exact lt_irrefl _ hlt

/-! ### Trees -/

/-- The entries make a tree: there is at most one at a location, each is in a directory, and its
name leads to it from there. -/
structure IsTree (fs : FileSystem) : Prop where
  distinct : (fs.entries.map Prod.fst).Nodup
  inDirectory : ∀ e ∈ fs.entries, e.1 ≠ [] ∧ fs.entry? e.1.dropLast = some .directory
  named : ∀ e ∈ fs.entries, ∀ name ∈ e.1.getLast?,
    name ≠ parentName ∧ exceeds maxName name = false

theorem lookup_eq_some_of_mem {entries : List (Location × Entry)}
    (h : (entries.map Prod.fst).Nodup) (hmem : (l, entry) ∈ entries) :
    entries.lookup l = some entry := by
  induction entries with
  | nil => exact absurd hmem List.not_mem_nil
  | cons e entries ih =>
    rw [List.map_cons, List.nodup_cons] at h
    rcases List.mem_cons.mp hmem with rfl | hmem
    · exact List.lookup_cons_self
    · have hne : e.1 ≠ l := fun heq => h.1 (heq ▸ List.mem_map_of_mem hmem)
      rw [lookup_cons_of_ne hne, ih h.2 hmem]

theorem mem_of_lookup_eq_some {entries : List (Location × Entry)}
    (h : entries.lookup l = some entry) : (l, entry) ∈ entries := by
  obtain ⟨front, back, rfl, -⟩ := List.lookup_eq_some_iff.mp h
  simp

theorem IsTree.entry?_eq_some_iff (h : fs.IsTree) (hl : l ≠ []) :
    fs.entry? l = some entry ↔ (l, entry) ∈ fs.entries := by
  rw [entry?_of_ne_nil fs hl]
  exact ⟨mem_of_lookup_eq_some, lookup_eq_some_of_mem h.distinct⟩

theorem IsTree.mem_below_iff (h : fs.IsTree) :
    (names, entry) ∈ fs.below l ↔ names ≠ [] ∧ fs.entry? (l ++ names) = some entry := by
  rw [FileSystem.mem_below_iff]
  refine and_congr_right fun hne => ?_
  rw [h.entry?_eq_some_iff (by simp [hne])]

/-- Names that lead from a directory to an entry below it can be followed. -/
theorem IsTree.follow_eq_ok (h : fs.IsTree) {start : Location} {front : List Text}
    (hfront : fs.follow start front = .ok l) (hentry : fs.entry? (l ++ names) = some entry) :
    fs.follow start (front ++ names) = .ok (l ++ names) := by
  induction names using List.reverseRecOn generalizing entry with
  | nil => simpa using hfront
  | append_singleton names name ih =>
    rw [← List.append_assoc] at hentry ⊢
    have hmem := (h.entry?_eq_some_iff (by simp)).mp hentry
    obtain ⟨-, hparent⟩ := h.inDirectory _ hmem
    obtain ⟨hname, hlength⟩ := h.named _ hmem name (by simp)
    rw [List.dropLast_concat] at hparent
    rw [← List.append_assoc]
    exact follow_concat (ih hparent) hparent hname hlength hentry

/-- A path to an entry below a directory leads there, unless it is refused as it is. -/
theorem IsTree.locate_join (h : fs.IsTree) (hdir : fs.locate dir = .ok l)
    (hentry : fs.entry? (l ++ names) = some entry) :
    fs.locate (dir.join names) = (guard (dir.join names)).map fun _ => l ++ names := by
  obtain ⟨-, -, hfollow⟩ := exists_of_bind_eq_ok hdir
  rw [locate]
  cases guard (dir.join names) with
  | error refusal => rfl
  | ok _ => exact h.follow_eq_ok hfollow hentry

/-- The path leads from a directory to an entry below it. -/
def Leads (fs : FileSystem) (dir p : Path) (entry : Entry) : Prop :=
  ∃ l names, fs.locate dir = .ok l ∧ (names, entry) ∈ fs.below l ∧ p = dir.join names

theorem IsTree.leads_unique (h : fs.IsTree) {entry' : Entry} (hp : fs.Leads dir p entry)
    (hp' : fs.Leads dir p entry') : entry = entry' := by
  obtain ⟨l, names, hl, hmem, rfl⟩ := hp
  obtain ⟨l', names', hl', hmem', heq⟩ := hp'
  obtain rfl : l = l' := Except.ok.inj (hl.symm.trans hl')
  obtain rfl := Path.join_inj.mp heq
  have hentry := (h.mem_below_iff.mp hmem).2
  rw [(h.mem_below_iff.mp hmem').2] at hentry
  exact (Option.some.inj hentry).symm

theorem find_eq_ok_iff :
    fs.find p = .ok entry ↔ ∃ l, fs.locate p = .ok l ∧ fs.entry? l = some entry := by
  rw [find]
  cases fs.locate p with
  | error refusal => simp [bind, Except.bind]
  | ok l => cases hl : fs.entry? l <;> simp [bind, Except.bind, hl]

theorem isDirectory_eq_ok_true_iff : fs.isDirectory p = .ok true ↔ fs.find p = .ok .directory := by
  rw [isDirectory]
  cases fs.find p with
  | error refusal => cases refusal <;> simp [holds]
  | ok entry => simp [holds]

theorem isFile_eq_ok_true_iff :
    fs.isFile p = .ok true ↔ ∃ bytes, fs.find p = .ok (.file bytes) := by
  rw [isFile]
  cases fs.find p with
  | error refusal => cases refusal <;> simp [holds]
  | ok entry => cases entry <;> simp [holds]

theorem isFile_of_find (h : fs.find p = .ok entry) : fs.isFile p = .ok (entry != .directory) := by
  rw [isFile, h, holds]

theorem IsTree.find_of_leads (h : fs.IsTree) (hp : fs.Leads dir p entry) :
    fs.find p = (guard p).map fun _ => entry := by
  obtain ⟨l, names, hl, hmem, rfl⟩ := hp
  obtain ⟨-, hentry⟩ := h.mem_below_iff.mp hmem
  rw [find, h.locate_join hl hentry]
  cases guard (dir.join names) with
  | error refusal => rfl
  | ok _ => simp only [Except.map, bind, Except.bind, hentry]

/-- The directories that a search goes through are the one where it begins and those that paths lead
to from there. -/
theorem mem_directories_iff {d : Path} (hl : fs.locate dir = .ok l) :
    d ∈ directories dir (fs.below l) ↔ d = dir ∨ fs.Leads dir d .directory := by
  rw [directories, List.mem_cons, List.mem_map]
  refine or_congr_right ⟨?_, ?_⟩
  · rintro ⟨⟨names, entry⟩, he, rfl⟩
    rw [List.mem_filter, beq_iff_eq] at he
    obtain ⟨hmem, rfl⟩ := he
    exact ⟨l, names, hl, hmem, rfl⟩
  · rintro ⟨l', names, hl', hmem, rfl⟩
    obtain rfl : l = l' := Except.ok.inj (hl.symm.trans hl')
    exact ⟨_, List.mem_filter.mpr ⟨hmem, beq_self_eq_true _⟩, rfl⟩

/-- In a tree a search goes through, unless it comes to a directory whose path is refused. -/
theorem IsTree.exists_search_ending_iff (h : fs.IsTree) (hdir : fs.find dir = .ok .directory) :
    (∃ paths, fs.search dir (SearchPattern.ending s) = .ok paths) ↔
      ∀ p, fs.Leads dir p .directory → guard p = .ok () := by
  obtain ⟨l, hl, hentry⟩ := find_eq_ok_iff.mp hdir
  rw [FileSystem.exists_search_ending_iff]
  constructor
  · rintro ⟨l', hl', hall⟩ p hp
    obtain rfl : l = l' := Except.ok.inj (hl.symm.trans hl')
    obtain ⟨l', hp'⟩ := hall p ((mem_directories_iff hl).mpr (.inr hp))
    obtain ⟨⟨⟩, hguard, -⟩ := exists_of_bind_eq_ok hp'
    exact hguard
  · intro hall
    refine ⟨l, hl, fun d hd => ?_⟩
    rcases (mem_directories_iff hl).mp hd with rfl | hd
    · exact ⟨l, hl⟩
    · have hfind := h.find_of_leads hd
      rw [hall d hd] at hfind
      obtain ⟨l', hl', -⟩ := find_eq_ok_iff.mp hfind
      exact ⟨l', hl'⟩

theorem IsTree.mem_directories_iff (h : fs.IsTree) (hl : fs.locate dir = .ok l)
    (hentry : fs.entry? l = some .directory) {d : Path} :
    d ∈ directories dir (fs.below l) ↔
      ∃ names, d = dir.join names ∧ fs.entry? (l ++ names) = some .directory := by
  rw [FileSystem.mem_directories_iff hl]
  constructor
  · rintro (rfl | ⟨l', names, hl', hmem, rfl⟩)
    · exact ⟨[], Path.join_nil.symm, by rwa [List.append_nil]⟩
    · obtain rfl : l = l' := Except.ok.inj (hl.symm.trans hl')
      exact ⟨names, rfl, (h.mem_below_iff.mp hmem).2⟩
  · rintro ⟨names, rfl, hnames⟩
    by_cases hnil : names = []
    · exact .inl (hnil ▸ Path.join_nil)
    · exact .inr ⟨l, names, hl, h.mem_below_iff.mpr ⟨hnil, hnames⟩, rfl⟩

theorem IsTree.eq_of_locate_join (h : fs.IsTree) (hl : fs.locate dir = .ok l) {l' : Location}
    (hentry : fs.entry? (l ++ names) = some entry) (hl' : fs.locate (dir.join names) = .ok l') :
    l' = l ++ names := by
  rw [h.locate_join hl hentry] at hl'
  cases hguard : guard (dir.join names) with
  | error refusal => exact nomatch hguard ▸ hl'
  | ok _ =>
    rw [hguard] at hl'
    exact (Except.ok.inj hl').symm

/-- In a tree a search finds what is below the directory and has the suffix. -/
theorem IsTree.mem_of_search_ending (h : fs.IsTree) (hdir : fs.find dir = .ok .directory)
    (hsearch : fs.search dir (SearchPattern.ending s) = .ok paths) :
    p ∈ paths ↔ ∃ entry, fs.Leads dir p entry ∧ s <:+ p.name := by
  obtain ⟨l, hl, hentry⟩ := find_eq_ok_iff.mp hdir
  rw [FileSystem.mem_of_search_ending hsearch]
  constructor
  · rintro ⟨l₁, hl₁, d, hd, l', name, entry, hl', hmem, hsuffix, rfl⟩
    obtain rfl : l = l₁ := Except.ok.inj (hl.symm.trans hl₁)
    obtain ⟨names, rfl, hnames⟩ := (h.mem_directories_iff hl hentry).mp hd
    obtain rfl := h.eq_of_locate_join hl hnames hl'
    refine ⟨entry, ⟨l, names ++ [name], hl, ?_, Path.child_join⟩, by rwa [Path.name_child]⟩
    rw [h.mem_below_iff, ← List.append_assoc]
    exact ⟨by simp, (h.mem_below_iff.mp hmem).2⟩
  · rintro ⟨entry, ⟨l₁, names, hl₁, hmem, rfl⟩, hsuffix⟩
    obtain rfl : l = l₁ := Except.ok.inj (hl.symm.trans hl₁)
    obtain ⟨hne, hmem⟩ := h.mem_below_iff.mp hmem
    obtain ⟨front, name, rfl⟩ := (List.eq_nil_or_concat' names).resolve_left hne
    rw [← List.append_assoc] at hmem
    rw [← Path.child_join, Path.name_child] at hsuffix
    -- the entry is in a directory, and the search has gone through that one
    obtain ⟨-, hfront⟩ := h.inDirectory _ ((h.entry?_eq_some_iff (by simp)).mp hmem)
    rw [List.dropLast_concat] at hfront
    have hd := (h.mem_directories_iff hl hentry).mpr ⟨front, rfl, hfront⟩
    obtain ⟨l₁, hl₁, hall⟩ := FileSystem.exists_search_ending_iff.mp ⟨paths, hsearch⟩
    obtain rfl : l = l₁ := Except.ok.inj (hl.symm.trans hl₁)
    obtain ⟨l', hl'⟩ := hall _ hd
    obtain rfl := h.eq_of_locate_join hl hfront hl'
    exact ⟨l, hl, _, hd, _, name, entry, hl', h.mem_below_iff.mpr ⟨by simp, hmem⟩, hsuffix,
      Path.child_join.symm⟩

end FileSystem

/-! ### Sources -/

namespace Settings

open FileSystem

variable {fs : FileSystem} {settings : Settings} {p : Path} {entry : Entry} {paths : List Path}

theorem sources_of_error {refusal : Refusal} (h : fs.find settings.input = .error refusal) :
    settings.sources fs =
      if refusal = .nameTooLong then .error (.path ⟨settings.input, refusal⟩)
      else .error (.usage (.notFound settings.input)) := by
  rw [sources, isFile, isDirectory, h]
  cases refusal <;> rfl

theorem exists_find_of_sources (h : settings.sources fs = .ok paths) :
    ∃ entry, fs.find settings.input = .ok entry := by
  cases hfind : fs.find settings.input with
  | ok entry => exact ⟨entry, rfl⟩
  | error refusal =>
    rw [sources_of_error hfind] at h
    split_ifs at h

theorem sources_of_file {bytes : List UInt8} (h : fs.find settings.input = .ok (.file bytes)) :
    settings.sources fs =
      if settings.input.suffix = settings.sourceSuffix then .ok [settings.input]
      else .error (.usage (.wrongExtension settings.input)) := by
  rw [sources, isFile_of_find h]
  rfl

theorem sources_of_directory (h : fs.find settings.input = .ok .directory) :
    settings.sources fs =
      match SearchPattern.ofText? ('*' :: settings.sourceSuffix) with
      | some pattern => (fs.search settings.input pattern).mapError .path
      | none => .error .doubleStar := by
  rw [sources, isFile_of_find h, isDirectory_eq_ok_true_iff.mpr h]
  rfl

theorem sources_of_plain (h : fs.find settings.input = .ok .directory)
    (hsuffix : Path.IsSuffix settings.sourceSuffix)
    (hplain : SearchPattern.Plain settings.sourceSuffix) :
    settings.sources fs =
      (fs.search settings.input (SearchPattern.ending settings.sourceSuffix)).mapError .path := by
  rw [sources_of_directory h, SearchPattern.ofText?_star hsuffix hplain]

/-- The path is taken for a source if it is the input itself. -/
def Accepts (settings : Settings) (fs : FileSystem) (p : Path) : Prop :=
  { settings with input := p }.sources fs = .ok [p]

theorem accepts_iff (htree : fs.IsTree) (hsuffix : Path.IsSuffix settings.sourceSuffix) {dir : Path}
    {bytes : List UInt8} (hp : fs.Leads dir p (.file bytes)) :
    settings.Accepts fs p ↔ FileSystem.guard p = .ok () ∧ settings.sourceSuffix <:+ p.name ∧
      p.name ≠ settings.sourceSuffix ∧ Path.HasOneDot settings.sourceSuffix := by
  have hfind := htree.find_of_leads hp
  rw [← Path.suffixOf_eq_iff hsuffix, Accepts]
  cases hguard : FileSystem.guard p with
  | error refusal =>
    refine iff_of_false (fun h => ?_) fun h => nomatch h.1
    obtain ⟨entry, hentry⟩ := exists_find_of_sources h
    rw [hfind, hguard] at hentry
    exact nomatch hentry
  | ok _ =>
    rw [hguard] at hfind
    rw [sources_of_file hfind]
    change (if Path.suffixOf p.name = settings.sourceSuffix then _ else _) = _ ↔ _
    split_ifs with hname
    · exact iff_of_true rfl ⟨rfl, hname⟩
    · exact iff_of_false nofun fun h => hname h.2

/-- The sources below a directory are found if no path to a directory is refused. They are the
entries that have the suffix, each once. These are the files that are accepted one by one, if and
only if no directory has the suffix, no path is refused, no name is nothing but the suffix, and
there is no other dot in the suffix. -/
theorem sources_agree_iff (htree : fs.IsTree) (hdir : fs.isDirectory settings.input = .ok true)
    (hsuffix : Path.IsSuffix settings.sourceSuffix)
    (hplain : SearchPattern.Plain settings.sourceSuffix) :
    ((∃ paths, settings.sources fs = .ok paths) ↔
      ∀ p, fs.Leads settings.input p .directory → FileSystem.guard p = .ok ()) ∧
    ∀ paths, settings.sources fs = .ok paths → paths.Nodup ∧
      (∀ p, p ∈ paths ↔
        ∃ entry, fs.Leads settings.input p entry ∧ settings.sourceSuffix <:+ p.name) ∧
      ((∀ p, p ∈ paths ↔
          (∃ bytes, fs.Leads settings.input p (.file bytes)) ∧ settings.Accepts fs p) ↔
        ∀ p entry, fs.Leads settings.input p entry → settings.sourceSuffix <:+ p.name →
          entry ≠ .directory ∧ FileSystem.guard p = .ok () ∧ p.name ≠ settings.sourceSuffix ∧
            Path.HasOneDot settings.sourceSuffix) := by
  rw [isDirectory_eq_ok_true_iff] at hdir
  simp only [sources_of_plain hdir hsuffix hplain, mapError_eq_ok_iff]
  refine ⟨htree.exists_search_ending_iff hdir, fun paths hpaths => ?_⟩
  have hmem : ∀ p, p ∈ paths ↔
      ∃ entry, fs.Leads settings.input p entry ∧ settings.sourceSuffix <:+ p.name :=
    fun p => htree.mem_of_search_ending hdir hpaths
  refine ⟨nodup_of_search_ending hpaths, hmem, ?_, ?_⟩
  · intro hagree p entry hp hname
    obtain ⟨⟨bytes, hfile⟩, haccepts⟩ := (hagree p).mp ((hmem p).mpr ⟨entry, hp, hname⟩)
    obtain ⟨hguard, -, hne, hdot⟩ := (accepts_iff htree hsuffix hfile).mp haccepts
    exact ⟨htree.leads_unique hfile hp ▸ nofun, hguard, hne, hdot⟩
  · intro hall p
    rw [hmem p]
    constructor
    · rintro ⟨entry, hp, hname⟩
      obtain ⟨hfile, hguard, hne, hdot⟩ := hall p entry hp hname
      cases entry with
      | directory => exact absurd rfl hfile
      | file bytes =>
        exact ⟨⟨bytes, hp⟩, (accepts_iff htree hsuffix hp).mpr ⟨hguard, hname, hne, hdot⟩⟩
    · rintro ⟨⟨bytes, hp⟩, haccepts⟩
      exact ⟨_, hp, ((accepts_iff htree hsuffix hp).mp haccepts).2.1⟩

/-- A directory with the suffix, a source in it, and a source whose name is the suffix. -/
def suffixedFiles : FileSystem where
  entries := [(["d.wlisp".toList], .directory), (["d.wlisp".toList, "a.wlisp".toList], .file []),
    ([".wlisp".toList], .file [])]
  workingDirectory := []

/-- The settings for all sources in the working directory. -/
def defaultSettings : Settings where
  input := Path.ofText ".".toList
  output := none
  sourceSuffix := defaultSourceSuffix
  outputSuffix := defaultOutputSuffix
  keepGoing := false
  check := false
  debug := false

theorem isTree_suffixedFiles : suffixedFiles.IsTree where
  distinct := by decide +kernel
  inDirectory := by decide +kernel
  named := by decide +kernel

theorem plain_defaultSourceSuffix : SearchPattern.Plain defaultSourceSuffix :=
  ⟨by decide, by decide⟩

/-- All that a search finds there. -/
def suffixedPaths : List Path :=
  [Path.ofText ".wlisp".toList, Path.ofText "d.wlisp".toList, Path.ofText "d.wlisp/a.wlisp".toList]

theorem sources_suffixedFiles : defaultSettings.sources suffixedFiles = .ok suffixedPaths := by
  decide +kernel

theorem isDirectory_suffixedFiles :
    suffixedFiles.isDirectory defaultSettings.input = .ok true := by
  decide +kernel

theorem sources_agree_iff_suffixedFiles :
    suffixedFiles.IsTree ∧ suffixedFiles.isDirectory defaultSettings.input = .ok true ∧
      Path.IsSuffix defaultSettings.sourceSuffix ∧
      SearchPattern.Plain defaultSettings.sourceSuffix ∧
      ∀ p, p ∈ suffixedPaths ↔ ∃ entry, suffixedFiles.Leads defaultSettings.input p entry ∧
        defaultSettings.sourceSuffix <:+ p.name := by
  refine ⟨isTree_suffixedFiles, isDirectory_suffixedFiles, isSuffix_defaultSourceSuffix,
    plain_defaultSourceSuffix, ?_⟩
  exact ((sources_agree_iff isTree_suffixedFiles isDirectory_suffixedFiles
    isSuffix_defaultSourceSuffix plain_defaultSourceSuffix).2 _ sources_suffixedFiles).2.1

/-- A directory is among the sources, and so is a file that is not accepted by itself. -/
theorem sources_disagree :
    defaultSettings.sources suffixedFiles = .ok suffixedPaths ∧
      (∃ p ∈ suffixedPaths, suffixedFiles.isDirectory p = .ok true) ∧
      (∃ p ∈ suffixedPaths, suffixedFiles.isFile p = .ok true ∧
        ¬defaultSettings.Accepts suffixedFiles p) ∧
      ¬∀ p, p ∈ suffixedPaths ↔
        (∃ bytes, suffixedFiles.Leads defaultSettings.input p (.file bytes)) ∧
          defaultSettings.Accepts suffixedFiles p := by
  have hrefused : ¬defaultSettings.Accepts suffixedFiles (Path.ofText ".wlisp".toList) := by
    rw [Accepts]
    decide +kernel
  have hmem : Path.ofText ".wlisp".toList ∈ suffixedPaths := by decide
  refine ⟨sources_suffixedFiles, ⟨Path.ofText "d.wlisp".toList, by decide, by decide +kernel⟩,
    ⟨_, hmem, by decide +kernel, hrefused⟩, fun hagree => ?_⟩
  exact hrefused ((hagree _).mp hmem).2

end Settings

end Offside
