import Mathlib.Data.List.Nodup
import Offside.Proofs.Collisions

/-!
# Writing again, and what cannot be told apart

Files are written one after the other, and what is written last at a location stays. So the same
writes in the same order change nothing the second time (`putAll_putAll`).

Writes that put files of one suffix where no directories are leave much as it was: directories,
files without that suffix, and the listing of both (`AlikeBut`). Two file systems that are alike in
this way answer alike when a path of a file without the suffix is looked up (`AlikeBut.find_eq`),
when a place is looked for to write a file (`AlikeBut.target_eq`), and when a directory is searched
for another suffix (`AlikeBut.search_ending_eq_ok`).
-/

namespace Offside

theorem mapM_eq_ok_of_forall {ε ε' α β : Type} {f : α → Except ε β} {g : α → Except ε' β}
    {as : List α} {bs : List β} (h : ∀ a ∈ as, ∀ b, f a = .ok b → g a = .ok b)
    (has : as.mapM f = .ok bs) : as.mapM g = .ok bs := by
  induction as generalizing bs with
  | nil =>
    obtain rfl := Except.ok.inj has
    rfl
  | cons a as ih =>
    obtain ⟨b, bs', hb, hbs, rfl⟩ := mapM_cons_eq_ok_iff.mp has
    refine mapM_cons_eq_ok_iff.mpr ⟨b, bs', h a List.mem_cons_self b hb, ih ?_ hbs, rfl⟩
    exact fun a ha => h a (List.mem_cons_of_mem _ ha)

namespace FileSystem

variable {fs fs' fs'' : FileSystem} {l : Location} {entry : Entry} {p dir : Path} {s o name : Text}
  {bytes : List UInt8} {writes : List (Location × Entry)}

/-! ### Writing one thing after the other -/

/-- Put entries at their locations, one after the other. -/
def putAll (fs : FileSystem) (writes : List (Location × Entry)) : FileSystem :=
  writes.foldl (fun fs w => fs.put w.1 w.2) fs

/-- What a listed entry is after writes: the last one that was put at its location. -/
def overwritten (writes : List (Location × Entry)) (e : Location × Entry) : Location × Entry :=
  writes.foldl (fun e w => if e.1 == w.1 then w else e) e

theorem putAll_append (fs : FileSystem) (writes writes' : List (Location × Entry)) :
    fs.putAll (writes ++ writes') = (fs.putAll writes).putAll writes' :=
  List.foldl_append

theorem putAll_concat (fs : FileSystem) (writes : List (Location × Entry))
    (w : Location × Entry) : fs.putAll (writes ++ [w]) = (fs.putAll writes).put w.1 w.2 :=
  putAll_append fs writes [w]

theorem overwritten_concat (writes : List (Location × Entry)) (w e : Location × Entry) :
    overwritten (writes ++ [w]) e =
      if (overwritten writes e).1 == w.1 then w else overwritten writes e := by
  rw [overwritten, List.foldl_append]
  rfl

theorem fst_overwritten (writes : List (Location × Entry)) (e : Location × Entry) :
    (overwritten writes e).1 = e.1 := by
  induction writes using List.reverseRecOn with
  | nil => rfl
  | append_singleton writes w ih =>
    rw [overwritten_concat]
    split
    · rename_i heq
      rw [← beq_iff_eq.mp heq, ih]
    · exact ih

theorem mem_entries_put {w e : Location × Entry} (h : e ∈ (fs.put w.1 w.2).entries) :
    e = w ∨ e ∈ fs.entries ∧ e.1 ≠ w.1 := by
  rw [put] at h
  dsimp only at h
  split at h
  · obtain ⟨e', he', rfl⟩ := List.mem_map.mp h
    split
    · exact .inl rfl
    · rename_i hne
      exact .inr ⟨he', mt beq_iff_eq.mpr hne⟩
  · rename_i hany
    rcases List.mem_append.mp h with he | he
    · refine .inr ⟨he, fun heq => hany ?_⟩
      exact List.any_eq_true.mpr ⟨e, he, beq_iff_eq.mpr heq⟩
    · exact .inl (List.mem_singleton.mp he)

/-- What writes have left is as they leave it. -/
theorem overwritten_eq_self {e : Location × Entry} (h : e ∈ (fs.putAll writes).entries) :
    overwritten writes e = e := by
  -- the last write decides, so the induction is from the end
  induction writes using List.reverseRecOn with
  | nil => rfl
  | append_singleton writes w ih =>
    rw [putAll_concat] at h
    rw [overwritten_concat, fst_overwritten]
    rcases mem_entries_put h with rfl | ⟨he, hne⟩
    · rw [if_pos (beq_self_eq_true _)]
    · rw [if_neg (mt beq_iff_eq.mp hne), ih he]

theorem locations_put (fs : FileSystem) (w : Location × Entry) :
    (fs.put w.1 w.2).entries.map Prod.fst =
      if w.1 ∈ fs.entries.map Prod.fst then fs.entries.map Prod.fst
      else fs.entries.map Prod.fst ++ [w.1] := by
  have hany : fs.entries.any (·.1 == w.1) = true ↔ w.1 ∈ fs.entries.map Prod.fst := by
    simp [List.any_eq_true, List.mem_map]
  rw [put]
  dsimp only
  by_cases hmem : w.1 ∈ fs.entries.map Prod.fst
  · rw [if_pos (hany.mpr hmem), if_pos hmem, List.map_map]
    refine List.map_congr_left fun e _ => ?_
    rw [Function.comp_apply]
    split
    · rename_i heq
      exact (beq_iff_eq.mp heq).symm
    · rfl
  · rw [if_neg (mt hany.mp hmem), if_neg hmem, List.map_append]
    rfl

theorem mem_locations_put_iff {w : Location × Entry} :
    l ∈ (fs.put w.1 w.2).entries.map Prod.fst ↔ l = w.1 ∨ l ∈ fs.entries.map Prod.fst := by
  rw [locations_put]
  split
  · rename_i hmem
    exact ⟨.inr, fun h => h.elim (fun heq => heq ▸ hmem) id⟩
  · rw [List.mem_append, List.mem_singleton, or_comm]

theorem mem_locations_putAll {w : Location × Entry} (h : w ∈ writes) :
    w.1 ∈ (fs.putAll writes).entries.map Prod.fst := by
  induction writes using List.reverseRecOn with
  | nil => exact absurd h List.not_mem_nil
  | append_singleton writes w' ih =>
    rw [putAll_concat, mem_locations_put_iff]
    rcases List.mem_append.mp h with h | h
    · exact .inr (ih h)
    · exact .inl (congrArg Prod.fst (List.mem_singleton.mp h))

theorem nodup_locations_put (h : (fs.entries.map Prod.fst).Nodup) (w : Location × Entry) :
    ((fs.put w.1 w.2).entries.map Prod.fst).Nodup := by
  rw [locations_put]
  split
  · exact h
  · rename_i hmem
    rw [← List.concat_eq_append]
    exact h.concat hmem

/-- Writes to locations that are listed change the entries in their places. -/
theorem putAll_eq_of_forall (h : ∀ w ∈ writes, w.1 ∈ fs.entries.map Prod.fst) :
    fs.putAll writes = { fs with entries := fs.entries.map (overwritten writes) } := by
  induction writes generalizing fs with
  | nil => exact congrArg (fun entries => { fs with entries }) (List.map_id _).symm
  | cons w writes ih =>
    have hw : fs.entries.any (·.1 == w.1) = true := by
      obtain ⟨e, he, heq⟩ := List.mem_map.mp (h w List.mem_cons_self)
      exact List.any_eq_true.mpr ⟨e, he, beq_iff_eq.mpr heq⟩
    have hput : fs.put w.1 w.2 =
        { fs with entries := fs.entries.map fun e => if e.1 == w.1 then w else e } := by
      rw [put, if_pos hw]
    have hrest : ∀ w' ∈ writes, w'.1 ∈ (fs.put w.1 w.2).entries.map Prod.fst := fun w' hw' =>
      mem_locations_put_iff.mpr (.inr (h w' (List.mem_cons_of_mem _ hw')))
    change (fs.put w.1 w.2).putAll writes = _
    rw [ih hrest, hput]
    dsimp only
    rw [List.map_map]
    rfl

/-- Writing the same things again changes nothing. -/
theorem putAll_putAll (fs : FileSystem) (writes : List (Location × Entry)) :
    (fs.putAll writes).putAll writes = fs.putAll writes := by
  have hpresent : ∀ w ∈ writes, w.1 ∈ (fs.putAll writes).entries.map Prod.fst :=
    fun w hw => mem_locations_putAll hw
  have hsame : (fs.putAll writes).entries.map (overwritten writes) =
      (fs.putAll writes).entries :=
    (List.map_congr_left fun e he => overwritten_eq_self he).trans (List.map_id _)
  rw [putAll_eq_of_forall hpresent, hsame]

/-! ### File systems that are alike -/

/-- Whether an entry is a directory, or a file without the suffix `o`. -/
def isKept (o : Text) (e : Location × Entry) : Bool :=
  e.2 == .directory || !(e.1.getLast?.any o.isSuffixOf)

/-- The file system `fs'` differs from `fs` in nothing but files with the suffix `o`, and it has
at least the files that `fs` has. -/
structure AlikeBut (o : Text) (fs fs' : FileSystem) : Prop where
  retains : fs.Retains fs'
  directory : ∀ {l : Location}, fs'.entry? l = some .directory → fs.entry? l = some .directory
  kept : ∀ {l : Location} {name : Text}, ¬o <:+ name →
    fs'.entry? (l ++ [name]) = fs.entry? (l ++ [name])
  listed : fs'.entries.filter (isKept o) = fs.entries.filter (isKept o)
  distinct : (fs'.entries.map Prod.fst).Nodup

theorem AlikeBut.refl (o : Text) (h : (fs.entries.map Prod.fst).Nodup) : AlikeBut o fs fs where
  retains := .refl fs
  directory := id
  kept _ := rfl
  listed := rfl
  distinct := h

theorem AlikeBut.directory_iff (h : AlikeBut o fs fs') :
    fs'.entry? l = some .directory ↔ fs.entry? l = some .directory :=
  ⟨h.directory, h.retains.directory⟩

/-- The writes put files with the suffix `o` where no directories are. -/
def Spares (o : Text) (fs : FileSystem) (writes : List (Location × Entry)) : Prop :=
  ∀ w ∈ writes, ∃ l name bytes, w = (l ++ [name], .file bytes) ∧ o <:+ name ∧
    fs.entry? (l ++ [name]) ≠ some .directory

theorem filter_isKept_put (h : (fs.entries.map Prod.fst).Nodup) (hname : o <:+ name)
    (hentry : fs.entry? (l ++ [name]) ≠ some .directory) :
    (fs.put (l ++ [name]) (.file bytes)).entries.filter (isKept o) =
      fs.entries.filter (isKept o) := by
  have hnew : isKept o (l ++ [name], .file bytes) = false := by
    simp [isKept, hname]
  have hold : ∀ e ∈ fs.entries, e.1 = l ++ [name] → isKept o e = false := by
    intro e he heq
    have hlookup : fs.entry? (l ++ [name]) = some e.2 := by
      rw [entry?_of_ne_nil fs (by simp), ← heq, lookup_eq_some_of_mem h he]
    have hfile : e.2 ≠ .directory := fun hdirectory => hentry (hdirectory ▸ hlookup)
    simp [isKept, heq, hname, hfile]
  rw [put]
  dsimp only
  -- neither the entry that goes away nor the one that comes in its place is kept
  split
  · have hsame : ∀ e ∈ fs.entries, isKept o (if e.1 == l ++ [name] then
        (l ++ [name], .file bytes) else e) = isKept o e := by
      intro e he
      split
      · rename_i heq
        rw [hnew, hold e he (beq_iff_eq.mp heq)]
      · rfl
    rw [List.filter_map]
    refine (congrArg (List.map _) (List.filter_congr hsame)).trans ?_
    refine (List.map_congr_left fun e he => ?_).trans (List.map_id _)
    obtain ⟨he, hkept⟩ := List.mem_filter.mp he
    refine if_neg fun heq => ?_
    rw [hold e he (beq_iff_eq.mp heq)] at hkept
    exact absurd hkept Bool.false_ne_true
  · rw [List.filter_append, List.filter_cons_of_neg (by simp [hnew]), List.filter_nil,
      List.append_nil]

theorem AlikeBut.put (h : AlikeBut o fs fs') (hname : o <:+ name)
    (hentry : fs.entry? (l ++ [name]) ≠ some .directory) :
    AlikeBut o fs (fs'.put (l ++ [name]) (.file bytes)) := by
  have hentry' : fs'.entry? (l ++ [name]) ≠ some .directory := mt h.directory hentry
  constructor
  · exact h.retains.trans (retains_put hentry')
  · intro l' hl'
    have hne : l' ≠ l ++ [name] := by
      rintro rfl
      rw [entry?_put_self (by simp)] at hl'
      exact nomatch hl'
    rw [entry?_put_of_ne hne] at hl'
    exact h.directory hl'
  · intro l' name' hname'
    rw [entry?_put_of_ne, h.kept hname']
    intro heq
    obtain rfl := List.singleton_inj.mp (List.append_inj' heq rfl).2
    exact hname' hname
  · rw [filter_isKept_put h.distinct hname hentry', h.listed]
  · exact nodup_locations_put h.distinct (l ++ [name], .file bytes)

theorem AlikeBut.putAll (h : AlikeBut o fs fs') (hwrites : Spares o fs writes) :
    AlikeBut o fs (fs'.putAll writes) := by
  induction writes using List.reverseRecOn with
  | nil => exact h
  | append_singleton writes w ih =>
    rw [putAll_concat]
    obtain ⟨l, name, bytes, rfl, hname, hentry⟩ := hwrites w (by simp)
    exact (ih fun w' hw' => hwrites w' (by simp [hw'])).put hname hentry

/-! ### Paths in file systems that are alike -/

theorem follow_append (fs : FileSystem) (l : Location) (front names : List Text) :
    fs.follow l (front ++ names) = fs.follow l front >>= fun l' => fs.follow l' names := by
  induction front generalizing l with
  | nil =>
    rw [List.nil_append]
    cases hentry : fs.entry? l with
    | none => cases names <;> simp [follow, hentry, bind, Except.bind]
    | some entry => simp [follow, hentry, bind, Except.bind]
  | cons name front ih =>
    rw [List.cons_append, follow, follow]
    cases fs.entry? l with
    | none => rfl
    | some entry =>
      cases entry with
      | file bytes => rfl
      | directory =>
        dsimp only
        split_ifs
        · exact ih _
        · rfl
        · exact ih _

/-- The directory that a path is in can be reached. -/
structure Reaches (fs : FileSystem) (p : Path) (l : Location) : Prop where
  named : p.names ≠ []
  follow_eq : fs.follow (fs.base p) p.names.dropLast = .ok l

/-- Where a path is reached, so is every other name next to it. -/
theorem Reaches.sibling (h : fs.Reaches p l) (name : Text) :
    fs.Reaches (p.parent.child name) l where
  named := by simp [Path.child]
  follow_eq := by
    have hnames : (p.parent.child name).names.dropLast = p.names.dropLast := List.dropLast_concat
    rw [hnames]
    exact h.follow_eq

theorem names_eq_concat (h : p.names ≠ []) : p.names = p.names.dropLast ++ [p.name] := by
  conv_lhs => rw [← Path.child_parent h]
  rfl

theorem AlikeBut.base_eq (h : AlikeBut o fs fs') (p : Path) : fs'.base p = fs.base p := by
  rw [base, base, h.retains.workingDirectory_eq]

theorem AlikeBut.reaches (h : AlikeBut o fs fs') (hp : fs.Reaches p l) : fs'.Reaches p l where
  named := hp.named
  follow_eq := by
    rw [h.base_eq]
    exact h.retains.follow_eq_ok hp.follow_eq

/-- A path is followed by looking its name up in the directory that it is in. -/
theorem Reaches.locate_eq (hp : fs.Reaches p l) :
    fs.locate p = guard p >>= fun _ => fs.follow l [p.name] := by
  rw [locate]
  conv_lhs => rw [names_eq_concat hp.named, follow_append, hp.follow_eq]
  rfl

theorem entry?_of_follow {start : Location} {names : List Text}
    (h : fs.follow start names = .ok l) : ∃ entry, fs.entry? l = some entry := by
  induction names generalizing start with
  | nil =>
    obtain ⟨rfl, hentry⟩ := follow_nil_eq_ok_iff.mp h
    exact hentry
  | cons name names ih =>
    obtain ⟨-, ⟨-, h⟩ | ⟨-, -, h⟩⟩ := follow_cons_eq_ok_iff.mp h
    · exact ih h
    · exact ih h

/-- Where a path goes through, there is a directory in both or a file in both. -/
theorem AlikeBut.entry?_cases (h : AlikeBut o fs fs') (hl : ∃ entry, fs.entry? l = some entry) :
    (fs.entry? l = some .directory ∧ fs'.entry? l = some .directory) ∨
      ∃ bytes bytes', fs.entry? l = some (.file bytes) ∧ fs'.entry? l = some (.file bytes') := by
  obtain ⟨entry, hentry⟩ := hl
  obtain ⟨entry', hentry'⟩ := h.retains.present hentry
  cases entry with
  | directory => exact .inl ⟨hentry, h.retains.directory hentry⟩
  | file bytes =>
    cases entry' with
    | directory => exact nomatch hentry.symm.trans (h.directory hentry')
    | file bytes' => exact .inr ⟨bytes, bytes', hentry, hentry'⟩

theorem AlikeBut.find_eq (h : AlikeBut o fs fs') (hp : fs.Reaches p l) (hname : ¬o <:+ p.name)
    (hparent : p.name ≠ parentName) : fs'.find p = fs.find p := by
  rw [find, find, hp.locate_eq, (h.reaches hp).locate_eq]
  cases guard p with
  | error refusal => rfl
  | ok _ =>
    obtain ⟨hl, hl'⟩ | ⟨_, _, hl, hl'⟩ := h.entry?_cases (entry?_of_follow hp.follow_eq)
    · have hkept : fs'.entry? (l ++ [p.name]) = fs.entry? (l ++ [p.name]) := h.kept hname
      by_cases hlength : exceeds maxName p.name = true
      · simp only [follow, hl, hl', hparent, hlength, if_false, if_true]
        rfl
      · cases hentry : fs.entry? (l ++ [p.name]) <;>
          simp [follow, hl, hl', hparent, hlength, hkept, hentry, bind, Except.bind]
    · simp only [follow, hl, hl']
      rfl

theorem AlikeBut.read_eq (h : AlikeBut o fs fs') (hp : fs.Reaches p l) (hname : ¬o <:+ p.name)
    (hparent : p.name ≠ parentName) : fs'.read p = fs.read p := by
  rw [FileSystem.read, FileSystem.read, h.find_eq hp hname hparent]

theorem AlikeBut.target_eq (h : AlikeBut o fs fs') (hp : fs.Reaches p l) :
    fs'.target p = fs.target p := by
  rw [target, target]
  cases guard p with
  | error refusal => rfl
  | ok _ =>
    have hnames : p.names.isEmpty = false := List.isEmpty_eq_false_iff.mpr hp.named
    simp only [hnames, Bool.false_eq_true, if_false, hp.follow_eq, (h.reaches hp).follow_eq, bind,
      Except.bind]
    obtain ⟨hl, hl'⟩ | ⟨_, _, hl, hl'⟩ := h.entry?_cases (entry?_of_follow hp.follow_eq)
    · simp only [hl, hl', h.directory_iff]
    · simp only [hl, hl']

/-- What is made of the entries alone that are kept is the same. -/
theorem AlikeBut.filterMap_eq {β : Type} (h : AlikeBut o fs fs') {f : Location × Entry → Option β}
    (hf : ∀ e, isKept o e = false → f e = none) :
    fs'.entries.filterMap f = fs.entries.filterMap f := by
  have hkept : ∀ entries : List (Location × Entry),
      (entries.filter (isKept o)).filterMap f = entries.filterMap f := by
    intro entries
    rw [List.filterMap_filter]
    refine List.filterMap_congr fun e _ => ?_
    split
    · rfl
    · rename_i hkept
      exact (hf e (Bool.eq_false_iff.mpr hkept)).symm
  rw [← hkept, h.listed, hkept]

theorem AlikeBut.directories_eq (h : AlikeBut o fs fs') (dir : Path) (l : Location) :
    directories dir (fs'.below l) = directories dir (fs.below l) := by
  rw [directories, directories, below, below, List.filter_filterMap, List.filter_filterMap,
    h.filterMap_eq]
  intro e he
  have hfile : (e.2 == .directory) = false := (Bool.or_eq_false_iff.mp he).1
  split
  · rw [Option.filter_some, hfile]
    rfl
  · rfl

theorem AlikeBut.matching_eq (h : AlikeBut o fs fs')
    (hnames : ∀ name : Text, s <:+ name → ¬o <:+ name) (dir : Path) (l : Location) :
    matching s dir (fs'.below l) = matching s dir (fs.below l) := by
  rw [matching, matching, below, below, List.filterMap_filterMap, List.filterMap_filterMap,
    h.filterMap_eq]
  intro e he
  have hlast : e.1.getLast?.any o.isSuffixOf = true := by
    simpa using (Bool.or_eq_false_iff.mp he).2
  split
  · rename_i hbelow
    rw [Bool.and_eq_true, List.isPrefixOf_iff_prefix] at hbelow
    obtain ⟨⟨names, heq⟩, -⟩ := hbelow
    rw [← heq, List.drop_left]
    rcases names with _ | ⟨name, _ | _⟩
    · rfl
    · -- only here an entry would be found, and its name has the other suffix
      rw [← heq, List.getLast?_concat, Option.any_some, List.isSuffixOf_iff_suffix] at hlast
      exact if_neg fun hname => hnames name (List.isSuffixOf_iff_suffix.mp hname) hlast
    · rfl
  · rfl

theorem AlikeBut.search_ending_eq_ok (h : AlikeBut o fs fs')
    (hnames : ∀ name : Text, s <:+ name → ¬o <:+ name) {paths : List Path}
    (hsearch : fs.search dir (SearchPattern.ending s) = .ok paths) :
    fs'.search dir (SearchPattern.ending s) = .ok paths := by
  obtain ⟨l, groups, hl, hgroups, rfl⟩ := search_ending_eq_ok_iff.mp hsearch
  refine search_ending_eq_ok_iff.mpr ⟨l, groups, h.retains.locate_eq_ok hl, ?_, rfl⟩
  rw [h.directories_eq]
  refine mapM_eq_ok_of_forall (fun d _ group hgroup => ?_) hgroups
  obtain ⟨l', hl', rfl⟩ := map_contents_eq_ok_iff.mp hgroup
  exact map_contents_eq_ok_iff.mpr ⟨l', h.retains.locate_eq_ok hl', h.matching_eq hnames d l'⟩

end FileSystem

end Offside
