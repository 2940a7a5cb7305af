import Mathlib.Tactic.SplitIfs
import Offside.FileSystem

/-!
# What a write changes

Writing changes a file system at one location, the one that the path leads to afterwards. There is
the file with its octets then, and everything else is as it was (`Updates`, `updates_of_write`).

Nothing that was there goes away by a write, and directories stay directories (`Retains`). So the
paths that lead somewhere still lead to the same place after any number of writes
(`Retains.locate_eq_ok`).
-/

namespace Offside

/-- A computation in two parts has a result if both parts have one. -/
theorem exists_of_bind_eq_ok {ε α β : Type} {x : Except ε α} {f : α → Except ε β} {b : β}
    (h : (x >>= f) = .ok b) : ∃ a, x = .ok a ∧ f a = .ok b := by
  cases x with
  | error e => exact nomatch h
  | ok a => exact ⟨a, rfl, h⟩

namespace FileSystem

variable {fs fs' fs'' : FileSystem} {location l : Location} {entry : Entry} {path : Path}
  {bytes : List UInt8}

/-! ### Looking up what was put -/

section Put

/-- Every entry at a location, with another one in its place. -/
def replace (location : Location) (entry : Entry) (entries : List (Location × Entry)) :
    List (Location × Entry) :=
  entries.map fun e => if e.1 == location then (location, entry) else e

theorem lookup_cons_of_ne {e : Location × Entry} (h : e.1 ≠ l)
    (entries : List (Location × Entry)) : (e :: entries).lookup l = entries.lookup l := by
  rw [List.lookup_cons, beq_eq_false_iff_ne.mpr h.symm]

theorem lookup_replace_self {entries : List (Location × Entry)}
    (h : entries.any (·.1 == location) = true) :
    (replace location entry entries).lookup location = some entry := by
  induction entries with
  | nil => exact absurd h (by simp)
  | cons e entries ih =>
    rw [replace, List.map_cons, ← replace]
    by_cases he : e.1 = location
    · rw [if_pos (beq_iff_eq.mpr he), List.lookup_cons_self]
    · rw [if_neg (mt beq_iff_eq.mp he), lookup_cons_of_ne he]
      exact ih (by simpa [he] using h)

theorem lookup_replace_of_ne (h : l ≠ location) (entries : List (Location × Entry)) :
    (replace location entry entries).lookup l = entries.lookup l := by
  induction entries with
  | nil => rfl
  | cons e entries ih =>
    rw [replace, List.map_cons, ← replace]
    by_cases he : e.1 = location
    · rw [if_pos (beq_iff_eq.mpr he), lookup_cons_of_ne h.symm, lookup_cons_of_ne (he ▸ h.symm), ih]
    · rw [if_neg (mt beq_iff_eq.mp he), List.lookup_cons, List.lookup_cons, ih]

theorem lookup_entries_put_self :
    (fs.put location entry).entries.lookup location = some entry := by
  rw [put]
  split
  · rename_i hany
    exact lookup_replace_self hany
  · rename_i hany
    have hnone : fs.entries.lookup location = none := by
      rw [List.lookup_eq_none_iff]
      intro e he
      rw [bne_iff_ne]
      rintro rfl
      exact hany (List.any_eq_true.mpr ⟨e, he, beq_self_eq_true _⟩)
    rw [List.lookup_append, hnone, List.lookup_cons_self, Option.none_or]

theorem lookup_entries_put_of_ne (h : l ≠ location) :
    (fs.put location entry).entries.lookup l = fs.entries.lookup l := by
  rw [put]
  split
  · exact lookup_replace_of_ne h fs.entries
  · rw [List.lookup_append, lookup_cons_of_ne h.symm, List.lookup_nil, Option.or_none]

/-- Everywhere but at the root, the entries say what is there. -/
theorem entry?_of_ne_nil (fs : FileSystem) (h : l ≠ []) : fs.entry? l = fs.entries.lookup l :=
  if_neg (mt List.isEmpty_iff.mp h)

theorem entry?_put_self (h : location ≠ []) :
    entry? (fs.put location entry) location = some entry := by
  rw [entry?_of_ne_nil _ h, lookup_entries_put_self]

theorem entry?_put_of_ne (h : l ≠ location) :
    entry? (fs.put location entry) l = fs.entry? l := by
  unfold entry?
  rw [lookup_entries_put_of_ne h]

end Put

/-! ### What stays -/

/-- Whatever was there is there, and the directories are directories still. -/
structure Retains (fs fs' : FileSystem) : Prop where
  directory : ∀ {l : Location}, fs.entry? l = some .directory → fs'.entry? l = some .directory
  present : ∀ {l : Location} {entry : Entry}, fs.entry? l = some entry →
    ∃ entry', fs'.entry? l = some entry'
  workingDirectory_eq : fs'.workingDirectory = fs.workingDirectory

theorem Retains.refl (fs : FileSystem) : fs.Retains fs := ⟨id, fun h => ⟨_, h⟩, rfl⟩

theorem Retains.trans (h : fs.Retains fs') (h' : fs'.Retains fs'') : fs.Retains fs'' where
  directory hl := h'.directory (h.directory hl)
  present hl := by
    obtain ⟨entry', hentry'⟩ := h.present hl
    exact h'.present hentry'
  workingDirectory_eq := h'.workingDirectory_eq.trans h.workingDirectory_eq

theorem follow_cons_eq_ok_iff {name : Text} {names : List Text} :
    fs.follow l (name :: names) = .ok location ↔
      fs.entry? l = some .directory ∧
        ((name = parentName ∧ fs.follow l.dropLast names = .ok location) ∨
          (name ≠ parentName ∧ exceeds maxName name = false ∧
            fs.follow (l ++ [name]) names = .ok location)) := by
  rw [follow]
  split
  · simp [*]
  · simp [*]
  · split_ifs <;> simp_all

theorem follow_nil_eq_ok_iff :
    fs.follow l [] = .ok location ↔ location = l ∧ ∃ entry, fs.entry? l = some entry := by
  rw [follow]
  cases fs.entry? l <;> simp [eq_comm]

/-- Names still lead where they led. -/
theorem Retains.follow_eq_ok (h : fs.Retains fs') {names : List Text}
    (hfollow : fs.follow l names = .ok location) : fs'.follow l names = .ok location := by
  induction names generalizing l with
  | nil =>
    obtain ⟨rfl, entry, hentry⟩ := follow_nil_eq_ok_iff.mp hfollow
    exact follow_nil_eq_ok_iff.mpr ⟨rfl, h.present hentry⟩
  | cons name names ih =>
    obtain ⟨hdirectory, hnext⟩ := follow_cons_eq_ok_iff.mp hfollow
    refine follow_cons_eq_ok_iff.mpr ⟨h.directory hdirectory, ?_⟩
    exact hnext.imp (And.imp_right ih) (And.imp_right (And.imp_right ih))

theorem Retains.locate_eq_ok (h : fs.Retains fs') (hlocate : fs.locate path = .ok location) :
    fs'.locate path = .ok location := by
  obtain ⟨⟨⟩, hguard, hfollow⟩ := exists_of_bind_eq_ok hlocate
  have hbase : fs'.base path = fs.base path := by rw [base, base, h.workingDirectory_eq]
  rw [locate, hguard, hbase]
  exact h.follow_eq_ok hfollow

theorem retains_put (h : fs.entry? location ≠ some .directory) :
    fs.Retains (fs.put location (.file bytes)) where
  directory := by
    intro l hl
    rwa [entry?_put_of_ne]
    rintro rfl
    exact h hl
  present := by
    intro l entry hl
    by_cases hne : l = location
    · subst hne
      refine ⟨.file bytes, entry?_put_self ?_⟩
      rintro rfl
      exact h rfl
    · rw [entry?_put_of_ne hne]
      exact ⟨entry, hl⟩
  workingDirectory_eq := rfl

/-! ### Writing -/

/-- The file system `fs'` differs from `fs` in one file: there are these octets at the end of the
path, where no directory was. -/
structure Updates (fs : FileSystem) (path : Path) (bytes : List UInt8) (location : Location)
    (fs' : FileSystem) : Prop where
  located : fs'.locate path = .ok location
  stored : fs'.entry? location = some (.file bytes)
  kept : ∀ l ≠ location, fs'.entry? l = fs.entry? l
  retains : fs.Retains fs'

/-- What is read from a path after a write is what was written to it. -/
theorem Updates.read_eq_ok (h : fs.Updates path bytes location fs') :
    fs'.read path = .ok bytes := by
  rw [read, find, h.located]
  simp only [bind, Except.bind, h.stored]

/-- A path that may be written ends with a name in a directory. -/
theorem exists_of_target_eq_ok (h : fs.target path = .ok location) :
    guard path = .ok () ∧ path.names ≠ [] ∧ ∃ parent,
      fs.follow (fs.base path) path.names.dropLast = .ok parent ∧
      fs.entry? parent = some .directory ∧ path.name ≠ parentName ∧
      exceeds maxName path.name = false ∧ location = parent ++ [path.name] ∧
      fs.entry? location ≠ some .directory := by
  obtain ⟨⟨⟩, hguard, h⟩ := exists_of_bind_eq_ok h
  by_cases hnames : path.names = []
  · rw [hnames] at h
    exact nomatch h
  · rw [if_neg (mt List.isEmpty_iff.mp hnames)] at h
    obtain ⟨parent, hparent, h⟩ := exists_of_bind_eq_ok h
    refine ⟨hguard, hnames, parent, hparent, ?_⟩
    split at h
    · exact nomatch h
    · exact nomatch h
    · rename_i hdirectory
      split_ifs at h with hname hlength hentry
      obtain rfl := Except.ok.inj h
      exact ⟨hdirectory, hname, Bool.eq_false_iff.mpr hlength, rfl, hentry⟩

/-- The names of a directory and one more lead to what has that name there. -/
theorem follow_concat {names : List Text} {name : Text} {parent : Location}
    (hnames : fs.follow l names = .ok parent) (hparent : fs.entry? parent = some .directory)
    (hname : name ≠ parentName) (hlength : exceeds maxName name = false)
    (hentry : fs.entry? (parent ++ [name]) = some entry) :
    fs.follow l (names ++ [name]) = .ok (parent ++ [name]) := by
  induction names generalizing l with
  | nil =>
    obtain ⟨rfl, -⟩ := follow_nil_eq_ok_iff.mp hnames
    refine follow_cons_eq_ok_iff.mpr ⟨hparent, .inr ⟨hname, hlength, ?_⟩⟩
    exact follow_nil_eq_ok_iff.mpr ⟨rfl, entry, hentry⟩
  | cons next names ih =>
    obtain ⟨hdirectory, hnext⟩ := follow_cons_eq_ok_iff.mp hnames
    refine follow_cons_eq_ok_iff.mpr ⟨hdirectory, ?_⟩
    exact hnext.imp (And.imp_right ih) (And.imp_right (And.imp_right ih))

/-- A write changes the file at the end of the path, and nothing else. -/
theorem updates_of_write (h : fs.write path bytes = .ok fs') :
    ∃ location, fs.Updates path bytes location fs' := by
  obtain ⟨location, htarget, hput⟩ := exists_of_bind_eq_ok h
  obtain rfl := Except.ok.inj hput
  obtain ⟨hguard, hnames, parent, hparent, hdirectory, hname, hlength, hlocation, hentry⟩ :=
    exists_of_target_eq_ok htarget
  have hretains : fs.Retains (fs.put location (.file bytes)) := retains_put hentry
  have hstored : entry? (fs.put location (.file bytes)) location = some (.file bytes) :=
    entry?_put_self (by simp [hlocation])
  refine ⟨location, ?_, hstored, fun l hl => entry?_put_of_ne hl, hretains⟩
  have hsplit : path.names = path.names.dropLast ++ [path.name] := by
    rw [Path.name, List.getLast?_eq_some_getLast hnames, Option.getD_some,
      List.dropLast_concat_getLast hnames]
  subst hlocation
  rw [locate, hguard, hsplit]
  exact follow_concat (hretains.follow_eq_ok hparent) (hretains.directory hdirectory) hname hlength
    hstored

end FileSystem

end Offside
