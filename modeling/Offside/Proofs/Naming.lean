import Offside.CommandLine.Settings
import Offside.Proofs.Signal

/-!
# Names with a suffix

A suffix is a dot with something behind it (`IsSuffix`). There are two ways to say that a name has
it. A search asks whether the name ends with the suffix (`matches?_star_iff`). A path has the text
from its last dot on for its suffix, unless that dot is the first or the last character. The two
agree on a name that is longer than the suffix if the suffix has no other dot (`suffixOf_eq_iff`);
on any other name that ends with the suffix they differ.

The name of a result has another suffix in place of the one that the path has (`renamed`). So a
suffix with several dots keeps all but its last part, and a name that is nothing but a suffix gets
the new one in addition. From this follows which names share the name of their result
(`renamed_eq_renamed_iff`), and when the result of a source has the name of a source
(`isSuffix_renamed_iff`).
-/

namespace Offside

/-! ### Suffixes -/

namespace Path

/-- A suffix that can be set: a dot and something more. -/
structure IsSuffix (s : Text) : Prop where
  dotted : s.head? = some '.'
  proper : 2 ≤ s.length

/-- The only dot of the suffix is the one in front. -/
def HasOneDot (s : Text) : Prop := '.' ∉ s.tail

instance (s : Text) : Decidable (HasOneDot s) := inferInstanceAs (Decidable ('.' ∉ s.tail))

variable {s o name other : Text}

theorem IsSuffix.ne_nil (h : IsSuffix s) : s ≠ [] := by
  rintro rfl
  exact nomatch h.dotted

theorem IsSuffix.dot_mem (h : IsSuffix s) : '.' ∈ s := List.mem_of_head? h.dotted

/-- A suffix has a last dot, which is the one in front if there is no other. -/
theorem IsSuffix.exists_last_dot (h : IsSuffix s) :
    ∃ front last, s = front ++ '.' :: last ∧ '.' ∉ last ∧ (HasOneDot s ↔ front = []) ∧
      (front = [] → last ≠ []) := by
  obtain hdot | ⟨front, last, rfl, hlast⟩ := Text.not_mem_or_exists_last '.' s
  · exact absurd h.dot_mem hdot
  · refine ⟨front, last, rfl, hlast, ?_, ?_⟩
    · cases front <;> simp [HasOneDot, hlast]
    · rintro rfl rfl
      simpa using h.proper

theorem suffixOf_append_dot {last : Text} (h : '.' ∉ last) (front : Text) :
    suffixOf (front ++ '.' :: last) = if front = [] ∨ last = [] then [] else '.' :: last := by
  have hlength : (front ++ '.' :: last).length ≤ last.length + 1 ↔ front = [] := by
    rw [← List.length_eq_zero_iff, List.length_append, List.length_cons]
    omega
  rw [suffixOf, Text.afterLast_append_sep h]
  simp only [List.isEmpty_iff, Bool.or_eq_true, decide_eq_true_eq, hlength, or_comm]

/-- The suffix that a path has is the given one if and only if the name ends with it, is longer, and
no other dot is in it. -/
theorem suffixOf_eq_iff (h : IsSuffix s) :
    suffixOf name = s ↔ s <:+ name ∧ name ≠ s ∧ HasOneDot s := by
  constructor
  · rintro rfl
    obtain hdot | ⟨front, last, rfl, hlast⟩ := Text.not_mem_or_exists_last '.' name
    · refine absurd h.proper ?_
      simp [suffixOf, Text.afterLast_of_not_mem hdot]
    · rw [suffixOf_append_dot hlast] at h ⊢
      split
      · rename_i hempty
        exact absurd rfl (if_pos hempty ▸ h).ne_nil
      · rename_i hempty
        rw [not_or] at hempty
        exact ⟨List.suffix_append _ _, by simpa using hempty.1, hlast⟩
  · rintro ⟨⟨front, rfl⟩, hne, hdot⟩
    obtain ⟨_, last, rfl, hlast, hfront, hproper⟩ := h.exists_last_dot
    obtain rfl := hfront.mp hdot
    rw [List.nil_append] at hne ⊢
    rw [suffixOf_append_dot hlast, if_neg]
    rintro (rfl | hnil)
    · exact hne rfl
    · exact hproper rfl hnil

/-! ### Names of results -/

/-- A name with another suffix in place of its own. -/
def renamed (o name : Text) : Text := name.take (name.length - (suffixOf name).length) ++ o

/-- What the suffix `s` at the end of a name becomes, when `o` takes the place of its last part. -/
def renewed (s o : Text) : Text :=
  if (Text.afterLast '.' s).isEmpty then s ++ o
  else s.take (s.length - ((Text.afterLast '.' s).length + 1)) ++ o

theorem withSuffix?_eq_some (p : Path) (h : '/' ∉ o) :
    p.withSuffix? o = some (p.parent.child (renamed o p.name)) := by
  rw [withSuffix?, if_neg (by simpa using h)]
  rfl

theorem renamed_append_dot {last : Text} (h : '.' ∉ last) (front : Text) :
    renamed o (front ++ '.' :: last) =
      if front = [] ∨ last = [] then front ++ '.' :: last ++ o else front ++ o := by
  rw [renamed, suffixOf_append_dot h]
  split
  · rw [List.length_nil, Nat.sub_zero, List.take_length]
  · rw [List.length_append, Nat.add_sub_cancel, List.take_left]

theorem renewed_append_dot {last : Text} (h : '.' ∉ last) (front : Text) :
    renewed (front ++ '.' :: last) o =
      if last = [] then front ++ '.' :: last ++ o else front ++ o := by
  rw [renewed, Text.afterLast_append_sep h]
  simp only [List.isEmpty_iff]
  split
  · rfl
  · rw [List.length_append, List.length_cons, Nat.add_sub_cancel, List.take_left]

/-- A name that ends with a suffix, unless it is that suffix with a single dot. -/
theorem renamed_append (h : IsSuffix s) {front : Text} (hfront : front = [] → ¬HasOneDot s) :
    renamed o (front ++ s) = front ++ renewed s o := by
  obtain ⟨inner, last, rfl, hlast, hinner, -⟩ := h.exists_last_dot
  have hne : ¬(front ++ inner = []) := by
    rw [List.append_eq_nil_iff]
    rintro ⟨hnil, hnil'⟩
    exact hfront hnil (hinner.mpr hnil')
  rw [← List.append_assoc, renamed_append_dot hlast, renewed_append_dot hlast]
  simp only [hne, false_or]
  split <;> simp only [List.append_assoc]

/-- A name that is a suffix with a single dot has no suffix. -/
theorem renamed_self (h : IsSuffix s) (hdot : HasOneDot s) : renamed o s = s ++ o := by
  obtain ⟨_, last, rfl, hlast, hfront, -⟩ := h.exists_last_dot
  obtain rfl := hfront.mp hdot
  rw [renamed_append_dot hlast, if_pos (.inl rfl)]

theorem renewed_of_hasOneDot (h : IsSuffix s) (hdot : HasOneDot s) : renewed s o = o := by
  obtain ⟨_, last, rfl, hlast, hfront, hproper⟩ := h.exists_last_dot
  obtain rfl := hfront.mp hdot
  rw [renewed_append_dot hlast, if_neg (hproper rfl), List.nil_append]

/-- Two names share the name of their result if and only if one is the suffix and the other one is
the suffix twice. -/
theorem renamed_eq_renamed_iff (h : IsSuffix s) (hname : s <:+ name) (hother : s <:+ other)
    (hne : name ≠ other) :
    renamed o name = renamed o other ↔
      HasOneDot s ∧ (name = s ∧ other = s ++ s ∨ other = s ∧ name = s ++ s) := by
  obtain ⟨front, rfl⟩ := hname
  obtain ⟨front', rfl⟩ := hother
  have hfronts : front ≠ front' := fun heq => hne (by rw [heq])
  by_cases hdot : HasOneDot s
  · by_cases hnil : front = []
    · subst hnil
      have hfront' : front' ≠ [] := hfronts.symm
      rw [List.nil_append, renamed_self h hdot, renamed_append h (fun hnil => absurd hnil hfront'),
        renewed_of_hasOneDot h hdot, List.append_left_inj]
      simp [hdot, hfront', eq_comm, h.ne_nil]
    · by_cases hnil' : front' = []
      · subst hnil'
        rw [List.nil_append, renamed_self h hdot, renamed_append h (fun hnil' => absurd hnil' hnil),
          renewed_of_hasOneDot h hdot, List.append_left_inj]
        simp [hdot, hnil]
      · rw [renamed_append h (fun heq => absurd heq hnil),
          renamed_append h (fun heq => absurd heq hnil'), List.append_left_inj]
        simp [hfronts, hnil, hnil']
  · rw [renamed_append h fun _ => hdot, renamed_append h fun _ => hdot, List.append_left_inj]
    simp [hfronts, hdot]

/-- A text with a dot in front does not fit into what stands behind the last dot. -/
theorem IsSuffix.last_lt_of_isSuffix {front last : Text} (ho : IsSuffix o) (h : '.' ∉ last)
    (hsuffix : o <:+ front ++ '.' :: last) : last.length < o.length := by
  by_contra hle
  have hlast : last <:+ front ++ '.' :: last :=
    List.suffix_append_of_suffix (List.suffix_cons _ _)
  exact h (List.IsSuffix.mem ho.dot_mem
    (List.suffix_of_suffix_length_le hsuffix hlast (Nat.le_of_not_lt hle)))

/-- Whether the result of a name that ends with `s` ends with `s` again is a matter of the two
suffixes alone. -/
theorem isSuffix_renamed_iff (h : IsSuffix s) (ho : IsSuffix o) (hname : s <:+ name) :
    s <:+ renamed o name ↔ s <:+ renewed s o := by
  obtain ⟨front, rfl⟩ := hname
  -- whatever is in front, a result too short to end with `s` by itself would end within the last
  -- part of `s`, and no dot is there
  have hshort : ∀ u : Text, s <:+ u ++ renewed s o → s <:+ renewed s o := by
    intro u hu
    rcases Nat.le_total s.length (renewed s o).length with hle | hle
    · exact List.suffix_of_suffix_length_le hu (List.suffix_append _ _) hle
    · have hrenewed : renewed s o <:+ s :=
        List.suffix_of_suffix_length_le (List.suffix_append _ _) hu hle
      obtain ⟨inner, last, rfl, hlast, -, -⟩ := h.exists_last_dot
      have hlt : last.length < o.length := by
        refine ho.last_lt_of_isSuffix hlast (List.IsSuffix.trans ?_ hrenewed)
        rw [renewed_append_dot hlast]
        split <;> exact List.suffix_append _ _
      have hge : (inner ++ '.' :: last).length ≤ (renewed (inner ++ '.' :: last) o).length := by
        rw [renewed_append_dot hlast]
        split <;> simp only [List.length_append, List.length_cons] <;> omega
      exact (hrenewed.eq_of_length_le hge).symm ▸ List.suffix_rfl
  by_cases hself : front = [] ∧ HasOneDot s
  · obtain ⟨rfl, hdot⟩ := hself
    rw [List.nil_append, renamed_self h hdot]
    have hrenewed : renewed s o = o := renewed_of_hasOneDot h hdot
    refine ⟨fun hs => hshort s (hrenewed.symm ▸ hs), fun hs => ?_⟩
    exact List.suffix_append_of_suffix (hrenewed ▸ hs)
  · rw [renamed_append h fun hnil hdot => hself ⟨hnil, hdot⟩]
    exact ⟨hshort front, List.suffix_append_of_suffix⟩

/-- With two different suffixes of one dot each, no result has the name of a source. -/
theorem not_isSuffix_renewed (h : IsSuffix s) (ho : IsSuffix o) (hdot : HasOneDot s)
    (hodot : HasOneDot o) (hne : s ≠ o) : ¬s <:+ renewed s o := by
  rw [renewed_of_hasOneDot h hdot]
  intro hsuffix
  obtain ⟨_, last, rfl, hlast, hfront, -⟩ := ho.exists_last_dot
  obtain rfl := hfront.mp hodot
  have hlt := h.last_lt_of_isSuffix hlast hsuffix
  exact hne (hsuffix.eq_of_length_le hlt)

end Path

/-! ### Patterns -/

/-- A text that stands for itself in a pattern: there are no wildcards in it, and no slash. -/
structure SearchPattern.Plain (s : Text) : Prop where
  literal : NamePattern.hasWildcard s = false
  unbroken : '/' ∉ s

namespace NamePattern

variable {s name : Text}

theorem hasWildcard_cons {c : Char} (h : hasWildcard (c :: s) = false) :
    c ≠ '*' ∧ c ≠ '?' ∧ c ≠ '[' ∧ hasWildcard s = false := by
  simpa [hasWildcard, and_assoc] using h

theorem ofText_of_literal (h : hasWildcard s = false) : ofText s = s.map exactly := by
  induction s with
  | nil => rfl
  | cons c s ih =>
    obtain ⟨hstar, hmark, hbracket, hs⟩ := hasWildcard_cons h
    rw [ofText, ofTextFrom, if_neg hstar, if_neg hmark, if_neg hbracket, List.map_cons, ← ih hs]
    rfl

theorem matches?_map_exactly : matches? (s.map exactly) name = true ↔ name = s := by
  induction s generalizing name with
  | nil => simp [matches?]
  | cons c s ih =>
    cases name with
    | nil => simp [matches?, exactly]
    | cons d name => simp [matches?, exactly, CharClass.admits, ih]

theorem anySuffix_iff {p : Text → Bool} :
    anySuffix p name = true ↔ ∃ t, t <:+ name ∧ p t = true := by
  induction name with
  | nil => simp [anySuffix]
  | cons c name ih =>
    simp only [anySuffix, Bool.or_eq_true, ih, List.suffix_cons_iff, or_and_right, exists_or,
      exists_eq_left]

/-- A star and a suffix match the names that end with the suffix. -/
theorem matches?_star_iff : matches? (.anything :: s.map exactly) name = true ↔ s <:+ name := by
  simp only [matches?, anySuffix_iff, matches?_map_exactly, exists_eq_right]

end NamePattern

namespace SearchPattern

/-- The pattern for all names with a suffix. -/
def ending (s : Text) : SearchPattern :=
  ⟨[.wildcard (.anything :: s.map NamePattern.exactly)], false⟩

theorem hasDoubleStar_of_literal {s : Text} (h : NamePattern.hasWildcard s = false) :
    hasDoubleStar s = false := by
  fun_induction hasDoubleStar s with
  | case1 => exact absurd rfl (NamePattern.hasWildcard_cons h).1
  | case2 c s _ ih => exact ih (NamePattern.hasWildcard_cons h).2.2.2
  | case3 => rfl

theorem ofText?_star {s : Text} (h : Path.IsSuffix s) (hplain : Plain s) :
    ofText? ('*' :: s) = some (ending s) := by
  obtain ⟨rest, rfl⟩ := List.head?_eq_some_iff.mp h.dotted
  have hslash : '/' ∉ '*' :: '.' :: rest := by simpa using hplain.unbroken
  have hnames : (Path.ofText ('*' :: '.' :: rest)).names = ['*' :: '.' :: rest] := by
    rw [Path.ofText, Text.pieces_of_not_mem hslash]
    rfl
  have hstars : hasDoubleStar ('*' :: '.' :: rest) = false :=
    hasDoubleStar_of_literal (s := '.' :: rest) hplain.literal
  have hpart : part? ('*' :: '.' :: rest) =
      some (.wildcard (.anything :: ('.' :: rest).map NamePattern.exactly)) := by
    have hwild : NamePattern.hasWildcard ('*' :: '.' :: rest) = true := rfl
    rw [part?, if_neg (by simp), if_neg (by simp [hstars]), if_pos hwild,
      ← NamePattern.ofText_of_literal hplain.literal]
    rfl
  have hlast : ('*' :: '.' :: rest).getLast? ≠ some '/' :=
    fun hlast => hslash (List.mem_of_getLast? hlast)
  rw [ofText?, hnames, List.mapM_cons, hpart, List.mapM_nil, decide_eq_false hlast]
  rfl

end SearchPattern

end Offside
