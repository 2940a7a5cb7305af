import Mathlib.Order.Bounds.Basic
import Offside.Proofs.Culprit

/-!
# The texts that can be folded

Folding accepts a text exactly when its parentheses match, that is, when the text is made up of
characters that are no parentheses and of groups around texts of the same kind (`Balanced`). It then
leaves the characters outside of all groups, and one placeholder for each outermost group
(`Leaves`). Any other text is refused with the offset of one parenthesis (`Blames`): the first
closing one that exceeds the opening ones before it or, if there is none, the opening one behind
which the text is never again outside of all groups (`fold_spec`).

The grammar is nested and the fold counts, so the two are compared through one step of the grammar
at a time. A fold passes over a balanced text inside a group without a change of its state
(`Balanced.foldFrom_append`), and inside a group it comes to a closing parenthesis with a balanced
text before it (`Folds.exists_balanced`).
-/

namespace Offside

namespace Group

/-! ### The grammar -/

/-- A text with matching parentheses. -/
inductive Balanced : Text → Prop
  | nil : Balanced []
  | char {c : Char} {s : Text} (hopening : c ≠ '(') (hclosing : c ≠ ')') (rest : Balanced s) :
      Balanced (c :: s)
  | group {s t : Text} (inner : Balanced s) (rest : Balanced t) :
      Balanced ('(' :: (s ++ ')' :: t))

/-- What is left of a text with matching parentheses when its outermost groups are folded. -/
inductive Leaves : Text → Text → Prop
  | nil : Leaves [] []
  | char {c : Char} {s u : Text} (hopening : c ≠ '(') (hclosing : c ≠ ')') (rest : Leaves s u) :
      Leaves (c :: s) (c :: u)
  | group {s t u : Text} (inner : Balanced s) (rest : Leaves t u) :
      Leaves ('(' :: (s ++ ')' :: t)) (placeholder :: u)

theorem balanced_iff_exists_leaves {s : Text} : Balanced s ↔ ∃ u, Leaves s u := by
  constructor
  · intro h
    induction h with
    | nil => exact ⟨[], .nil⟩
    | char hopening hclosing _ ih =>
      obtain ⟨u, hu⟩ := ih
      exact ⟨_, .char hopening hclosing hu⟩
    | group inner _ _ ih =>
      obtain ⟨u, hu⟩ := ih
      exact ⟨_, .group inner hu⟩
  · rintro ⟨u, h⟩
    induction h with
    | nil => exact .nil
    | char hopening hclosing _ ih => exact .char hopening hclosing ih
    | group inner _ ih => exact .group inner ih

/-! ### From the grammar to the fold -/

section Steps

variable (offset start inner : Nat) (s : Text)

theorem foldFrom_opening :
    foldFrom offset (some (start, inner)) ('(' :: s) =
      foldFrom (offset + 1) (some (start, inner + 1)) s := by
  cases inner <;> rfl

theorem foldFrom_closing :
    foldFrom offset (some (start, inner + 1)) (')' :: s) =
      foldFrom (offset + 1) (some (start, inner)) s :=
  rfl

theorem foldFrom_leave :
    foldFrom offset (some (start, 0)) (')' :: s) =
      (foldFrom (offset + 1) none s).map (placeholder :: ·) :=
  rfl

theorem foldFrom_inside {c : Char} (hopening : c ≠ '(') (hclosing : c ≠ ')') :
    foldFrom offset (some (start, inner)) (c :: s) =
      foldFrom (offset + 1) (some (start, inner)) s := by
  cases inner <;> simp [foldFrom, hopening, hclosing]

end Steps

/-- Inside a group, a balanced text changes nothing. -/
theorem Balanced.foldFrom_append {s : Text} (h : Balanced s) (offset start inner : Nat)
    (rest : Text) :
    foldFrom offset (some (start, inner)) (s ++ rest) =
      foldFrom (offset + s.length) (some (start, inner)) rest := by
  induction h generalizing offset inner rest with
  | nil => rfl
  | @char c s hopening hclosing _ ih =>
    rw [List.cons_append, foldFrom_inside _ _ _ _ hopening hclosing, ih, List.length_cons,
      Nat.add_right_comm, Nat.add_assoc]
  | @group s t _ _ ihs iht =>
    -- one group more is open behind the opening parenthesis, until the one that closes it
    have hassoc : '(' :: (s ++ ')' :: t) ++ rest = '(' :: (s ++ ')' :: (t ++ rest)) := by simp
    have hlength : offset + 1 + s.length + 1 + t.length =
        offset + ('(' :: (s ++ ')' :: t)).length := by
      simp only [List.length_cons, List.length_append]
      omega
    rw [hassoc, foldFrom_opening, ihs, foldFrom_closing, iht, hlength]

theorem Leaves.foldFrom_eq {s u : Text} (h : Leaves s u) (offset : Nat) :
    foldFrom offset none s = .ok u := by
  induction h generalizing offset with
  | nil => rfl
  | char hopening hclosing _ ih =>
    rw [foldFrom, if_neg hopening, if_neg hclosing, ih]
    rfl
  | @group s t u inner _ ih =>
    rw [foldFrom, if_pos rfl, inner.foldFrom_append, foldFrom_leave, ih]
    rfl

/-! ### From the fold to the grammar -/

/-- Inside a group, a closing parenthesis comes behind a balanced text, and then one group less is
open. -/
theorem Folds.exists_balanced {depth : Nat} {s u : Text} (h : Folds (depth + 1) s u) :
    ∃ inner rest v, s = inner ++ ')' :: rest ∧ Balanced inner ∧ Folds depth rest v ∧
      u = if depth = 0 then placeholder :: v else v := by
  induction hn : s.length using Nat.strong_induction_on generalizing depth s with
  | h n ih =>
    cases h with
    | @opening _ s _ rest =>
      have hlt : s.length < n := by simp [← hn]
      obtain ⟨first, tail, v, rfl, hfirst, htail, rfl⟩ := ih s.length hlt rest rfl
      -- the group just opened is closed, and the one around it is closed further on
      have hlt' : tail.length < n := by
        simp only [List.length_append, List.length_cons] at hlt
        omega
      obtain ⟨second, tail, w, rfl, hsecond, htail, hw⟩ := ih tail.length hlt' htail rfl
      exact ⟨'(' :: (first ++ ')' :: second), tail, w, by simp, .group hfirst hsecond, htail, hw⟩
    | closing rest => exact ⟨[], _, _, rfl, .nil, rest, rfl⟩
    | leave rest => exact ⟨[], _, _, rfl, .nil, rest, rfl⟩
    | @inside _ c s _ hopening hclosing rest =>
      have hlt : s.length < n := by simp [← hn]
      obtain ⟨inner, tail, v, rfl, hinner, htail, hu⟩ := ih s.length hlt rest rfl
      exact ⟨c :: inner, tail, v, rfl, .char hopening hclosing hinner, htail, hu⟩

theorem Folds.leaves {s u : Text} (h : Folds 0 s u) : Leaves s u := by
  induction hn : s.length using Nat.strong_induction_on generalizing s u with
  | h n ih =>
    cases h with
    | nil => exact .nil
    | @opening _ s _ rest =>
      obtain ⟨inner, tail, v, rfl, hinner, htail, rfl⟩ := rest.exists_balanced
      have hlt : tail.length < n := by
        simp only [← hn, List.length_cons, List.length_append]
        omega
      exact .group hinner (ih tail.length hlt htail rfl)
    | @outside c s _ hopening hclosing rest =>
      have hlt : s.length < n := by simp [← hn]
      exact .char hopening hclosing (ih s.length hlt rest rfl)

theorem fold_eq_ok_iff {s u : Text} : fold s = .ok u ↔ Leaves s u :=
  ⟨fun h => (folds_of_foldFrom h).leaves, fun h => h.foldFrom_eq 0⟩

theorem exists_fold_eq_ok_iff {s : Text} : (∃ u, fold s = .ok u) ↔ Balanced s := by
  simp only [fold_eq_ok_iff, balanced_iff_exists_leaves]

/-! ### Which parenthesis is to blame -/

/-- Of the first `n` characters of a text, more are closing parentheses than opening ones. -/
def Exceeds (s : Text) (n : Nat) : Prop := (s.take n).count '(' < (s.take n).count ')'

/-- The parenthesis at an offset of a text is to blame for not matching. -/
inductive Blames (s : Text) (offset : Nat) : Prop
  /-- It ends the shortest part of the text with more closing parentheses than opening ones. -/
  | stray (least : IsLeast {n | Exceeds s n} (offset + 1))
  /-- There is no such part, and it opens a group outside of all others that is never closed. -/
  | unclosed (never : ∀ n, ¬ Exceeds s n) (opening : s[offset]? = some '(')
      (before : Balanced (s.take offset))
      (inside : ∀ n, offset < n → n ≤ s.length → (s.take n).count '(' ≠ (s.take n).count ')')

/-- The depth counts parentheses. -/
theorem depth_eq_count_sub_count (s : Text) : depth s = s.count '(' - s.count ')' := by
  induction s with
  | nil => rfl
  | cons c s ih =>
    rw [depth_cons, ih, depthStep]
    split
    · next hopening =>
      rw [hopening, List.count_cons_self, List.count_cons_of_ne (by decide)]
      omega
    · next hopening =>
      split
      · next hclosing =>
        rw [hclosing, List.count_cons_self, List.count_cons_of_ne (by decide)]
        omega
      · next hclosing =>
        rw [List.count_cons_of_ne hopening, List.count_cons_of_ne hclosing]
        omega

theorem exceeds_iff {s : Text} {n : Nat} : Exceeds s n ↔ depth (s.take n) < 0 := by
  rw [Exceeds, depth_eq_count_sub_count]
  omega

theorem staysUp_iff {s : Text} : StaysUp 0 s ↔ ∀ n, ¬ Exceeds s n := by
  constructor
  · intro h n hexceeds
    have hnonneg := h (s.take n) (List.take_prefix n s)
    have hneg := exceeds_iff.mp hexceeds
    omega
  · intro h front hfront
    have hnonneg := h front.length
    rw [exceeds_iff, ← List.prefix_iff_eq_take.mp hfront] at hnonneg
    omega

/-- A closing parenthesis behind matching ones is one too many. -/
theorem exceeds_of_stray {s : Text} {offset : Nat} (hclosing : s[offset]? = some ')')
    (hbefore : Matched (s.take offset)) : Exceeds s (offset + 1) := by
  have htake : s.take (offset + 1) = s.take offset ++ [')'] := by
    rw [List.take_add_one, hclosing, Option.toList_some]
  rw [exceeds_iff, htake, depth_concat, hbefore.2]
  decide

/-- The grammar and the depth say the same of a text. -/
theorem balanced_iff_matched {s : Text} : Balanced s ↔ Matched s := by
  constructor
  · intro h
    obtain ⟨u, hu⟩ := exists_fold_eq_ok_iff.mpr h
    obtain ⟨hup, hdepth⟩ := (folds_of_foldFrom hu).staysUp
    exact ⟨hup, by simpa [depthOf] using hdepth⟩
  · intro h
    cases hfold : fold s with
    | ok u => exact exists_fold_eq_ok_iff.mp ⟨u, hfold⟩
    | error e =>
      obtain ⟨c, hunpaired⟩ := exists_unpaired_of_fold hfold
      cases hunpaired with
      | stray closing before =>
        exact absurd (exceeds_of_stray closing before) (staysUp_iff.mp h.1 _)
      | unclosed unclosed =>
        have hlt := (List.getElem?_eq_some_iff.mp unclosed.opening).1
        have hopen := unclosed.inside s.length hlt le_rfl
        rw [List.take_length, h.2] at hopen
        exact absurd hopen (lt_irrefl 0)

theorem blames_of_unpaired {s : Text} {offset : Nat} {c : Char} (h : Unpaired s offset c) :
    Blames s offset := by
  cases h with
  | stray closing before =>
    refine .stray ⟨exceeds_of_stray closing before, fun n hn => ?_⟩
    by_contra hlt
    have hfront : (s.take offset).take n = s.take n := by
      rw [List.take_take, Nat.min_eq_left (by omega)]
    have hnever := staysUp_iff.mp before.1 n
    rw [Exceeds, hfront] at hnever
    exact hnever hn
  | unclosed unclosed =>
    refine .unclosed (staysUp_iff.mp unclosed.staysUp) unclosed.opening
      (balanced_iff_matched.mpr unclosed.before) fun n hlt hle heq => ?_
    have hopen := unclosed.inside n hlt hle
    rw [depth_eq_count_sub_count, heq] at hopen
    omega

/-- A parenthesis to blame keeps the text from being balanced. -/
theorem Blames.not_balanced {s : Text} {offset : Nat} (h : Blames s offset) : ¬ Balanced s := by
  intro hbalanced
  obtain ⟨hup, hdepth⟩ := balanced_iff_matched.mp hbalanced
  cases h with
  | stray least => exact staysUp_iff.mp hup _ least.1
  | unclosed _ opening _ inside =>
    have hlt := (List.getElem?_eq_some_iff.mp opening).1
    have hne := inside s.length hlt le_rfl
    rw [depth_eq_count_sub_count] at hdepth
    rw [List.take_length] at hne
    omega

/-- Only one parenthesis of a text is to blame. -/
theorem Blames.unique {s : Text} {i j : Nat} (hi : Blames s i) (hj : Blames s j) : i = j := by
  -- the earlier of two unclosed groups is closed where the later one opens
  have hle {i j : Nat} (hbefore : Balanced (s.take j)) (hopening : s[j]? = some '(')
      (hinside : ∀ n, i < n → n ≤ s.length → (s.take n).count '(' ≠ (s.take n).count ')') :
      j ≤ i := by
    by_contra hlt
    have hdepth := (balanced_iff_matched.mp hbefore).2
    have hend := (List.getElem?_eq_some_iff.mp hopening).1
    have hne := hinside j (by omega) hend.le
    rw [depth_eq_count_sub_count] at hdepth
    omega
  cases hi with
  | stray least =>
    cases hj with
    | stray least' => exact Nat.succ_injective (least.unique least')
    | unclosed never _ _ _ => exact absurd least.1 (never _)
  | unclosed never opening before inside =>
    cases hj with
    | stray least => exact absurd least.1 (never _)
    | unclosed _ opening' before' inside' =>
      exact le_antisymm (hle before opening inside') (hle before' opening' inside)

theorem fold_eq_error_iff {s : Text} {offset : Nat} :
    fold s = .error ⟨offset⟩ ↔ Blames s offset := by
  constructor
  · intro h
    obtain ⟨c, hunpaired⟩ := exists_unpaired_of_fold h
    exact blames_of_unpaired hunpaired
  · intro h
    cases hfold : fold s with
    | ok u => exact absurd (exists_fold_eq_ok_iff.mp ⟨u, hfold⟩) h.not_balanced
    | error e =>
      obtain ⟨c, hunpaired⟩ := exists_unpaired_of_fold hfold
      rw [← (blames_of_unpaired hunpaired).unique h]

/-- **Folding accepts exactly the balanced texts and blames the right parenthesis.** It leaves what
the grammar says of a text with matching parentheses. Any other text is refused with the offset of
the one parenthesis that is to blame. -/
theorem fold_spec (s : Text) :
    ((∃ u, fold s = .ok u) ↔ Balanced s) ∧ (∀ u, fold s = .ok u ↔ Leaves s u) ∧
      ∀ offset, fold s = .error ⟨offset⟩ ↔ Blames s offset :=
  ⟨exists_fold_eq_ok_iff, fun _ => fold_eq_ok_iff, fun _ => fold_eq_error_iff⟩

end Group

end Offside
