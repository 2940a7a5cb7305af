import Offside.Proofs.Masking

/-!
# The laws of masking

How far a literal reaches depends on what follows it: a quote behind a backslash is passed over only
if another quote comes later on the line. So it is not clear from the start that a text can be cut,
joined or masked again without a change to the literals found before. The laws say that it can
(`mask_laws`):

* where no literal is open, cutting a text cuts its mask (`mask_take`). A comment starts at such a
  place, so comments can be dropped before masking or after it, and dropping them once is enough;
* a line feed separates two masks (`mask_append_feed`), and text without quotes around a part does
  not touch the mask of the part.
-/

namespace Offside

namespace Literal

/-! ### Cutting -/

/-- A text that has no closing quote has none if it is cut. -/
theorem closing?_take_of_eq_none {s : Text} (h : closing? s = none) (m : Nat) :
    closing? (s.take m) = none := by
  rw [closing?_eq_none_iff] at h ⊢
  intro hmem
  refine h ?_
  rw [← List.take_takeWhile] at hmem
  exact List.mem_of_mem_take hmem

/-- A closing quote is found as well if the text is cut behind it. -/
theorem closing?_take {s : Text} {n m : Nat} (h : closing? s = some n) (hle : n ≤ m) :
    closing? (s.take m) = some n := by
  fun_induction closing? s generalizing n m with
  | case1 => simp at h
  | case2 s =>
    obtain rfl := Option.some.inj h
    obtain ⟨m, rfl⟩ := Nat.exists_eq_add_of_le' hle
    rfl
  | case3 s => simp at h
  | case4 s ih =>
    obtain ⟨n, hn, rfl⟩ := Option.map_eq_some_iff.mp h
    obtain ⟨m, rfl⟩ := Nat.exists_eq_add_of_le' (Nat.le_of_add_left_le hle)
    have hrest := ih hn (Nat.le_of_add_le_add_right hle)
    rw [List.take_succ_cons, List.take_succ_cons, closing?, hrest]
    rfl
  | case5 s ih =>
    obtain rfl := Option.some.inj h
    obtain ⟨m, rfl⟩ := Nat.exists_eq_add_of_le' (Nat.le_of_add_left_le hle)
    rw [List.take_succ_cons, List.take_succ_cons, closing?]
    -- the quote of the pair is the last one of the line, or the one that closes comes later
    cases hs : closing? s with
    | none => rw [closing?_take_of_eq_none hs]
    | some n =>
      rw [hs, Option.getD_some] at hle
      rw [ih hs (Nat.le_of_add_le_add_right hle)]
  | case6 c s hquote hfeed hpair hquoted ih =>
    obtain ⟨n, hn, rfl⟩ := Option.map_eq_some_iff.mp h
    obtain ⟨m, rfl⟩ := Nat.exists_eq_add_of_le' (Nat.le_of_add_left_le hle)
    have hrest := ih hn (Nat.le_of_add_le_add_right hle)
    rw [List.take_succ_cons]
    cases htake : s.take m with
    | nil => simp [htake, closing?] at hrest
    | cons d t =>
      have hs : s = d :: (t ++ s.drop m) := by
        rw [← List.cons_append, ← htake, List.take_append_drop]
      have hpair' : c = '\\' → d ≠ '\\' ∧ d ≠ '"' := fun hc =>
        ⟨fun hd => hpair _ hc (hd ▸ hs), fun hd => hquoted _ hc (hd ▸ hs)⟩
      rw [closing?_cons_other hquote hfeed hpair', ← htake, hrest]
      rfl

private theorem maskFrom_take {n m : Nat} {s : Text} (hle : n ≤ m)
    (h : ¬ Covers (s.drop n) (m - n)) : maskFrom n (s.take m) = (maskFrom n s).take m := by
  fun_induction maskFrom n s generalizing m with
  | case1 n => simp [maskFrom]
  | case2 n c s ih =>
    obtain ⟨m, rfl⟩ := Nat.exists_eq_add_of_le' (Nat.zero_lt_of_lt hle)
    rw [List.take_succ_cons, maskFrom, List.take_succ_cons, ih (by omega) (by simpa using h)]
  | case3 s n hclosing ih =>
    have hlt : n < m := by
      by_contra hge
      exact h (.inside hclosing (by omega))
    obtain ⟨m, rfl⟩ := Nat.exists_eq_add_of_le' (Nat.zero_lt_of_lt hlt)
    have hrest : ¬ Covers (s.drop n) (m - n) := fun hcovers => by
      have hbehind := Covers.behind hclosing hcovers
      rw [show n + 1 + (m - n) = m + 1 by omega] at hbehind
      exact h hbehind
    rw [List.take_succ_cons, maskFrom, if_pos rfl, closing?_take hclosing (by omega)]
    exact congrArg (placeholder :: ·) (ih (by omega) hrest)
  | case4 s hclosing ih =>
    cases m with
    | zero => rfl
    | succ m =>
      have hrest : ¬ Covers s m := fun hcovers => h (.unopened hclosing hcovers)
      rw [List.take_succ_cons, maskFrom, if_pos rfl, closing?_take_of_eq_none hclosing]
      exact congrArg ('"' :: ·) (ih (Nat.zero_le m) hrest)
  | case5 c s hc ih =>
    cases m with
    | zero => rfl
    | succ m =>
      have hrest : ¬ Covers s m := fun hcovers => h (.plain hc hcovers)
      rw [List.take_succ_cons, maskFrom, if_neg hc, List.take_succ_cons, ih (Nat.zero_le m) hrest]

/-- A text that is cut in front of a character in no literal keeps its mask. -/
theorem mask_take {s : Text} {m : Nat} (h : ¬ Covers s m) :
    mask (s.take m) = (mask s).take m :=
  maskFrom_take (Nat.zero_le m) h

/-! ### Joining -/

/-- Physical lines are masked one by one. -/
theorem mask_append_feed (s t : Text) : mask (s ++ '\n' :: t) = mask s ++ '\n' :: mask t := by
  have hfeed : closing? ('\n' :: t) = none := rfl
  rw [mask_append hfeed, mask, mask, maskFrom_zero_cons_of_ne (by decide), mask]

theorem mask_between {s t : Text} (hs : '"' ∉ s) (ht : '"' ∉ t) (text : Text) :
    mask (s ++ text ++ t) = s ++ mask text ++ t := by
  rw [mask_append_right ht, mask_append_left hs]

end Literal

/-! ### Comments -/

namespace Comment

theorem start?_mask (s : Text) : start? (Literal.mask s) = start? s := by
  rw [start?, Literal.mask_mask, start?]

theorem not_covers_of_start? {s : Text} {i : Nat} (h : start? s = some i) :
    ¬ Literal.Covers s i := by
  obtain ⟨hlt, hmarker, -⟩ := List.findIdx?_eq_some_iff_getElem.mp h
  have hshown : (Literal.mask s)[i]? = some marker := by
    rw [List.getElem?_eq_getElem hlt, beq_iff_eq.mp hmarker]
  exact (Literal.getElem?_of_getElem?_mask hshown (by decide)).2

/-- A comment may be dropped before masking or after it. -/
theorem strip_mask_eq_mask_strip (s : Text) :
    strip (Literal.mask s) = Literal.mask (strip s) := by
  rw [strip, start?_mask, strip]
  cases h : start? s with
  | none => rfl
  | some i => exact (Literal.mask_take (not_covers_of_start? h)).symm

/-- No comment is left where one was dropped. -/
theorem strip_strip (s : Text) : strip (strip s) = strip s := by
  have hnone : start? (strip s) = none := by
    rw [start?_eq_none_iff, ← strip_mask_eq_mask_strip, strip_mask]
    intro hmem
    simpa using List.mem_takeWhile_imp hmem
  rw [strip, hnone]

end Comment

namespace Literal

/-- **The laws of masking.** A mask has the length of its text, hides the literals, agrees with the
text outside of them and has no literal left. So comments start at the same place, and they may be
dropped before masking or after it, once or twice. Physical lines are masked one by one, and text
without quotes around a part passes through. -/
theorem mask_laws (text : Text) :
    (mask text).length = text.length ∧
      (∀ i, (Covers text i → (mask text)[i]? = some placeholder) ∧
        (¬ Covers text i → (mask text)[i]? = text[i]?)) ∧
      mask (mask text) = mask text ∧
      Comment.start? (mask text) = Comment.start? text ∧
      Comment.strip (mask text) = mask (Comment.strip text) ∧
      Comment.strip (Comment.strip text) = Comment.strip text ∧
      (∀ next, mask (text ++ '\n' :: next) = mask text ++ '\n' :: mask next) ∧
      ∀ s t, '"' ∉ s → '"' ∉ t → mask (s ++ text ++ t) = s ++ mask text ++ t :=
  ⟨length_mask text, fun _ => ⟨Covers.getElem?_mask, getElem?_mask_of_not_covers⟩, mask_mask text,
    Comment.start?_mask text, Comment.strip_mask_eq_mask_strip text, Comment.strip_strip text,
    mask_append_feed text, fun _ _ hs ht => mask_between hs ht text⟩

/-- A literal with a pair and a marker in it, one that closes at the second half of a pair, and a
comment. The first quote is in a literal and the marker of the comment is not. -/
theorem mask_laws_pairs :
    let text := "\"a\\\";\" \"b\\\" ; \\".toList
    Covers text 0 ∧ (mask text)[0]? = some placeholder ∧
      ¬ Covers text 12 ∧ (mask text)[12]? = text[12]? ∧
      mask ("x ".toList ++ text ++ ";".toList) = "x ".toList ++ mask text ++ ";".toList := by
  intro text
  obtain ⟨-, hcovers, -, -, -, -, -, hbetween⟩ := mask_laws text
  have hinside : Covers text 0 := .inside (n := 5) (by decide) (Nat.zero_le 5)
  have houtside : ¬ Covers text 12 := Comment.not_covers_of_start? (by decide)
  exact ⟨hinside, (hcovers 0).1 hinside, houtside, (hcovers 12).2 houtside,
    hbetween _ _ (by decide) (by decide)⟩

end Literal

end Offside
