import Mathlib.Data.List.Basic
import Mathlib.Data.List.TakeWhile
import Offside.Comment

/-!
# Masked texts

What masking does to a text that is put together from parts. A quote opens a literal exactly when
another quote follows on the same physical line (`closing?_eq_none_iff`), so parts without quotes
pass through a mask, in front and behind (`mask_append_left`, `mask_append_right`). A second mask
finds nothing left to do (`mask_mask`), and hence the text in front of the comment of a masked
line is read off its mask (`strip_mask`).
-/

namespace Offside

theorem Text.bne_of_not_mem {c : Char} {s : Text} (h : c ∉ s) : ∀ d ∈ s, (d != c) = true := by
  intro d hd
  have hne : d ≠ c := fun heq => h (heq ▸ hd)
  simpa using hne

namespace Literal

/-! ### Closing quotes -/

theorem closing?_cons_other {c d : Char} {s : Text} (hquote : c ≠ '"') (hfeed : c ≠ '\n')
    (hpair : c = '\\' → d ≠ '\\' ∧ d ≠ '"') :
    closing? (c :: d :: s) = (closing? (d :: s)).map (· + 1) := by
  rw [closing?]
  · simpa using hquote
  · simpa using hfeed
  · intro s' hc hs
    simp only [List.cons.injEq] at hs
    exact (hpair hc).1 hs.1
  · intro s' hc hs
    simp only [List.cons.injEq] at hs
    exact (hpair hc).2 hs.1

/-- There is no literal exactly when no quote follows on the physical line. -/
theorem closing?_eq_none_iff {s : Text} :
    closing? s = none ↔ '"' ∉ s.takeWhile (· != '\n') := by
  fun_induction closing? s with
  | case1 => simp
  | case2 s => simp
  | case3 s => simp
  | case4 s ih => simpa using ih
  | case5 s ih => simp
  | case6 c s hquote hfeed _ _ ih =>
    have hfeed' : (c != '\n') = true := by simpa using hfeed
    rw [Option.map_eq_none_iff, ih, List.takeWhile_cons, if_pos hfeed', List.mem_cons, not_or]
    exact ⟨fun h => ⟨fun hc => hquote hc.symm, h⟩, fun h => h.2⟩

theorem closing?_eq_none_of_not_mem {s : Text} (h : '"' ∉ s) : closing? s = none :=
  closing?_eq_none_iff.mpr fun hmem => h ((List.takeWhile_prefix _).subset hmem)

theorem closing?_cons_eq_none {c : Char} {s : Text} (hc : c ≠ '"') (h : closing? s = none) :
    closing? (c :: s) = none := by
  rw [closing?_eq_none_iff] at h ⊢
  rw [List.takeWhile_cons]
  split
  · exact List.not_mem_cons_of_ne_of_not_mem (Ne.symm hc) h
  · exact List.not_mem_nil

/-- What is added behind a text closes no literal of the text if it has no quote on its first
physical line. -/
theorem closing?_append {s : Text} (hs : closing? s = none) (t : Text) :
    closing? (t ++ s) = closing? t := by
  fun_induction closing? t with
  | case1 => exact hs
  | case2 t => rfl
  | case3 t => rfl
  | case4 t ih => simp [closing?, ih]
  | case5 t ih => simp [closing?, ih]
  | case6 c t hquote hfeed hpair hquoted ih =>
    cases t with
    | nil =>
      -- the pair that the last character might begin has no quote
      simpa [closing?] using closing?_cons_eq_none hquote hs
    | cons d t =>
      have hpair' : c = '\\' → d ≠ '\\' ∧ d ≠ '"' := fun hc =>
        ⟨fun hd => hpair t hc (by rw [hd]), fun hd => hquoted t hc (by rw [hd])⟩
      rw [List.cons_append, List.cons_append, closing?_cons_other hquote hfeed hpair',
        ← List.cons_append, ih]

theorem closing?_le_length {s : Text} {n : Nat} (h : closing? s = some n) : n ≤ s.length := by
  fun_induction closing? s generalizing n with
  | case1 => simp at h
  | case2 s =>
    obtain rfl := Option.some.inj h
    simp
  | case3 s => simp at h
  | case4 s ih =>
    obtain ⟨m, hm, rfl⟩ := Option.map_eq_some_iff.mp h
    have := ih hm
    simp only [List.length_cons]
    omega
  | case5 s ih =>
    obtain rfl := Option.some.inj h
    cases hs : closing? s with
    | none => simp
    | some m =>
      have := ih hs
      simp only [Option.getD_some, List.length_cons]
      omega
  | case6 c s _ _ _ _ ih =>
    obtain ⟨m, hm, rfl⟩ := Option.map_eq_some_iff.mp h
    have := ih hm
    simp only [List.length_cons]
    omega

/-! ### Masks of texts put together -/

theorem maskFrom_zero_cons_of_ne {c : Char} (h : c ≠ '"') (s : Text) :
    maskFrom 0 (c :: s) = c :: maskFrom 0 s := by
  rw [maskFrom, if_neg h]

/-- The first character of a mask. -/
theorem exists_mask_cons (c : Char) (s : Text) :
    ∃ m rest, mask (c :: s) = m :: rest ∧ (m = c ∨ m = placeholder) := by
  rw [mask, maskFrom]
  split
  · split
    · exact ⟨placeholder, _, rfl, .inr rfl⟩
    · exact ⟨c, _, rfl, .inl rfl⟩
  · exact ⟨c, _, rfl, .inl rfl⟩

@[simp]
theorem length_maskFrom (n : Nat) (s : Text) : (maskFrom n s).length = s.length := by
  fun_induction maskFrom n s with
  | case1 => rfl
  | case2 n c s ih => simp [ih]
  | case3 s n h ih => simp [ih]
  | case4 s h ih => simp [ih]
  | case5 c s h ih => simp [ih]

/-- Masking keeps the length of a text. -/
@[simp]
theorem length_mask (s : Text) : (mask s).length = s.length := length_maskFrom 0 s

theorem mask_eq_self_of_not_mem {s : Text} (h : '"' ∉ s) : mask s = s := by
  induction s with
  | nil => rfl
  | cons c s ih =>
    simp only [List.mem_cons, not_or] at h
    rw [mask, maskFrom_zero_cons_of_ne (Ne.symm h.1)]
    exact congrArg (c :: ·) (ih h.2)

/-- A part without quotes in front passes through the mask. -/
theorem mask_append_left {s : Text} (h : '"' ∉ s) (t : Text) : mask (s ++ t) = s ++ mask t := by
  induction s with
  | nil => rfl
  | cons c s ih =>
    simp only [List.mem_cons, not_or] at h
    rw [List.cons_append, mask, maskFrom_zero_cons_of_ne (Ne.symm h.1)]
    exact congrArg (c :: ·) (ih h.2)

private theorem maskFrom_append {s : Text} (hs : closing? s = none) :
    ∀ (t : Text) (n : Nat), n ≤ t.length → maskFrom n (t ++ s) = maskFrom n t ++ mask s := by
  intro t
  induction t with
  | nil =>
    intro n hn
    obtain rfl : n = 0 := by simpa using hn
    rfl
  | cons c t ih =>
    intro n hn
    cases n with
    | succ n => simp [maskFrom, ih n (by simpa using hn)]
    | zero =>
      rw [List.cons_append, maskFrom, maskFrom]
      by_cases hc : c = '"'
      · rw [if_pos hc, if_pos hc, closing?_append hs]
        cases hclosing : closing? t with
        | none => simp [ih 0 (by omega)]
        | some m => simp [ih m (closing?_le_length hclosing)]
      · simp [if_neg hc, ih 0 (by omega)]

/-- Texts are masked one by one if the second has no quote on its first physical line. -/
theorem mask_append {s : Text} (h : closing? s = none) (t : Text) :
    mask (t ++ s) = mask t ++ mask s :=
  maskFrom_append h t 0 (by omega)

/-- A part without quotes behind passes through the mask. -/
theorem mask_append_right {s : Text} (h : '"' ∉ s) (t : Text) : mask (t ++ s) = mask t ++ s := by
  rw [mask_append (closing?_eq_none_of_not_mem h), mask_eq_self_of_not_mem h]

/-! ### Masking twice -/

/-- A physical line without quotes has none in its mask. -/
private theorem not_mem_takeWhile_mask {s : Text} (h : '"' ∉ s.takeWhile (· != '\n')) :
    '"' ∉ (mask s).takeWhile (· != '\n') := by
  induction s with
  | nil => simp [mask, maskFrom]
  | cons c s ih =>
    by_cases hfeed : c = '\n'
    · subst hfeed
      rw [mask, maskFrom_zero_cons_of_ne (by decide)]
      simp
    · have hfeed' : (c != '\n') = true := by simpa using hfeed
      rw [List.takeWhile_cons, if_pos hfeed', List.mem_cons, not_or] at h
      rw [mask, maskFrom_zero_cons_of_ne (Ne.symm h.1), List.takeWhile_cons, if_pos hfeed',
        List.mem_cons, not_or]
      exact ⟨h.1, ih h.2⟩

private theorem mask_maskFrom (n : Nat) (s : Text) : mask (maskFrom n s) = maskFrom n s := by
  fun_induction maskFrom n s with
  | case1 => rfl
  | case2 n c s ih =>
    rw [mask, maskFrom_zero_cons_of_ne (by decide)]
    exact congrArg (placeholder :: ·) ih
  | case3 s n hclosing ih =>
    rw [mask, maskFrom_zero_cons_of_ne (by decide)]
    exact congrArg (placeholder :: ·) ih
  | case4 s hclosing ih =>
    -- no quote follows on the line, so none follows in the mask
    have hnone : closing? (maskFrom 0 s) = none :=
      closing?_eq_none_iff.mpr (not_mem_takeWhile_mask (closing?_eq_none_iff.mp hclosing))
    rw [mask, maskFrom, if_pos rfl, hnone]
    exact congrArg ('"' :: ·) ih
  | case5 c s hc ih =>
    rw [mask, maskFrom_zero_cons_of_ne hc]
    exact congrArg (c :: ·) ih

/-- A mask has no literal left. -/
@[simp]
theorem mask_mask (s : Text) : mask (mask s) = mask s := mask_maskFrom 0 s

/-! ### Positions in literals -/

/-- The character at an offset belongs to a string literal of the text. -/
inductive Covers : Text → Nat → Prop
  | inside {s : Text} {n i : Nat} (closes : closing? s = some n) (le : i ≤ n) :
      Covers ('"' :: s) i
  | behind {s : Text} {n i : Nat} (closes : closing? s = some n) (rest : Covers (s.drop n) i) :
      Covers ('"' :: s) (n + 1 + i)
  /-- A quote that nothing closes opens no literal. -/
  | unopened {s : Text} {i : Nat} (closes : closing? s = none) (rest : Covers s i) :
      Covers ('"' :: s) (i + 1)
  | plain {c : Char} {s : Text} {i : Nat} (quote : c ≠ '"') (rest : Covers s i) :
      Covers (c :: s) (i + 1)

/-- What remains of a literal is masked as a whole. -/
theorem maskFrom_eq {n : Nat} {s : Text} (h : n ≤ s.length) :
    maskFrom n s = List.replicate n placeholder ++ mask (s.drop n) := by
  induction n generalizing s with
  | zero => simp [mask]
  | succ n ih =>
    obtain ⟨c, s, rfl⟩ := List.exists_cons_of_length_pos (Nat.zero_lt_of_lt h)
    have hs : n ≤ s.length := by simpa using h
    rw [maskFrom, ih hs, List.replicate_succ, List.drop_succ_cons, List.cons_append]

theorem mask_quote_of_closing? {s : Text} {n : Nat} (h : closing? s = some n) :
    mask ('"' :: s) = List.replicate (n + 1) placeholder ++ mask (s.drop n) := by
  rw [mask, maskFrom, if_pos rfl, h, List.replicate_succ, List.cons_append,
    ← maskFrom_eq (closing?_le_length h)]

/-- Every character of a literal is masked. -/
theorem Covers.getElem?_mask {s : Text} {i : Nat} (h : Covers s i) :
    (mask s)[i]? = some placeholder := by
  induction h with
  | @inside s n i closes le =>
    have hlt : i < (List.replicate (n + 1) placeholder).length := by
      rw [List.length_replicate]
      omega
    rw [mask_quote_of_closing? closes, List.getElem?_append_left hlt,
      List.getElem?_replicate_of_lt (by omega)]
  | @behind s n i closes rest ih =>
    rw [mask_quote_of_closing? closes, List.getElem?_append_right (by simp)]
    simpa using ih
  | unopened closes rest ih =>
    rw [mask, maskFrom, if_pos rfl, closes]
    exact ih
  | plain quote rest ih =>
    rw [mask, maskFrom_zero_cons_of_ne quote]
    exact ih

private theorem getElem?_maskFrom {n i : Nat} {s : Text} (hle : n ≤ i)
    (h : ¬ Covers (s.drop n) (i - n)) : (maskFrom n s)[i]? = s[i]? := by
  fun_induction maskFrom n s generalizing i with
  | case1 => rfl
  | case2 n c s ih =>
    obtain ⟨i, rfl⟩ := Nat.exists_eq_add_of_le' (Nat.zero_lt_of_lt hle)
    rw [List.getElem?_cons_succ, List.getElem?_cons_succ]
    exact ih (by omega) (by simpa using h)
  | case3 s n hclosing ih =>
    have hlt : n < i := by
      by_contra hge
      exact h (.inside hclosing (by omega))
    obtain ⟨i, rfl⟩ := Nat.exists_eq_add_of_le' (Nat.zero_lt_of_lt hlt)
    rw [List.getElem?_cons_succ, List.getElem?_cons_succ]
    refine ih (by omega) fun hcovers => h ?_
    have hbehind := Covers.behind hclosing hcovers
    rwa [show n + 1 + (i - n) = i + 1 by omega] at hbehind
  | case4 s hclosing ih =>
    cases i with
    | zero => rfl
    | succ i => exact ih (Nat.zero_le i) fun hcovers => h (.unopened hclosing hcovers)
  | case5 c s hc ih =>
    cases i with
    | zero => rfl
    | succ i => exact ih (Nat.zero_le i) fun hcovers => h (.plain hc hcovers)

/-- What is in no literal is not masked. -/
theorem getElem?_mask_of_not_covers {s : Text} {i : Nat} (h : ¬ Covers s i) :
    (mask s)[i]? = s[i]? :=
  getElem?_maskFrom (Nat.zero_le i) h

/-- A character that shows in the mask stands in the text at the same place, in no literal. -/
theorem getElem?_of_getElem?_mask {s : Text} {i : Nat} {m : Char} (h : (mask s)[i]? = some m)
    (hm : m ≠ placeholder) : s[i]? = some m ∧ ¬ Covers s i := by
  have hcovers : ¬ Covers s i := fun hcovers =>
    hm (Option.some.inj (h.symm.trans hcovers.getElem?_mask))
  exact ⟨by rw [← getElem?_mask_of_not_covers hcovers, h], hcovers⟩

end Literal

namespace Comment

/-! ### The text in front of a comment -/

theorem start?_eq_none_iff {s : Text} : start? s = none ↔ marker ∉ Literal.mask s := by
  rw [start?, List.findIdx?_eq_none_iff]
  constructor
  · intro h hmem
    simpa using h marker hmem
  · intro h c hc
    simpa using fun heq : c = marker => h (heq ▸ hc)

/-- The text in front of the comment of a masked line. -/
theorem strip_mask (s : Text) :
    strip (Literal.mask s) = (Literal.mask s).takeWhile (· != marker) := by
  rw [strip, start?, Literal.mask_mask]
  cases h : (Literal.mask s).findIdx? (· == marker) with
  | none =>
    rw [List.findIdx?_eq_none_iff] at h
    exact (List.takeWhile_eq_self_iff.mpr fun c hc => by simpa using h c hc).symm
  | some i =>
    rw [List.findIdx?_eq_some_iff_findIdx_eq] at h
    rw [List.takeWhile_eq_take_findIdx_not, ← h.2]
    simp [bne]

/-- A part without quotes and semicolons in front passes through. -/
theorem strip_mask_append_left {s : Text} (hquote : '"' ∉ s) (hmarker : marker ∉ s) (t : Text) :
    strip (Literal.mask (s ++ t)) = s ++ strip (Literal.mask t) := by
  rw [strip_mask, strip_mask, Literal.mask_append_left hquote,
    List.takeWhile_append_of_pos (Text.bne_of_not_mem hmarker)]

end Comment

end Offside
