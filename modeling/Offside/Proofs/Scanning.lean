import Mathlib.Data.List.Basic
import Offside.Proofs.Masking

/-!
# Literals by pattern and by scanner

String literals are specified here twice, without `closing?`, and both specifications give the
literals that are masked (`mask_eq_replaceAll_and_scan`).

* A **pattern**: a quote, as few units as possible, a quote, where a unit is a pair of backslashes,
  a backslash with a quote, or any character but a line feed. The alternatives overlap, so there
  are many ways to match a text. A matcher tries them in order, going back to the last choice
  whenever it is stuck, and takes the first that succeeds.
* A **scanner** that never goes back: a quote opens a literal if another one follows on the line.
  The literal ends at the first quote that is left over when pairs are taken from left to right, or,
  if there is none, at the last quote of the line.

What makes them agree is that going back helps only once. The pattern passes over any characters, so
after a pair it is stuck only if the line has no further quote (`exists_front_of_mem_closings`), and
then the pair was the last chance: its quote closes the literal.
-/

namespace Offside

/-! ### Patterns -/

/-- A pattern for the beginning of a text. -/
inductive Pattern where
  | char (c : Char)
  /-- Any character but a line feed. -/
  | dot
  | seq (first second : Pattern)
  /-- The first of two patterns, or else the second. -/
  | alt (first second : Pattern)
  /-- A pattern again and again, as few times as possible. -/
  | lazy (body : Pattern)
  deriving DecidableEq, Repr

namespace Pattern

/-- The places that are reached by any number of steps forward. To stop comes before to go on, and
all that one step leads to comes before what the next one leads to. -/
def repeats (step : Text → List Text) (s : Text) : List Text :=
  s :: ((step s).filter (·.length < s.length)).attach.flatMap fun rest => repeats step rest.1
termination_by s.length
decreasing_by simpa using (List.mem_filter.mp rest.2).2

/-- What is left of a text behind the pattern, for every way to match it, in the order in which a
matcher that goes back to the last choice comes upon them. -/
def rests : Pattern → Text → List Text
  | char c, s => if s.head? = some c then [s.tail] else []
  | dot, s => if s.head?.all (· == '\n') then [] else [s.tail]
  | seq first second, s => (first.rests s).flatMap second.rests
  | alt first second, s => first.rests s ++ second.rests s
  | lazy body, s => repeats body.rests s

/-- What is left of a text behind the match that is taken. -/
def match? (p : Pattern) (s : Text) : Option Text := (p.rests s).head?

/-- One unit of the inside of a literal. -/
def unit : Pattern := alt (seq (char '\\') (char '\\')) (alt (seq (char '\\') (char '"')) dot)

/-- A string literal. -/
def literal : Pattern := seq (char '"') (seq (lazy unit) (char '"'))

end Pattern

/-! ### Replacing what is found -/

/-- Write a character over all that is found in a text, from left to right. What is found at a place
is given by the text that it leaves behind. -/
def replaceFound (find : Text → Option Text) (mark : Char) : Text → Text
  | [] => []
  | c :: s =>
    match find (c :: s) with
    | none => c :: replaceFound find mark s
    | some rest =>
      if rest.length ≤ s.length then
        List.replicate ((c :: s).length - rest.length) mark ++ replaceFound find mark rest
      else c :: replaceFound find mark s
termination_by s => s.length

/-- Write a character over all matches of a pattern, each behind the end of the one before. -/
def Pattern.replaceAll (p : Pattern) (mark : Char) (s : Text) : Text :=
  replaceFound p.match? mark s

/-! ### The scanner -/

namespace Literal

/-- The offset of the first quote that is left over when pairs are taken from left to right. -/
def firstUnpaired? : Text → Option Nat
  | [] => none
  | '"' :: _ => some 0
  | '\\' :: '\\' :: s => (firstUnpaired? s).map (· + 2)
  | '\\' :: '"' :: s => (firstUnpaired? s).map (· + 2)
  | _ :: s => (firstUnpaired? s).map (· + 1)

/-- The offset of the last quote of a text that has one. -/
def lastQuote : Text → Nat
  | [] => 0
  | _ :: s => if '"' ∈ s then lastQuote s + 1 else 0

/-- The offset of the quote that ends a literal in the rest of its line, which has a quote. -/
def endQuote (line : Text) : Nat := (firstUnpaired? line).getD (lastQuote line)

/-- What is left of a text behind the literal that it begins with, if it begins with one. -/
def behindLiteral? : Text → Option Text
  | [] => none
  | c :: s =>
    let line := s.takeWhile (· != '\n')
    if c = '"' ∧ '"' ∈ line then some (s.drop (endQuote line + 1)) else none

/-- Write the placeholder over every literal in one pass. -/
def scan (s : Text) : Text := replaceFound behindLiteral? placeholder s

end Literal

/-! ### All ways to close a literal -/

namespace Pattern

theorem repeats_eq (step : Text → List Text) (s : Text) :
    repeats step s = s :: ((step s).filter (·.length < s.length)).flatMap (repeats step) := by
  rw [repeats, List.flatMap_subtype (g := repeats step) (by simp), List.unattach_attach]

theorem rests_unit_nil : unit.rests [] = [] := rfl

/-- A unit is a pair, if there is one, or a single character. -/
theorem rests_unit_cons (c : Char) (s : Text) :
    unit.rests (c :: s) =
      (if c = '\\' ∧ (s.head? = some '\\' ∨ s.head? = some '"') then [s.tail] else []) ++
        if c = '\n' then [] else [s] := by
  by_cases hc : c = '\\'
  · subst hc
    by_cases hs : s.head? = some '\\'
    · simp [unit, rests, hs]
    · by_cases hs' : s.head? = some '"' <;> simp [unit, rests, hs, hs']
  · by_cases hfeed : c = '\n' <;> simp [unit, rests, hc, hfeed]

/-- A unit is not empty and has no line feed. -/
theorem exists_front_of_mem_rests_unit {s rest : Text} (h : rest ∈ unit.rests s) :
    ∃ front, s = front ++ rest ∧ front ≠ [] ∧ '\n' ∉ front := by
  cases s with
  | nil => simp [rests_unit_nil] at h
  | cons c s =>
    rw [rests_unit_cons, List.mem_append] at h
    rcases h with h | h
    · obtain ⟨⟨rfl, hs⟩, hrest⟩ := List.mem_ite_nil_right.mp h
      obtain rfl := List.mem_singleton.mp hrest
      rcases hs with hs | hs
      · obtain ⟨t, rfl⟩ := List.head?_eq_some_iff.mp hs
        exact ⟨['\\', '\\'], rfl, List.cons_ne_nil _ _, by decide⟩
      · obtain ⟨t, rfl⟩ := List.head?_eq_some_iff.mp hs
        exact ⟨['\\', '"'], rfl, List.cons_ne_nil _ _, by decide⟩
    · obtain ⟨hfeed, hrest⟩ := List.mem_ite_nil_left.mp h
      obtain rfl := List.mem_singleton.mp hrest
      exact ⟨[c], rfl, List.cons_ne_nil _ _, by simpa using Ne.symm hfeed⟩

/-- What is left behind the closing quote, for all ways to close a literal whose opening quote is
already behind. -/
def closings (s : Text) : List Text := (seq (lazy unit) (char '"')).rests s

/-- A literal closes at once or behind one more unit. -/
theorem closings_eq (s : Text) :
    closings s = (char '"').rests s ++ (unit.rests s).flatMap closings := by
  have hforward : (unit.rests s).filter (·.length < s.length) = unit.rests s := by
    refine List.filter_eq_self.mpr fun rest hrest => ?_
    obtain ⟨front, rfl, hne, -⟩ := exists_front_of_mem_rests_unit hrest
    have hpos := List.length_pos_iff.mpr hne
    simpa using hpos
  have hseq : closings s = (repeats unit.rests s).flatMap (char '"').rests := rfl
  rw [hseq, repeats_eq, hforward, List.flatMap_cons, List.flatMap_assoc]
  rfl

/-- However a literal is closed, there is no line feed before its closing quote. -/
theorem exists_front_of_mem_closings {s rest : Text} (h : rest ∈ closings s) :
    ∃ front, s = front ++ '"' :: rest ∧ '\n' ∉ front := by
  induction hn : s.length using Nat.strong_induction_on generalizing s with
  | h n ih =>
    rw [closings_eq, List.mem_append, List.mem_flatMap] at h
    rcases h with h | ⟨next, hnext, hrest⟩
    · obtain ⟨hs, hrest⟩ := List.mem_ite_nil_right.mp h
      obtain ⟨t, rfl⟩ := List.head?_eq_some_iff.mp hs
      obtain rfl := List.mem_singleton.mp hrest
      exact ⟨[], rfl, List.not_mem_nil⟩
    · obtain ⟨front, rfl, hne, hfeed⟩ := exists_front_of_mem_rests_unit hnext
      have hpos := List.length_pos_iff.mpr hne
      have hlt : next.length < n := by
        rw [← hn, List.length_append]
        omega
      obtain ⟨front', rfl, hfeed'⟩ := ih next.length hlt hrest rfl
      refine ⟨front ++ front', (List.append_assoc ..).symm, ?_⟩
      rw [List.mem_append, not_or]
      exact ⟨hfeed, hfeed'⟩

/-- Where no quote follows on the line, nothing closes a literal. -/
theorem closings_eq_nil {s : Text} (h : Literal.closing? s = none) : closings s = [] := by
  rw [Literal.closing?_eq_none_iff] at h
  refine List.eq_nil_iff_forall_not_mem.mpr fun rest hrest => h ?_
  obtain ⟨front, rfl, hfeed⟩ := exists_front_of_mem_closings hrest
  rw [List.takeWhile_append_of_pos (Text.bne_of_not_mem hfeed), List.mem_append]
  exact .inr (by simp)

/-- The first way to close a literal is the one that is masked. -/
theorem head?_closings (s : Text) : (closings s).head? = (Literal.closing? s).map (s.drop ·) := by
  fun_induction Literal.closing? s with
  | case1 =>
    rw [closings_eq]
    rfl
  | case2 s =>
    rw [closings_eq]
    rfl
  | case3 s =>
    rw [closings_eq, rests_unit_cons]
    rfl
  | case4 s ih =>
    have hnone : Literal.closing? s = none → closings ('\\' :: s) = [] := fun h =>
      closings_eq_nil (Literal.closing?_cons_eq_none (by decide) h)
    have hclosings : closings ('\\' :: '\\' :: s) = closings s ++ closings ('\\' :: s) := by
      rw [closings_eq, rests_unit_cons]
      simp [rests]
    rw [hclosings, List.head?_append, ih]
    cases hs : Literal.closing? s with
    | none => simp [hnone hs]
    | some n => simp
  | case5 s ih =>
    have hclosings : closings ('\\' :: '"' :: s) = closings s ++ closings ('"' :: s) := by
      rw [closings_eq, rests_unit_cons]
      simp [rests]
    have hhead : (closings ('"' :: s)).head? = some s := by
      rw [closings_eq]
      rfl
    rw [hclosings, List.head?_append, ih, hhead]
    cases hs : Literal.closing? s with
    | none => simp
    | some n => simp
  | case6 c s hquote hfeed hpair hquoted ih =>
    have hc : ¬ (c = '\\' ∧ (s.head? = some '\\' ∨ s.head? = some '"')) := by
      rintro ⟨hc, hs | hs⟩
      · obtain ⟨t, ht⟩ := List.head?_eq_some_iff.mp hs
        exact hpair t hc ht
      · obtain ⟨t, ht⟩ := List.head?_eq_some_iff.mp hs
        exact hquoted t hc ht
    have hclosings : closings (c :: s) = closings s := by
      rw [closings_eq, rests_unit_cons, if_neg hc, if_neg hfeed]
      simp [rests, show c ≠ '"' from hquote]
    rw [hclosings, ih]
    cases Literal.closing? s with
    | none => rfl
    | some n => rfl

theorem match?_literal (c : Char) (s : Text) :
    literal.match? (c :: s) = if c = '"' then (Literal.closing? s).map (s.drop ·) else none := by
  have hrests : literal.rests (c :: s) = if c = '"' then closings s else [] := by
    have hseq : literal.rests (c :: s) = ((char '"').rests (c :: s)).flatMap closings := rfl
    rw [hseq]
    by_cases hc : c = '"' <;> simp [rests, hc]
  rw [match?, hrests]
  split
  · exact head?_closings s
  · rfl

end Pattern

/-! ### Where the scanner ends a literal -/

namespace Literal

theorem firstUnpaired?_eq_none {s : Text} (h : '"' ∉ s) : firstUnpaired? s = none := by
  fun_induction firstUnpaired? s with
  | case1 => rfl
  | case2 s => simp at h
  | case3 s ih => simp [ih (by simpa using h)]
  | case4 s ih => simp at h
  | case5 c s _ _ _ ih => simp [ih fun hmem => h (List.mem_cons_of_mem c hmem)]

theorem firstUnpaired?_cons_other {c : Char} {s : Text} (hquote : c ≠ '"')
    (hpair : c = '\\' → ∀ d ∈ s.head?, d ≠ '\\' ∧ d ≠ '"') :
    firstUnpaired? (c :: s) = (firstUnpaired? s).map (· + 1) := by
  rw [firstUnpaired?]
  · simpa using hquote
  · rintro t hc rfl
    exact (hpair hc _ rfl).1 rfl
  · rintro t hc rfl
    exact (hpair hc _ rfl).2 rfl

section EndQuote

variable {s : Text} (h : '"' ∈ s)

include h

theorem endQuote_backslashes : endQuote ('\\' :: '\\' :: s) = endQuote s + 2 := by
  rw [endQuote, firstUnpaired?, lastQuote, if_pos (List.mem_cons_of_mem _ h), lastQuote, if_pos h,
    Option.getD_map, endQuote]

theorem endQuote_quoted : endQuote ('\\' :: '"' :: s) = endQuote s + 2 := by
  rw [endQuote, firstUnpaired?, lastQuote, if_pos List.mem_cons_self, lastQuote, if_pos h,
    Option.getD_map, endQuote]

theorem endQuote_cons_other {c : Char} (hquote : c ≠ '"')
    (hpair : c = '\\' → ∀ d ∈ s.head?, d ≠ '\\' ∧ d ≠ '"') :
    endQuote (c :: s) = endQuote s + 1 := by
  rw [endQuote, firstUnpaired?_cons_other hquote hpair, lastQuote, if_pos h, Option.getD_map,
    endQuote]

end EndQuote

/-- The quote of a pair ends a literal if it is the last one. -/
theorem endQuote_quoted_of_not_mem {s : Text} (h : '"' ∉ s) : endQuote ('\\' :: '"' :: s) = 1 := by
  rw [endQuote, firstUnpaired?, firstUnpaired?_eq_none h, lastQuote, if_pos List.mem_cons_self,
    lastQuote, if_neg h]
  rfl

/-- A literal closes where the scanner says. -/
theorem closing?_eq_some_endQuote {s : Text} (h : '"' ∈ s.takeWhile (· != '\n')) :
    closing? s = some (endQuote (s.takeWhile (· != '\n')) + 1) := by
  fun_induction closing? s with
  | case1 => simp at h
  | case2 s => rfl
  | case3 s => simp at h
  | case4 s ih =>
    have hs : '"' ∈ s.takeWhile (· != '\n') := by simpa using h
    have hline : ('\\' :: '\\' :: s).takeWhile (· != '\n') =
        '\\' :: '\\' :: s.takeWhile (· != '\n') := rfl
    rw [ih hs, hline, endQuote_backslashes hs]
    rfl
  | case5 s ih =>
    have hline : ('\\' :: '"' :: s).takeWhile (· != '\n') =
        '\\' :: '"' :: s.takeWhile (· != '\n') := rfl
    by_cases hs : '"' ∈ s.takeWhile (· != '\n')
    · rw [ih hs, hline, endQuote_quoted hs]
      rfl
    · rw [closing?_eq_none_iff.mpr hs, hline, endQuote_quoted_of_not_mem hs]
      rfl
  | case6 c s hquote hfeed hpair hquoted ih =>
    have hline : (c :: s).takeWhile (· != '\n') = c :: s.takeWhile (· != '\n') :=
      List.takeWhile_cons_of_pos (by simpa using hfeed)
    have hs : '"' ∈ s.takeWhile (· != '\n') := by
      rw [hline] at h
      exact List.mem_of_ne_of_mem (Ne.symm hquote) h
    have hnext : c = '\\' → ∀ d ∈ (s.takeWhile (· != '\n')).head?, d ≠ '\\' ∧ d ≠ '"' := by
      intro hc d hd
      obtain ⟨t, ht⟩ := List.head?_eq_some_iff.mp hd
      obtain ⟨rest, hrest⟩ := List.takeWhile_prefix (· != '\n') (l := s)
      rw [ht] at hrest
      constructor
      · rintro rfl
        exact hpair _ hc hrest.symm
      · rintro rfl
        exact hquoted _ hc hrest.symm
    rw [ih hs, hline, endQuote_cons_other hs hquote hnext]
    rfl

theorem behindLiteral?_cons (c : Char) (s : Text) :
    behindLiteral? (c :: s) = if c = '"' then (closing? s).map (s.drop ·) else none := by
  rw [behindLiteral?]
  by_cases hc : c = '"'
  · by_cases hs : '"' ∈ s.takeWhile (· != '\n')
    · rw [if_pos ⟨hc, hs⟩, if_pos hc, closing?_eq_some_endQuote hs]
      rfl
    · rw [if_neg fun h => hs h.2, if_pos hc, closing?_eq_none_iff.mpr hs]
      rfl
  · rw [if_neg fun h => hc h.1, if_neg hc]

/-- Pattern and scanner find the same literals. -/
theorem match?_literal_eq (s : Text) : Pattern.literal.match? s = behindLiteral? s := by
  cases s with
  | nil => rfl
  | cons c s => rw [Pattern.match?_literal, behindLiteral?_cons]

theorem exists_of_behindLiteral? {c : Char} {s rest : Text}
    (h : behindLiteral? (c :: s) = some rest) :
    c = '"' ∧ ∃ n, closing? s = some n ∧ s.drop n = rest := by
  rw [behindLiteral?_cons] at h
  obtain ⟨hc, hrest⟩ := Option.ite_none_right_eq_some.mp h
  exact ⟨hc, Option.map_eq_some_iff.mp hrest⟩

/-- The scanner writes the mask. -/
theorem scan_eq_mask (s : Text) : scan s = mask s := by
  rw [scan]
  fun_induction replaceFound behindLiteral? placeholder s with
  | case1 => rfl
  | case2 c s hfind ih =>
    rw [behindLiteral?_cons] at hfind
    rw [ih, mask, mask, maskFrom]
    split
    · next hc =>
      rw [if_pos hc, Option.map_eq_none_iff] at hfind
      rw [hfind]
    · rfl
  | case3 c s rest hfind hle ih =>
    obtain ⟨rfl, n, hclosing, rfl⟩ := exists_of_behindLiteral? hfind
    have hlength : ('"' :: s).length - (s.drop n).length = n + 1 := by
      have := closing?_le_length hclosing
      simp only [List.length_cons, List.length_drop]
      omega
    rw [ih, hlength, mask_quote_of_closing? hclosing]
  | case4 c s rest hfind hlt ih =>
    -- what is behind a literal is part of the text
    obtain ⟨-, n, -, rfl⟩ := exists_of_behindLiteral? hfind
    exact absurd (List.drop_sublist n s).length_le hlt

/-- **Literals are what the pattern matches first, and what the scanner finds.** A mask is the text
with all matches of the pattern written over, and the one pass of the scanner writes it too. Where a
literal begins, the first match ends where the scanner ends the literal. -/
theorem mask_eq_replaceAll_and_scan (s : Text) :
    mask s = Pattern.literal.replaceAll placeholder s ∧ mask s = scan s ∧
      Pattern.literal.match? s = behindLiteral? s := by
  have hfind : Pattern.literal.match? = behindLiteral? := funext match?_literal_eq
  refine ⟨?_, (scan_eq_mask s).symm, match?_literal_eq s⟩
  rw [Pattern.replaceAll, hfind]
  exact (scan_eq_mask s).symm

example : (Pattern.literal.match? "\"a\\\"b\" c".toList) = some " c".toList := by decide +kernel

example : scan "\"a\\\" b".toList = "ssss b".toList := by decide +kernel

end Literal

end Offside
