import Mathlib.Data.List.Basic
import Offside.Proofs.Masking
import Offside.Token

/-!
# What folding does

Folding a text succeeds only if its parentheses match. `Folds depth s t` says how, one character at
a time and without the offsets that serve to name a parenthesis without a partner: the text `s`
starts inside `depth` groups, ends outside of all, and leaves `t`. What is inside a group leaves
nothing, and the end of an outermost group leaves the placeholder. Every fold that succeeds is of
this kind (`folds_of_foldFrom`), so a fact about it is an induction over `Folds`.

The pieces of a text are counted where they start (`countPieces_eq`): at a character that is not a
space and has none but a space before it. So a text can be counted piecewise.
-/

namespace Offside

theorem exists_of_map_eq_ok {ε α β : Type} {f : α → β} {x : Except ε α} {b : β}
    (h : x.map f = .ok b) : ∃ a, x = .ok a ∧ f a = b := by
  cases x with
  | error e => exact absurd h (by simp [Except.map])
  | ok a => exact ⟨a, rfl, Except.ok.inj h⟩

namespace Group

/-- Inside `depth` groups, the text `s` closes them all and leaves `t`. -/
inductive Folds : Nat → Text → Text → Prop
  | nil : Folds 0 [] []
  | opening {depth : Nat} {s t : Text} (rest : Folds (depth + 1) s t) : Folds depth ('(' :: s) t
  | closing {depth : Nat} {s t : Text} (rest : Folds (depth + 1) s t) :
      Folds (depth + 2) (')' :: s) t
  | leave {s t : Text} (rest : Folds 0 s t) : Folds 1 (')' :: s) (placeholder :: t)
  | inside {depth : Nat} {c : Char} {s t : Text} (hopening : c ≠ '(') (hclosing : c ≠ ')')
      (rest : Folds (depth + 1) s t) : Folds (depth + 1) (c :: s) t
  | outside {c : Char} {s t : Text} (hopening : c ≠ '(') (hclosing : c ≠ ')')
      (rest : Folds 0 s t) : Folds 0 (c :: s) (c :: t)

/-- The number of groups that are open. -/
def depthOf : Option (Nat × Nat) → Nat
  | none => 0
  | some (_, inner) => inner + 1

/-- A fold that succeeds goes character by character. -/
theorem folds_of_foldFrom {offset : Nat} {state : Option (Nat × Nat)} {s t : Text}
    (h : foldFrom offset state s = .ok t) : Folds (depthOf state) s t := by
  fun_induction foldFrom offset state s generalizing t with
  | case1 offset =>
    obtain rfl := Except.ok.inj h
    exact .nil
  | case2 offset start inner => exact absurd h (by simp)
  | case3 offset s ih => exact .opening (ih h)
  | case4 offset s _ => exact absurd h (by simp)
  | case5 offset c s hopening hclosing ih =>
    obtain ⟨t', ht', rfl⟩ := exists_of_map_eq_ok h
    exact .outside hopening hclosing (ih ht')
  | case6 offset start inner s ih => exact .opening (ih h)
  | case7 offset start s _ ih =>
    obtain ⟨t', ht', rfl⟩ := exists_of_map_eq_ok h
    exact .leave (ih ht')
  | case8 offset start s inner _ ih => exact .closing (ih h)
  | case9 offset start inner c s hopening hclosing ih => exact .inside hopening hclosing (ih h)

/-- What is left of a text that starts inside a group. -/
theorem Folds.head?_eq {depth : Nat} {s t : Text} (h : Folds depth s t) (hdepth : depth ≠ 0) :
    t.head? = some placeholder := by
  induction h with
  | nil | outside => exact absurd rfl hdepth
  | opening _ ih | closing _ ih | inside _ _ _ ih => exact ih (by simp)
  | leave => rfl

/-- Text without parentheses in front is left as it is. -/
theorem Folds.of_append_left {s s' t : Text} (hs : ∀ c ∈ s, c ≠ '(' ∧ c ≠ ')')
    (h : Folds 0 (s ++ s') t) : ∃ t', t = s ++ t' ∧ Folds 0 s' t' := by
  induction s generalizing t with
  | nil => exact ⟨t, rfl, h⟩
  | cons c s ih =>
    rw [List.cons_append] at h
    obtain ⟨hopening, hclosing⟩ := hs c (by simp)
    cases h with
    | opening => exact absurd rfl hopening
    | outside _ _ rest =>
      obtain ⟨t', rfl, hrest⟩ := ih (fun d hd => hs d (by simp [hd])) rest
      exact ⟨t', rfl, hrest⟩

end Group

namespace Token

/-- The tokens of a content are the pieces of what its fold leaves. -/
theorem exists_folds_of_count {content : Text} {n : Nat} (h : count content = .ok n) :
    ∃ t, Group.Folds 0 (Comment.strip (Literal.mask content)) t ∧ countPieces t = n := by
  obtain ⟨t, ht, rfl⟩ := exists_of_map_eq_ok h
  exact ⟨t, Group.folds_of_foldFrom ht, rfl⟩

/-- The number of pieces that start in a text, given whether it follows a piece directly. -/
def starts : Bool → Text → Nat
  | _, [] => 0
  | within, c :: s => if c = ' ' then starts false s else (if within then 0 else 1) + starts true s

private theorem exists_pieces_eq (s : Text) :
    ∃ first rest, Text.pieces ' ' s = first :: rest ∧
      rest.countP (!·.isEmpty) = starts true s ∧ countPieces s = starts false s := by
  induction s with
  | nil => exact ⟨[], [], rfl, rfl, rfl⟩
  | cons c s ih =>
    obtain ⟨first, rest, hpieces, hrest, hall⟩ := ih
    by_cases hc : c = ' '
    · refine ⟨[], Text.pieces ' ' s, by rw [Text.pieces, if_pos hc], ?_, ?_⟩
      · rw [starts, if_pos hc, ← hall]
        rfl
      · rw [starts, if_pos hc, ← hall, countPieces, Text.pieces, if_pos hc]
        rfl
    · have hcons : Text.pieces ' ' (c :: s) = (c :: first) :: rest := by
        rw [Text.pieces, if_neg hc, hpieces]
        rfl
      refine ⟨c :: first, rest, hcons, ?_, ?_⟩
      · rw [starts, if_neg hc, hrest]
        simp
      · rw [starts, if_neg hc, ← hrest, countPieces, hcons, List.countP_cons]
        simp [Nat.add_comm]

/-- Pieces are counted where they start. -/
theorem countPieces_eq (s : Text) : countPieces s = starts false s := by
  obtain ⟨-, -, -, -, h⟩ := exists_pieces_eq s
  exact h

theorem countPieces_pos_of_folds {c : Char} {s t : Text} (h : Group.Folds 0 (c :: s) t)
    (hc : c ≠ ' ') : 0 < countPieces t := by
  have hstart : ∃ d t', t = d :: t' ∧ d ≠ ' ' := by
    cases h with
    | opening rest =>
      obtain ⟨t', rfl⟩ := List.head?_eq_some_iff.mp (rest.head?_eq (by simp))
      exact ⟨_, t', rfl, by decide⟩
    | outside _ _ rest => exact ⟨c, _, rfl, hc⟩
  obtain ⟨d, t', rfl, hd⟩ := hstart
  rw [countPieces_eq, starts, if_neg hd, if_neg (by decide)]
  omega

/-- A content that starts with neither a space nor a comment has a token. -/
theorem countPieces_pos {c : Char} {s t : Text}
    (h : Group.Folds 0 (Comment.strip (Literal.mask (c :: s))) t) (hspace : c ≠ ' ')
    (hmarker : c ≠ Comment.marker) : 0 < countPieces t := by
  obtain ⟨m, rest, hmask, hm⟩ := Literal.exists_mask_cons c s
  have hmarker' : m ≠ Comment.marker := by
    rcases hm with rfl | rfl
    · exact hmarker
    · decide
  have hspace' : m ≠ ' ' := by
    rcases hm with rfl | rfl
    · exact hspace
    · decide
  rw [Comment.strip_mask, hmask, List.takeWhile_cons_of_pos (by simpa using hmarker')] at h
  exact countPieces_pos_of_folds h hspace'

end Token

end Offside
