import Offside.Proofs.Grouping

/-!
# Counting in one pass

The tokens of a line are counted in four stages: literals are masked, the comment is cut off, groups
are folded, and spaces divide what is left. Behind the mask, all of this can be done by a counter
that reads the text once (`toOption_count`). It remembers how many groups are open, whether the
character before belongs to a token, and how many tokens have started.

A literal and a group act on the counter as a single character of a token does (`Solid`), so any
literal and any group can stand for any other, whatever is around them (`count_exchange`).
-/

namespace Offside

/-! ### Results without their errors -/

section ToOption

variable {ε α β : Type}

theorem toOption_map (f : α → β) (x : Except ε α) : (x.map f).toOption = x.toOption.map f := by
  cases x <;> rfl

theorem toOption_eq_some_iff {x : Except ε α} {a : α} : x.toOption = some a ↔ x = .ok a := by
  cases x <;> simp [Except.toOption]

theorem toOption_eq_none_iff {x : Except ε α} : x.toOption = none ↔ ∃ e, x = .error e := by
  cases x <;> simp [Except.toOption]

theorem toOption_eq_toOption_iff {x y : Except ε α} :
    x.toOption = y.toOption ↔
      (∃ a, x = .ok a ∧ y = .ok a) ∨ ∃ e e', x = .error e ∧ y = .error e' := by
  cases x <;> cases y <;> simp [Except.toOption, eq_comm]

end ToOption

namespace Group

/-! ### Folding without offsets -/

/-- Fold a text that starts inside `depth` groups, with `hole` in place of each outermost group. A
closing parenthesis outside of all groups and a group that is left open at the end are failures. -/
def collapse (hole : Char) : Nat → Text → Option Text
  | depth, [] => if depth = 0 then some [] else none
  | depth, c :: s =>
    if c = '(' then collapse hole (depth + 1) s
    else if c = ')' then
      match depth with
      | 0 => none
      | 1 => (collapse hole 0 s).map (hole :: ·)
      | depth + 2 => collapse hole (depth + 1) s
    else if depth = 0 then (collapse hole 0 s).map (c :: ·)
    else collapse hole depth s

theorem toOption_foldFrom (offset : Nat) (state : Option (Nat × Nat)) (s : Text) :
    (foldFrom offset state s).toOption = collapse placeholder (depthOf state) s := by
  fun_induction foldFrom offset state s with
  | case1 offset => rfl
  | case2 offset start inner => rfl
  | case3 offset s ih => exact ih
  | case4 offset s _ => rfl
  | case5 offset c s hopening hclosing ih =>
    rw [toOption_map, ih]
    simp [collapse, depthOf, hopening, hclosing]
  | case6 offset start inner s ih => exact ih
  | case7 offset start s _ ih => rw [toOption_map, ih]; rfl
  | case8 offset start s inner _ ih => exact ih
  | case9 offset start inner c s hopening hclosing ih =>
    rw [ih]
    simp [collapse, depthOf, hopening, hclosing]

end Group

namespace Token

/-! ### The counter -/

/-- What a counter remembers of the text behind it: the number of open groups, whether the last
character belongs to a token, and the number of tokens that have started. -/
structure Counter where
  depth : Nat
  within : Bool
  found : Nat
  deriving DecidableEq, Repr

namespace Counter

/-- The counter in front of a text. -/
def start : Counter := ⟨0, false, 0⟩

/-- A character of a token, or a whole group, outside of all groups. -/
def touch (x : Counter) : Counter :=
  { x with within := true, found := if x.within then x.found else x.found + 1 }

/-- Read one character. -/
def step (x : Counter) (c : Char) : Option Counter :=
  if c = '(' then some { x with depth := x.depth + 1 }
  else if c = ')' then
    match x.depth with
    | 0 => none
    | 1 => some { x.touch with depth := 0 }
    | depth + 2 => some { x with depth := depth + 1 }
  else if x.depth = 0 then some (if c = ' ' then { x with within := false } else x.touch)
  else some x

/-- Read a text. -/
def run (x : Counter) (s : Text) : Option Counter := s.foldlM step x

/-- The number of tokens, if no group is open. -/
def total (x : Counter) : Option Nat := if x.depth = 0 then some x.found else none

theorem run_cons (x : Counter) (c : Char) (s : Text) :
    x.run (c :: s) = (x.step c).bind (run · s) :=
  List.foldlM_cons

theorem run_append (x : Counter) (s t : Text) : x.run (s ++ t) = (x.run s).bind (run · t) :=
  List.foldlM_append

@[simp]
theorem depth_touch (x : Counter) : x.touch.depth = x.depth := rfl

@[simp]
theorem touch_touch (x : Counter) : x.touch.touch = x.touch := rfl

/-- A character of a token starts a piece unless one is open. -/
theorem found_touch_add (x : Counter) {c : Char} (hc : c ≠ ' ') (t : Text) :
    x.touch.found + starts x.touch.within t = x.found + starts x.within (c :: t) := by
  rw [starts, if_neg hc, touch]
  cases x.within <;> simp [Nat.add_assoc]

/-- The number of tokens behind a text that the counter has in front of it. -/
def expected (hole : Char) (s : Text) (x : Counter) : Option Nat :=
  (Group.collapse hole x.depth s).map fun t => x.found + starts x.within t

/-- Reading a character does not change what is expected. -/
theorem expected_cons {hole : Char} (hhole : hole ≠ ' ') (c : Char) (s : Text) (x : Counter) :
    expected hole (c :: s) x = (x.step c).bind (expected hole s) := by
  obtain ⟨depth, within, found⟩ := x
  by_cases hopening : c = '('
  · simp [expected, Group.collapse, step, hopening]
  by_cases hclosing : c = ')'
  · match depth with
    | 0 => simp [expected, Group.collapse, step, hclosing]
    | 1 =>
      have htouch := found_touch_add ⟨1, within, found⟩ hhole
      simp [expected, Group.collapse, step, hclosing, Function.comp_def, htouch]
    | depth + 2 => simp [expected, Group.collapse, step, hclosing]
  match depth with
  | 0 =>
    by_cases hspace : c = ' '
    · simp [expected, Group.collapse, step, hspace, starts, Function.comp_def]
    · have htouch := found_touch_add ⟨0, within, found⟩ hspace
      simp [expected, Group.collapse, step, hopening, hclosing, hspace, Function.comp_def, htouch]
  | depth + 1 => simp [expected, Group.collapse, step, hopening, hclosing]

/-- The counter counts the pieces of what folding leaves. -/
theorem run_bind_total {hole : Char} (hhole : hole ≠ ' ') (s : Text) (x : Counter) :
    (x.run s).bind total = expected hole s x := by
  induction s generalizing x with
  | nil => cases hdepth : x.depth <;> simp [expected, run, total, Group.collapse, hdepth, starts]
  | cons c s ih =>
    rw [expected_cons hhole, run_cons, Option.bind_assoc]
    exact congrArg _ (funext ih)

end Counter

/-- The tokens of a content are counted in one pass over its mask. -/
theorem toOption_count (content : Text) :
    (count content).toOption =
      (Counter.start.run (Comment.strip (Literal.mask content))).bind Counter.total := by
  have hpieces : countPieces = starts false := funext countPieces_eq
  have hhole : Group.placeholder ≠ ' ' := by decide
  rw [Counter.run_bind_total hhole, Counter.expected, count, toOption_map, skeleton, Group.fold,
    Group.toOption_foldFrom, hpieces]
  simp [Counter.start, Group.depthOf]

/-! ### Solid texts -/

/-- A character that can stand for a literal or for a group: it does not divide tokens, does not
group them and starts no comment. -/
structure Hole where
  char : Char
  plain : char ∉ [' ', '(', ')', Comment.marker]

namespace Hole

/-- The character that stands for a character of a literal. -/
def literal : Hole := ⟨Literal.placeholder, by decide⟩

variable (hole : Hole)

theorem ne_space : hole.char ≠ ' ' := fun h => hole.plain (by simp [h])

theorem ne_opening : hole.char ≠ '(' := fun h => hole.plain (by simp [h])

theorem ne_closing : hole.char ≠ ')' := fun h => hole.plain (by simp [h])

theorem ne_marker : hole.char ≠ Comment.marker := fun h => hole.plain (by simp [h])

end Hole

/-- A text acts on the counter as one character of a token: inside a group it does nothing, and
outside of all groups it belongs to one token. -/
def Solid (s : Text) : Prop :=
  ∀ x : Counter, x.run s = some (if x.depth = 0 then x.touch else x)

theorem Counter.step_hole (hole : Hole) (x : Counter) :
    x.step hole.char = some (if x.depth = 0 then x.touch else x) := by
  rw [step, if_neg hole.ne_opening, if_neg hole.ne_closing, if_neg hole.ne_space]
  split <;> rfl

theorem solid_replicate (hole : Hole) (n : Nat) : Solid (List.replicate (n + 1) hole.char) := by
  intro x
  induction n with
  | zero => exact (Counter.run_cons x _ _).trans (by rw [x.step_hole]; rfl)
  | succ n ih =>
    rw [List.replicate_succ', Counter.run_append, ih, Option.bind_some, Counter.run_cons,
      Counter.step_hole]
    split <;> simp [Counter.run, *]

theorem Counter.run_opening (x : Counter) (s : Text) :
    x.run ('(' :: s) = ({ x with depth := x.depth + 1 } : Counter).run s :=
  x.run_cons '(' s

/-- Inside a group, a balanced text does nothing. -/
theorem Counter.run_of_balanced {s : Text} (h : Group.Balanced s) {x : Counter}
    (hx : x.depth ≠ 0) : x.run s = some x := by
  induction h generalizing x with
  | nil => rfl
  | char hopening hclosing _ ih =>
    rw [run_cons, step, if_neg hopening, if_neg hclosing, if_neg hx]
    exact ih hx
  | group _ _ ihs iht =>
    obtain ⟨depth, within, found⟩ := x
    obtain ⟨depth, rfl⟩ := Nat.exists_eq_succ_of_ne_zero hx
    rw [run_opening, run_append, ihs (Nat.succ_ne_zero _), Option.bind_some, run_cons]
    exact iht hx

theorem solid_group {s : Text} (h : Group.Balanced s) : Solid ('(' :: (s ++ [')'])) := by
  intro x
  rw [Counter.run_opening, Counter.run_append, Counter.run_of_balanced h (Nat.succ_ne_zero _),
    Option.bind_some]
  obtain ⟨_ | depth, within, found⟩ := x <;> rfl

/-- A text with a solid mask is one token. -/
theorem Solid.count_eq {content : Text} (h : Solid (Literal.mask content))
    (huncommented : Comment.marker ∉ Literal.mask content) : count content = .ok 1 := by
  have hcount : (count content).toOption = some 1 := by
    rw [toOption_count, Comment.strip_mask,
      List.takeWhile_eq_self_iff.mpr (Text.bne_of_not_mem huncommented), h]
    rfl
  exact toOption_eq_some_iff.mp hcount

/-- Solid texts can replace each other in front of texts that act alike. -/
theorem Solid.run_append {s t s' t' : Text} (hs : Solid s) (ht : Solid t)
    (h : ∀ x : Counter, x.run s' = x.run t') (x : Counter) :
    x.run (s ++ s') = x.run (t ++ t') := by
  rw [Counter.run_append, Counter.run_append, hs, ht, funext h]

end Token

/-! ### Complete texts -/

namespace Literal

/-- The inside of a literal: pairs of a backslash with any character, and characters that are
neither a quote nor a backslash, all on one line. -/
inductive IsBody : Text → Prop
  | nil : IsBody []
  | pair {c : Char} {s : Text} (hfeed : c ≠ '\n') (rest : IsBody s) : IsBody ('\\' :: c :: s)
  | plain {c : Char} {s : Text} (hquote : c ≠ '"') (hbackslash : c ≠ '\\') (hfeed : c ≠ '\n')
      (rest : IsBody s) : IsBody (c :: s)

/-- A literal that its last quote closes, whatever follows. -/
def IsClosed (l : Text) : Prop := ∃ body, IsBody body ∧ l = '"' :: (body ++ ['"'])

/-- A text is made up of closed literals and of characters that are no quotes. The second text has
the characters outside of the literals. -/
inductive Shows : Text → Text → Prop
  | nil : Shows [] []
  | char {c : Char} {s shown : Text} (hquote : c ≠ '"') (rest : Shows s shown) :
      Shows (c :: s) (c :: shown)
  | literal {l s shown : Text} (closed : IsClosed l) (rest : Shows s shown) : Shows (l ++ s) shown

theorem closing?_cons_plain {c : Char} (hquote : c ≠ '"') (hbackslash : c ≠ '\\')
    (hfeed : c ≠ '\n') (s : Text) : closing? (c :: s) = (closing? s).map (· + 1) := by
  rw [closing?]
  · simpa using hquote
  · simpa using hfeed
  · exact fun _ hc => absurd hc hbackslash
  · exact fun _ hc => absurd hc hbackslash

theorem mask_cons_of_ne {c : Char} (h : c ≠ '"') (s : Text) : mask (c :: s) = c :: mask s :=
  maskFrom_zero_cons_of_ne h s

/-- The quote behind the inside of a literal closes it. -/
theorem IsBody.closing?_append {body : Text} (h : IsBody body) (rest : Text) :
    closing? (body ++ '"' :: rest) = some (body.length + 1) := by
  induction h with
  | nil => rfl
  | @pair c s hfeed _ ih =>
    by_cases hbackslash : c = '\\'
    · rw [hbackslash]
      simp [closing?, ih]
    by_cases hquote : c = '"'
    · rw [hquote]
      simp [closing?, ih]
    rw [List.cons_append, List.cons_append,
      closing?_cons_other (by decide) (by decide) (fun _ => ⟨hbackslash, hquote⟩),
      closing?_cons_plain hquote hbackslash hfeed, ih]
    rfl
  | plain hquote hbackslash hfeed _ ih =>
    rw [List.cons_append, closing?_cons_plain hquote hbackslash hfeed, ih]
    rfl

/-- A closed literal is masked as a whole, and what follows by itself. -/
theorem IsClosed.exists_mask_append {l : Text} (h : IsClosed l) :
    ∃ n, ∀ rest, mask (l ++ rest) = List.replicate (n + 1) placeholder ++ mask rest := by
  obtain ⟨body, hbody, rfl⟩ := h
  refine ⟨body.length + 1, fun rest => ?_⟩
  have hassoc : '"' :: (body ++ ['"']) ++ rest = '"' :: (body ++ '"' :: rest) := by simp
  have hbehind : (body ++ '"' :: rest).drop (body.length + 1) = rest := by simp
  rw [hassoc, mask_quote_of_closing? (hbody.closing?_append rest), hbehind]

theorem Shows.mask_append {s shown : Text} (h : Shows s shown) (rest : Text) :
    mask (s ++ rest) = mask s ++ mask rest := by
  induction h with
  | nil => rfl
  | char hquote _ ih =>
    rw [List.cons_append, mask_cons_of_ne hquote, ih, mask_cons_of_ne hquote, List.cons_append]
  | @literal l s shown closed _ ih =>
    obtain ⟨n, hmask⟩ := closed.exists_mask_append
    rw [List.append_assoc, hmask, ih, hmask, List.append_assoc]

/-- What shows of a complete text shows in its mask. -/
theorem Shows.filter_mask {s shown : Text} (h : Shows s shown) {p : Char → Bool}
    (hp : p placeholder = false) : (mask s).filter p = shown.filter p := by
  induction h with
  | nil => rfl
  | @char c s shown hquote _ ih =>
    rw [mask_cons_of_ne hquote, List.filter_cons, List.filter_cons, ih]
  | @literal l s shown closed _ ih =>
    obtain ⟨n, hmask⟩ := closed.exists_mask_append
    rw [hmask, List.filter_append, ih, List.filter_replicate, if_neg (by simp [hp]),
      List.nil_append]

end Literal

/-- Only parentheses matter to whether a text is balanced. -/
theorem Group.balanced_congr {s t : Text} (h : s.filter isParen = t.filter isParen) :
    Balanced s ↔ Balanced t := by
  rw [balanced_iff_matched, balanced_iff_matched, Matched, Matched, ← depth_filter s,
    ← staysUp_filter, h, depth_filter, staysUp_filter]

namespace Token

/-! ### Items -/

/-- A closed literal, or a group around a complete text that has matching parentheses and no comment
outside of its literals. -/
inductive IsItem : Text → Prop
  | literal {l : Text} (closed : Literal.IsClosed l) : IsItem l
  | group {s shown : Text} (complete : Literal.Shows s shown) (balanced : Group.Balanced shown)
      (uncommented : Comment.marker ∉ shown) : IsItem ('(' :: (s ++ [')']))

/-- An item is masked by itself whatever follows, and its mask is solid and has no comment. -/
theorem IsItem.mask_spec {g : Text} (h : IsItem g) :
    Solid (Literal.mask g) ∧ Comment.marker ∉ Literal.mask g ∧
      ∀ rest, Literal.mask (g ++ rest) = Literal.mask g ++ Literal.mask rest := by
  cases h with
  | literal closed =>
    obtain ⟨n, hmask⟩ := closed.exists_mask_append
    have hself : Literal.mask g = List.replicate (n + 1) Literal.placeholder := by
      simpa [Literal.mask, Literal.maskFrom] using hmask []
    refine ⟨hself ▸ solid_replicate .literal n, ?_, fun rest => by rw [hmask, hself]⟩
    rw [hself]
    exact fun hmem => absurd (List.eq_of_mem_replicate hmem) (by decide)
  | @group s shown complete balanced uncommented =>
    have hmask (rest : Text) : Literal.mask ('(' :: (s ++ ')' :: rest)) =
        '(' :: (Literal.mask s ++ ')' :: Literal.mask rest) := by
      rw [Literal.mask_cons_of_ne (by decide), complete.mask_append,
        Literal.mask_cons_of_ne (by decide)]
    have hbalanced : Group.Balanced (Literal.mask s) :=
      (Group.balanced_congr (complete.filter_mask (by decide))).mpr balanced
    have huncommented : Comment.marker ∉ Literal.mask s := by
      intro hmem
      have hshown : Comment.marker ∈ (Literal.mask s).filter (· == Comment.marker) := by
        simpa using hmem
      rw [complete.filter_mask (by decide)] at hshown
      exact uncommented (List.mem_of_mem_filter hshown)
    refine ⟨hmask [] ▸ solid_group hbalanced, ?_, fun rest => ?_⟩
    · rw [hmask []]
      simpa [Literal.mask, Literal.maskFrom, Comment.marker] using huncommented
    · rw [List.cons_append, List.append_assoc, List.singleton_append, hmask, hmask []]
      simp [Literal.mask, Literal.maskFrom]

/-- Between the texts around it, an item is kept unless a comment starts before it. -/
theorem IsItem.strip_mask {u g shown : Text} (hg : IsItem g) (hu : Literal.Shows u shown)
    (v : Text) :
    Comment.strip (Literal.mask (u ++ g ++ v)) =
      if (Comment.strip (Literal.mask u)).length = (Literal.mask u).length then
        Literal.mask u ++ (Literal.mask g ++ Comment.strip (Literal.mask v))
      else Comment.strip (Literal.mask u) := by
  obtain ⟨-, huncommented, hmask⟩ := hg.mask_spec
  rw [Comment.strip_mask, List.append_assoc, hu.mask_append, hmask, List.takeWhile_append,
    List.takeWhile_append_of_pos (Text.bne_of_not_mem huncommented), ← Comment.strip_mask,
    ← Comment.strip_mask]

/-- Any two items act alike on the counter, behind a complete text and in front of any text. -/
theorem IsItem.run_eq {u g g' shown : Text} (hg : IsItem g) (hg' : IsItem g')
    (hu : Literal.Shows u shown) (v : Text) (x : Counter) :
    x.run (Comment.strip (Literal.mask (u ++ g ++ v))) =
      x.run (Comment.strip (Literal.mask (u ++ g' ++ v))) := by
  rw [hg.strip_mask hu, hg'.strip_mask hu]
  split
  · rw [Counter.run_append, Counter.run_append]
    exact congrArg _ (funext (hg.mask_spec.1.run_append hg'.mask_spec.1 fun _ => rfl))
  · rfl

theorem IsItem.count_eq {g : Text} (h : IsItem g) : count g = .ok 1 := by
  obtain ⟨hsolid, huncommented, -⟩ := h.mask_spec
  exact hsolid.count_eq huncommented

/-- **Token counting ignores what is inside literals and groups.** Behind a complete text and in
front of any text, any two items can replace each other: the tokens of both contents are counted,
and are the same number, or the parentheses of both do not match. An item by itself is one token. -/
theorem count_exchange {u g g' : Text} {shown : Text} (hu : Literal.Shows u shown) (hg : IsItem g)
    (hg' : IsItem g') (v : Text) :
    count g = .ok 1 ∧
      ((∃ n, count (u ++ g ++ v) = .ok n ∧ count (u ++ g' ++ v) = .ok n) ∨
        ∃ e e', count (u ++ g ++ v) = .error e ∧ count (u ++ g' ++ v) = .error e') := by
  refine ⟨hg.count_eq, ?_⟩
  rw [← toOption_eq_toOption_iff, toOption_count, toOption_count, hg.run_eq hg' hu]

/-- A literal with a semicolon and a closing parenthesis in it, and a group with a literal and a
group in it, inside of a group that is closed later and next to other text. -/
theorem count_exchange_glued :
    let u := "a (\"(\" b".toList
    let g := "\"x;)\\\"\"".toList
    let g' := "((c) \";\")".toList
    let v := ") d ; )".toList
    Literal.Shows u "a ( b".toList ∧ IsItem g ∧ IsItem g' ∧ count g = .ok 1 ∧
      ((∃ n, count (u ++ g ++ v) = .ok n ∧ count (u ++ g' ++ v) = .ok n) ∨
        ∃ e e', count (u ++ g ++ v) = .error e ∧ count (u ++ g' ++ v) = .error e') := by
  intro u g g' v
  have hopening : Literal.IsClosed "\"(\"".toList :=
    ⟨['('], .plain (by decide) (by decide) (by decide) .nil, by decide⟩
  have hmarker : Literal.IsClosed "\";\"".toList :=
    ⟨[';'], .plain (by decide) (by decide) (by decide) .nil, by decide⟩
  have hu : Literal.Shows u "a ( b".toList :=
    .char (by decide) <| .char (by decide) <| .char (by decide) <| .literal hopening <|
      .char (by decide) <| .char (by decide) .nil
  have hg : IsItem g :=
    .literal ⟨"x;)\\\"".toList, .plain (by decide) (by decide) (by decide) <|
      .plain (by decide) (by decide) (by decide) <| .plain (by decide) (by decide) (by decide) <|
        .pair (by decide) .nil, by decide⟩
  have hinner : Literal.Shows "(c) \";\"".toList "(c) ".toList :=
    .char (by decide) <| .char (by decide) <| .char (by decide) <| .char (by decide) <|
      .literal hmarker .nil
  have hbalanced : Group.Balanced "(c) ".toList :=
    .group (.char (by decide) (by decide) .nil) (.char (by decide) (by decide) .nil)
  have hg' : IsItem g' := .group hinner hbalanced (by decide)
  exact ⟨hu, hg, hg', count_exchange hu hg hg' v⟩

end Token

end Offside
