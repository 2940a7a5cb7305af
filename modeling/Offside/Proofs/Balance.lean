import Mathlib.Algebra.BigOperators.Group.List.Basic
import Mathlib.Algebra.Ring.Int.Defs
import Offside.Proofs.Folding
import Offside.Proofs.Reading
import Offside.Proofs.Signal

/-!
# Balanced records

The depth of a text counts its parentheses physical line by physical line, with string literals
masked and comments dropped. A record is as deep at its end as its continuations are, taken one by
one, and if these are balanced, so is the record (`transpile_balanced`).

The parentheses of a record are those of its contents and continuations in the order of the file,
with one pair more around every node that needs it (`parens_record`). The contents of lines in an
outline are balanced, since their tokens have been counted, so only continuations can be off.
-/

namespace Offside

/-! ### Depth -/

/-- The depth behind one more character. -/
def depthStep (depth : Int) (c : Char) : Int :=
  if c = '(' then depth + 1 else if c = ')' then depth - 1 else depth

/-- The depth at the end of a text whose every character counts. -/
def depth (s : Text) : Int := s.foldl depthStep 0

/-- The characters of a text that count, physical line by physical line. -/
def countedText (text : Text) : Text :=
  (Text.pieces '\n' text).flatMap fun line => Comment.strip (Literal.mask line)

/-- The depth at the end of a parenthesised text. -/
def netDepth (text : Text) : Int := depth (countedText text)

/-- A parenthesised text is balanced: its depth is never negative, and zero at the end. -/
structure IsBalanced (text : Text) : Prop where
  nonneg : ∀ front, front <+: countedText text → 0 ≤ depth front
  netDepth_eq : netDepth text = 0

/-- Starting at the given depth, the depth is never negative. -/
def StaysUp (start : Int) (s : Text) : Prop := ∀ front, front <+: s → 0 ≤ start + depth front

private theorem foldl_depthStep (s : Text) (start : Int) :
    s.foldl depthStep start = start + depth s := by
  induction s generalizing start with
  | nil => simp [depth]
  | cons c s ih =>
    rw [depth, List.foldl_cons, List.foldl_cons, ih, ih (depthStep 0 c)]
    simp only [depthStep]
    split
    · omega
    · split <;> omega

theorem depth_append (s t : Text) : depth (s ++ t) = depth s + depth t := by
  rw [depth, List.foldl_append, foldl_depthStep]
  rfl

theorem depth_cons (c : Char) (s : Text) : depth (c :: s) = depthStep 0 c + depth s := by
  rw [depth, List.foldl_cons, foldl_depthStep]

theorem staysUp_append {start : Int} {s t : Text} :
    StaysUp start (s ++ t) ↔ StaysUp start s ∧ StaysUp (start + depth s) t := by
  constructor
  · intro h
    refine ⟨fun front hfront => h front (hfront.trans (List.prefix_append s t)), ?_⟩
    intro front hfront
    have := h (s ++ front) ((List.prefix_append_right_inj s).mpr hfront)
    rw [depth_append] at this
    omega
  · rintro ⟨hs, ht⟩ front ⟨rest, hrest⟩
    rcases List.append_eq_append_iff.mp hrest with ⟨more, rfl, -⟩ | ⟨front', rfl, rfl⟩
    · exact hs front (List.prefix_append front more)
    · have := ht front' (List.prefix_append front' rest)
      rw [depth_append]
      omega

theorem staysUp_cons {start : Int} {c : Char} {s : Text} :
    StaysUp start (c :: s) ↔ 0 ≤ start ∧ StaysUp (start + depthStep 0 c) s := by
  constructor
  · intro h
    refine ⟨by simpa [depth] using h [] (List.nil_prefix), fun front hfront => ?_⟩
    have := h (c :: front) (List.cons_prefix_cons.mpr ⟨rfl, hfront⟩)
    rw [depth_cons] at this
    omega
  · rintro ⟨hstart, h⟩ front hfront
    rcases List.prefix_cons_iff.mp hfront with rfl | ⟨front', rfl, hfront'⟩
    · simpa [depth] using hstart
    · have := h front' hfront'
      rw [depth_cons]
      omega

theorem staysUp_nil {start : Int} : StaysUp start [] ↔ 0 ≤ start := by
  simp [StaysUp, depth]

theorem StaysUp.mono {start start' : Int} {s : Text} (h : StaysUp start s) (hle : start ≤ start') :
    StaysUp start' s := by
  intro front hfront
  have := h front hfront
  omega

/-! ### Parentheses alone -/

/-- Whether a character counts for the depth. -/
def isParen (c : Char) : Bool := c == '(' || c == ')'

theorem depthStep_of_not_isParen {c : Char} (h : isParen c = false) (d : Int) :
    depthStep d c = d := by
  simp only [isParen, Bool.or_eq_false_iff, beq_eq_false_iff_ne, ne_eq] at h
  simp [depthStep, h.1, h.2]

/-- Only parentheses count for the depth. -/
theorem depth_filter (s : Text) : depth (s.filter isParen) = depth s := by
  induction s with
  | nil => rfl
  | cons c s ih =>
    cases hc : isParen c with
    | true => rw [List.filter_cons_of_pos hc, depth_cons, depth_cons, ih]
    | false =>
      rw [List.filter_cons_of_neg (by simp [hc]), depth_cons, ih, depthStep_of_not_isParen hc]
      omega

theorem staysUp_filter {start : Int} {s : Text} :
    StaysUp start (s.filter isParen) ↔ StaysUp start s := by
  constructor
  · intro h front hfront
    rw [← depth_filter]
    exact h (front.filter isParen) (hfront.filter isParen)
  · intro h front hfront
    obtain ⟨front', hfront', rfl⟩ := List.prefix_filter_iff.mp hfront
    rw [depth_filter]
    exact h front' hfront'

/-- The parenthesis that a signal stands for. -/
def Signal.paren? : Signal → Option Char
  | .opening => some '('
  | .closing => some ')'
  | _ => none

/-- The parentheses of a parenthesised text. -/
def parens (text : Text) : Text := (Signal.ofText text).filterMap Signal.paren?

theorem Signal.paren?_ofChar (c m : Char) :
    (Signal.ofChar c m).paren? = if isParen m then some m else none := by
  simp only [Signal.ofChar, isParen]
  split
  · next h => simp [h, Signal.paren?]
  · split
    · next h => simp [h, Signal.paren?]
    · next hopening hclosing => split <;> simp [hopening, hclosing, Signal.paren?]

theorem filter_isParen_of_isIndent {indent : Text} (h : ∀ c ∈ indent, Line.isIndent c = true) :
    indent.filter isParen = [] := by
  rw [List.filter_eq_nil_iff]
  intro c hc hparen
  have hindent := h c hc
  simp only [isParen, Bool.or_eq_true, beq_iff_eq] at hparen
  rcases hparen with rfl | rfl <;> exact absurd hindent (by decide)

/-- The parentheses that count on a line are those of its signals. -/
theorem filter_isParen_line (line : Text) :
    (Comment.strip (Literal.mask line)).filter isParen =
      (Signal.ofLine line).filterMap Signal.paren? := by
  have hindent : ∀ c ∈ line.takeWhile Line.isIndent, Line.isIndent c = true :=
    fun c hc => List.mem_takeWhile_imp hc
  obtain ⟨hquote, hmarker, -⟩ := Signal.not_mem_indent hindent
  -- the indentation has no parentheses, and dropping it does not change the mask of the rest
  have hbody : (Comment.strip (Literal.mask line)).filter isParen =
      (Comment.strip (Literal.mask (line.dropWhile Line.isIndent))).filter isParen := by
    conv_lhs => rw [← List.takeWhile_append_dropWhile (p := Line.isIndent) (l := line)]
    rw [Comment.strip_mask_append_left hquote hmarker, List.filter_append,
      filter_isParen_of_isIndent hindent, List.nil_append]
  rw [hbody, ← Signal.map_snd_visible, Signal.ofLine, Signal.ofBody, ← List.filterMap_eq_filter,
    List.filterMap_map, List.filterMap_map]
  refine List.filterMap_congr fun x _ => ?_
  simp [Signal.paren?_ofChar, Option.guard]

theorem filterMap_paren?_intercalate (lines : List (List Signal)) :
    (List.intercalate [Signal.gap] lines).filterMap Signal.paren? =
      lines.flatMap fun line => line.filterMap Signal.paren? := by
  induction lines with
  | nil => rfl
  | cons line lines ih =>
    cases lines with
    | nil => simp
    | cons line' lines =>
      rw [List.intercalate_cons_cons, List.filterMap_append, List.filterMap_append, ih]
      simp [Signal.paren?]

/-- The parentheses of a text are those that count. -/
theorem filter_isParen_countedText (text : Text) :
    (countedText text).filter isParen = parens text := by
  rw [countedText, List.filter_flatMap, parens, Signal.ofText, filterMap_paren?_intercalate,
    List.flatMap_map]
  exact List.flatMap_congr fun line _ => filter_isParen_line line

theorem netDepth_eq_depth_parens (text : Text) : netDepth text = depth (parens text) := by
  rw [netDepth, ← depth_filter, filter_isParen_countedText]

theorem isBalanced_iff {text : Text} :
    IsBalanced text ↔ StaysUp 0 (parens text) ∧ depth (parens text) = 0 := by
  rw [← netDepth_eq_depth_parens, ← filter_isParen_countedText, staysUp_filter]
  constructor
  · intro h
    exact ⟨fun front hfront => by simpa using h.nonneg front hfront, h.netDepth_eq⟩
  · rintro ⟨hup, hnet⟩
    exact ⟨fun front hfront => by simpa using hup front hfront, hnet⟩

/-! ### Contents -/

/-- Where folding succeeds, the groups open at the start are closed, and no others. -/
theorem Group.Folds.staysUp {level : Nat} {s t : Text} (h : Folds level s t) :
    StaysUp level s ∧ level + depth s = 0 := by
  induction h with
  | nil => exact ⟨staysUp_nil.mpr (by simp), rfl⟩
  | opening _ ih =>
    rw [staysUp_cons, depth_cons, depthStep, if_pos rfl]
    refine ⟨⟨by omega, ih.1.mono (by omega)⟩, by omega⟩
  | closing _ ih | leave _ ih =>
    rw [staysUp_cons, depth_cons, depthStep, if_neg (by decide), if_pos rfl]
    refine ⟨⟨by omega, ih.1.mono (by omega)⟩, by omega⟩
  | inside hopening hclosing _ ih | outside hopening hclosing _ ih =>
    rw [staysUp_cons, depth_cons, depthStep, if_neg hopening, if_neg hclosing]
    refine ⟨⟨by omega, ih.1.mono (by omega)⟩, by omega⟩

/-- A content is balanced if its tokens can be counted. -/
theorem isBalanced_of_count {content : Text} {n : Nat} (hfeed : '\n' ∉ content)
    (h : Token.count content = .ok n) : IsBalanced content := by
  obtain ⟨t, hfolds, -⟩ := Token.exists_folds_of_count h
  have hcounted : countedText content = Comment.strip (Literal.mask content) := by
    rw [countedText, Text.pieces_of_not_mem hfeed, List.flatMap_singleton]
  obtain ⟨hup, hnet⟩ := hfolds.staysUp
  refine ⟨fun front hfront => ?_, ?_⟩
  · rw [hcounted] at hfront
    simpa using hup front hfront
  · rw [netDepth, hcounted]
    simpa using hnet

/-! ### Records -/

theorem parens_append_feed (s t : Text) : parens (s ++ '\n' :: t) = parens s ++ parens t := by
  rw [parens, Signal.ofText_append_feed, List.filterMap_append]
  rfl

theorem parens_join (texts : List Text) :
    parens (List.intercalate ['\n'] texts) = texts.flatMap parens := by
  induction texts with
  | nil => rfl
  | cons text texts ih =>
    cases texts with
    | nil => simp
    | cons text' texts =>
      rw [List.intercalate_cons_cons, List.append_assoc, List.singleton_append,
        parens_append_feed, ih]
      exact List.flatMap_cons.symm

/-- Blanks hold no parentheses. -/
theorem parens_stripLeft (text : Text) : parens (Text.stripLeft text) = parens text := by
  obtain ⟨blanks, hblanks, htext⟩ := Signal.exists_ofText_stripLeft text
  have hnone : blanks.filterMap Signal.paren? = [] := by
    rw [List.filterMap_eq_nil_iff]
    intro x hx
    have hblank := hblanks x hx
    cases x with
    | opening | closing => exact hblank.elim
    | gap | char => rfl
  rw [parens, parens, htext, List.filterMap_append, hnone, List.nil_append]

/-- The parentheses of a line itself; a header is not written. -/
def Line.ownParens (line : Line) : Text := if isHeader line.text then [] else parens line.content

theorem parens_inner (line : Line) (texts : List Text) :
    parens (Record.inner line texts) = line.ownParens ++ texts.flatMap parens := by
  rw [Record.inner, Line.ownParens]
  split
  · rw [parens_stripLeft, parens_join, List.nil_append]
  · split
    · next h => rw [List.isEmpty_iff.mp h, List.flatMap_nil, List.append_nil]
    · rw [parens_append_feed, parens_join]

/-- The parentheses of a record are those of its line and of what is below it, in parentheses of
its own if the node needs them. -/
theorem parens_record (line : Line) (tokens : Int) (children : List Node) :
    parens (Node.subtree line tokens children).record =
      if Node.needsParens tokens children then
        '(' :: (line.ownParens ++ (children.map Node.record).flatMap parens) ++ [')']
      else line.ownParens ++ (children.map Node.record).flatMap parens := by
  have hindent := line.isIndent_of_mem_indent
  rw [Node.record, Node.records_eq_map, ← parens_inner]
  cases Node.needsParens tokens children with
  | false => rw [parens, Signal.ofText_wrap_false hindent, if_neg (by simp), parens]
  | true =>
    obtain ⟨gaps, hgaps, hsignals⟩ :=
      Signal.exists_ofText_wrap_true hindent (Signal.head?_inner line (children.map Node.record))
    have hnone : gaps.filterMap Signal.paren? = [] := by
      rw [List.filterMap_eq_nil_iff]
      intro x hx
      rw [hgaps x hx]
      rfl
    rw [parens, hsignals, if_pos rfl, List.filterMap_cons, List.filterMap_append,
      List.filterMap_append, hnone]
    rfl

/-! ### Continuations -/

/-- The text of a continuation. -/
def Node.continuationText? : Node → Option Text
  | .continuation text _ => some text
  | .subtree _ _ _ => none

/-- The texts of the continuations of a forest, in preorder. -/
def Node.continuations (nodes : List Node) : List Text :=
  (Node.flatten nodes).filterMap Node.continuationText?

theorem Node.continuations_cons (node : Node) (nodes : List Node) :
    Node.continuations (node :: nodes) = Node.continuations [node] ++ Node.continuations nodes := by
  rw [Node.continuations, Node.flatten_cons, List.filterMap_append]
  rfl

theorem Node.continuations_subtree (line : Line) (tokens : Int) (children : List Node) :
    Node.continuations [.subtree line tokens children] = Node.continuations children := by
  rw [Node.continuations, Node.flatten_subtree]
  rfl

/-- The parentheses of a part of a record are off by what the continuations in it are. -/
structure Tallies (s : Text) (continuations : List Text) : Prop where
  depth_eq : depth s = (continuations.map netDepth).sum
  staysUp : (∀ text ∈ continuations, IsBalanced text) → StaysUp 0 s

theorem Tallies.nil : Tallies [] [] := ⟨rfl, fun _ => staysUp_nil.mpr (by simp)⟩

theorem Tallies.of_isBalanced {text : Text} (h : IsBalanced text) : Tallies (parens text) [] := by
  obtain ⟨hup, hnet⟩ := isBalanced_iff.mp h
  exact ⟨hnet, fun _ => hup⟩

theorem Tallies.continuation (text : Text) : Tallies (parens text) [text] := by
  refine ⟨by simp [netDepth_eq_depth_parens], fun h => ?_⟩
  exact (isBalanced_iff.mp (h text (by simp))).1

theorem Tallies.append {s s' : Text} {texts texts' : List Text} (h : Tallies s texts)
    (h' : Tallies s' texts') : Tallies (s ++ s') (texts ++ texts') := by
  refine ⟨by rw [depth_append, h.depth_eq, h'.depth_eq, List.map_append, List.sum_append], ?_⟩
  intro hbalanced
  have hs := h.staysUp fun text htext => hbalanced text (by simp [htext])
  have hs' := h'.staysUp fun text htext => hbalanced text (by simp [htext])
  have hend := hs s (List.prefix_refl s)
  exact staysUp_append.mpr ⟨hs, hs'.mono hend⟩

/-- Parentheses around a part keep its tally. -/
theorem Tallies.wrap {s : Text} {texts : List Text} (h : Tallies s texts) :
    Tallies ('(' :: s ++ [')']) texts := by
  refine ⟨?_, fun hbalanced => ?_⟩
  · rw [List.cons_append, depth_cons, depth_append, h.depth_eq, depth_cons]
    simp only [depthStep, depth, List.foldl_nil, if_true]
    rw [if_neg (by decide)]
    omega
  · have hs := h.staysUp hbalanced
    have hend := hs s (List.prefix_refl s)
    rw [List.cons_append, staysUp_cons, staysUp_append, staysUp_cons, staysUp_nil, depthStep,
      if_pos rfl, depthStep, if_neg (by decide), if_pos rfl]
    exact ⟨by omega, hs.mono (by omega), by omega, by omega⟩

theorem Tallies.records {nodes : List Node}
    (h : ∀ node ∈ nodes, Tallies (parens node.record) (Node.continuations [node])) :
    Tallies ((nodes.map Node.record).flatMap parens) (Node.continuations nodes) := by
  induction nodes with
  | nil => exact .nil
  | cons node nodes ih =>
    rw [Node.continuations_cons, List.map_cons, List.flatMap_cons]
    exact (h node (by simp)).append (ih fun node' hnode' => h node' (by simp [hnode']))

/-- In an outline every record has the tally of its own continuations. -/
theorem Nested.tallies {lines : List Text} (hlines : ∀ text ∈ lines, '\n' ∉ text) {parent : Int}
    {nodes : List Node} (h : Nested lines parent nodes) :
    ∀ node ∈ nodes, Tallies (parens node.record) (Node.continuations [node]) := by
  induction h with
  | intro siblings below ih =>
    intro node hnode
    cases node with
    | continuation text number => exact Tallies.continuation text
    | subtree line tokens children =>
      obtain ⟨hline, n, hcount, -⟩ := siblings.counted line tokens children hnode
      have hown : Tallies line.ownParens [] := by
        rw [Line.ownParens]
        split
        · exact .nil
        · exact .of_isBalanced (isBalanced_of_count (not_mem_content hlines hline) hcount)
      have hall := hown.append (Tallies.records (ih line tokens children hnode))
      rw [List.nil_append, ← Node.continuations_subtree line tokens children] at hall
      rw [parens_record]
      split
      · exact hall.wrap
      · exact hall

/-- **Records are balanced, as far as their continuations are.** The depth at the end of a record
is that of its continuations together. If each of these is balanced on its own, so is the record,
and so is a record without continuations. -/
theorem transpile_balanced {lines : List Text} {filename : Text} {records : List Text}
    (hlines : ∀ text ∈ lines, '\n' ∉ text) (h : transpile lines filename = .ok records) :
    ∃ doc, Document.read lines filename = .ok doc ∧ records = doc.roots.map Node.record ∧
      ∀ root ∈ doc.roots,
        netDepth root.record = ((Node.continuations [root]).map netDepth).sum ∧
        ((∀ text ∈ Node.continuations [root], IsBalanced text) → IsBalanced root.record) ∧
        (Node.continuations [root] = [] → IsBalanced root.record) := by
  obtain ⟨doc, hread, rfl⟩ := exists_of_map_eq_ok h
  refine ⟨doc, hread, Node.records_eq_map doc.roots, fun root hroot => ?_⟩
  have htally := (isOutline_of_read hread).2.nested.tallies hlines root hroot
  have hbalanced : (∀ text ∈ Node.continuations [root], IsBalanced text) →
      IsBalanced root.record := by
    intro hall
    refine isBalanced_iff.mpr ⟨htally.staysUp hall, ?_⟩
    rw [htally.depth_eq]
    refine List.sum_eq_zero fun d hd => ?_
    obtain ⟨text, htext, rfl⟩ := List.mem_map.mp hd
    exact (hall text htext).netDepth_eq
  refine ⟨by rw [netDepth_eq_depth_parens, htally.depth_eq], hbalanced, fun hnone => ?_⟩
  exact hbalanced (by simp [hnone])

/-- A record whose continuations open one parenthesis and close two, and a record without. -/
theorem transpile_balanced_two_roots :
    ∃ doc,
      Document.read ["f \"(\" ; call".toList, "|(g".toList, "  ---".toList,
        "    (x y)z ; last".toList, "  | h)".toList, "|)".toList, "k".toList] [] = .ok doc ∧
      ["(f \"(\" ; call\n(g\n  ((x y)z ; last\n    h))\n ))".toList, "k".toList] =
        doc.roots.map Node.record ∧
      ∀ root ∈ doc.roots,
        netDepth root.record = ((Node.continuations [root]).map netDepth).sum ∧
        ((∀ text ∈ Node.continuations [root], IsBalanced text) → IsBalanced root.record) ∧
        (Node.continuations [root] = [] → IsBalanced root.record) :=
  transpile_balanced (by decide +kernel) (by decide +kernel)

end Offside
