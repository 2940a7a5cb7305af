import Mathlib.Data.List.Forall2
import Mathlib.Order.Monotone.Basic
import Offside.Proofs.Reading

/-!
# Forests that are alike

The reader looks at the contents of lines and at the order of their widths, and at nothing else. So
if the lines of two files correspond in such a way that contents are kept and widths keep their
order (`KeepsOrder f R`), the two forests are alike after every line: they have one shape, and the
lines at corresponding nodes correspond (`Alike R K`).

There are two step lemmas, one for each fate of the next line. Where one of two forests that are
alike grows by it, so does the other, and the forests stay alike (`Grows.alike`). Where one of them
refuses it, so does the other, for the same fault and at the same offset of the content
(`Refuses.alike`).
-/

namespace Offside

/-! ### Lists that correspond -/

section Correspondence

variable {α β : Type} {P : α → β → Prop} {xs : List α} {ys : List β}

theorem exists_concat_of_forall₂ {x : α} (h : List.Forall₂ P (xs ++ [x]) ys) :
    ∃ front last, ys = front ++ [last] ∧ List.Forall₂ P xs front ∧ P x last := by
  rw [← List.forall₂_reverse_iff, List.reverse_append, List.reverse_singleton,
    List.singleton_append, List.forall₂_cons_left_iff] at h
  obtain ⟨last, front, hlast, hfront, hys⟩ := h
  refine ⟨front.reverse, last, ?_, ?_, hlast⟩
  · rw [← List.reverse_reverse ys, hys, List.reverse_cons]
  · rwa [← List.forall₂_reverse_iff, List.reverse_reverse]

theorem forall₂_concat {x : α} {y : β} (h : List.Forall₂ P xs ys) (hlast : P x y) :
    List.Forall₂ P (xs ++ [x]) (ys ++ [y]) :=
  List.rel_append h (.cons hlast .nil)

theorem exists_mem_left_of_forall₂ {y : β} (h : List.Forall₂ P xs ys) (hy : y ∈ ys) :
    ∃ x ∈ xs, P x y := by
  induction h with
  | nil => simp at hy
  | cons hfirst _ ih =>
    rcases List.mem_cons.mp hy with rfl | hy
    · exact ⟨_, List.mem_cons_self, hfirst⟩
    · obtain ⟨x, hx, hxy⟩ := ih hy
      exact ⟨x, List.mem_cons_of_mem _ hx, hxy⟩

theorem exists_mem_right_of_forall₂ {x : α} (h : List.Forall₂ P xs ys) (hx : x ∈ xs) :
    ∃ y ∈ ys, P x y :=
  exists_mem_left_of_forall₂ (P := flip P) h.flip hx

theorem exists_getLast?_of_forall₂ {y : β} (h : List.Forall₂ P xs ys) (hy : y ∈ ys.getLast?) :
    ∃ x ∈ xs.getLast?, P x y := by
  rcases List.eq_nil_or_concat' xs with rfl | ⟨front, x, rfl⟩
  · simp [List.forall₂_nil_left_iff.mp h] at hy
  · obtain ⟨front', last, rfl, -, hlast⟩ := exists_concat_of_forall₂ h
    obtain rfl : last = y := by simpa using hy
    exact ⟨x, by simp, hlast⟩

end Correspondence

/-! ### Corresponding lines -/

/-- Lines that correspond have one content, and their widths are in the same order. -/
structure KeepsOrder (f : Nat → Nat) (R : Line → Line → Prop) : Prop where
  strictMono : StrictMono f
  width_eq : ∀ {line line' : Line}, R line line' → line'.width = f line.width
  content_eq : ∀ {line line' : Line}, R line line' → line'.content = line.content

/-- The widths of corresponding parents: the root of the file, or lines. -/
inductive ParentsAlike (f : Nat → Nat) : Int → Int → Prop
  | root : ParentsAlike f Reader.rootWidth Reader.rootWidth
  | line (width : Nat) : ParentsAlike f width (f width)

theorem ParentsAlike.lt_iff {f : Nat → Nat} {parent parent' : Int}
    (h : ParentsAlike f parent parent') (hf : StrictMono f) (width : Nat) :
    parent' < f width ↔ parent < width := by
  cases h with
  | root =>
    rw [Reader.rootWidth]
    omega
  | line w => rw [Int.ofNat_lt, Int.ofNat_lt, hf.lt_iff_lt]

theorem ParentsAlike.eq_iff {f : Nat → Nat} {parent parent' : Int}
    (h : ParentsAlike f parent parent') (hf : StrictMono f) (width : Nat) :
    (f width : Int) = parent' ↔ (width : Int) = parent := by
  cases h with
  | root =>
    rw [Reader.rootWidth]
    omega
  | line w => rw [Int.ofNat_inj, Int.ofNat_inj, hf.injective.eq_iff]

/-! ### Corresponding nodes -/

/-- Two trees have one shape, their lines correspond by `R` and their continuations by `K`. Lines at
corresponding nodes have the same number of tokens, and so both need parentheses or neither does. -/
inductive Alike (R : Line → Line → Prop) (K : Node → Node → Prop) : Node → Node → Prop
  | subtree {line line' : Line} {tokens : Int} {children children' : List Node}
      (lines : R line line')
      (parens : Node.needsParens tokens children' = Node.needsParens tokens children)
      (below : List.Forall₂ (Alike R K) children children') :
      Alike R K (.subtree line tokens children) (.subtree line' tokens children')
  | continuation {text text' : Text} {number number' : Int}
      (continuations : K (.continuation text number) (.continuation text' number')) :
      Alike R K (.continuation text number) (.continuation text' number')

section Steps

variable {f : Nat → Nat} {R : Line → Line → Prop} {K : Node → Node → Prop} {line line' : Line}
  {parent parent' : Int} {nodes others : List Node}

theorem needsParens_eq_of_forall₂ {P : Node → Node → Prop} (tokens : Int)
    (h : List.Forall₂ P nodes others) :
    Node.needsParens tokens others = Node.needsParens tokens nodes := by
  rw [Node.needsParens, Node.needsParens, h.length_eq]

theorem Alike.isSubtree_iff {node other : Node} (h : Alike R K node other) :
    node.IsSubtree ↔ other.IsSubtree := by
  cases h <;> exact Iff.rfl

/-- What is alike to a line is a line. -/
theorem Alike.exists_left {node : Node} {l' : Line} {t : Int} {c' : List Node}
    (h : Alike R K node (.subtree l' t c')) :
    ∃ l c, node = .subtree l t c ∧ R l l' := by
  cases h with
  | subtree lines _ _ => exact ⟨_, _, rfl, lines⟩

theorem KeepsOrder.hasPipe_iff (hR : KeepsOrder f R) (hline : R line line') :
    line'.HasPipe ↔ line.HasPipe := by
  rw [Line.HasPipe, hR.content_eq hline, Line.HasPipe]

theorem KeepsOrder.continues_eq (hR : KeepsOrder f R) (hline : R line line')
    (hparent : ParentsAlike f parent parent') :
    line'.continues parent' = line.continues parent := by
  rw [Bool.eq_iff_iff, Line.continues_iff, Line.continues_iff, hR.hasPipe_iff hline,
    hR.width_eq hline, hparent.eq_iff hR.strictMono]

theorem KeepsOrder.parentsAlike (hR : KeepsOrder f R) (hline : R line line') :
    ParentsAlike f line.width line'.width := by
  rw [hR.width_eq hline]
  exact .line line.width

/-- A line fits where the line that corresponds to it does. -/
theorem Line.Fits.alike (h : line.Fits parent nodes) (hR : KeepsOrder f R) (hline : R line line')
    (hparent : ParentsAlike f parent parent') (hnodes : List.Forall₂ (Alike R K) nodes others) :
    line'.Fits parent' others := by
  refine ⟨?_, fun l' t c' hl' => ?_, fun node hnode hsub => ?_⟩
  · rw [hR.width_eq hline, hparent.lt_iff hR.strictMono]
    exact h.wider
  · obtain ⟨node, hnode, halike⟩ := exists_mem_left_of_forall₂ hnodes hl'
    obtain ⟨l, c, rfl, hl⟩ := halike.exists_left
    rw [hR.width_eq hl, hR.width_eq hline, h.aligned l t c hnode]
  · obtain ⟨first, hfirst, halike⟩ := exists_getLast?_of_forall₂ hnodes hnode
    rw [hR.hasPipe_iff hline]
    exact h.apart first hfirst (halike.isSubtree_iff.mpr hsub)

/-- Forests that are alike grow alike. -/
theorem Grows.alike {mark mark' : Option Char} {nodes' : List Node}
    (h : Grows mark line parent nodes nodes') (hR : KeepsOrder f R) (hline : R line line')
    (hcontinuation : K (line.continuation mark) (line'.continuation mark'))
    (hparent : ParentsAlike f parent parent') (hnodes : List.Forall₂ (Alike R K) nodes others) :
    ∃ others', Grows mark' line' parent' others others' ∧
      List.Forall₂ (Alike R K) nodes' others' := by
  induction h generalizing parent' others with
  | @child parent nodes tokens fits count =>
    have hcount : Token.count line'.content = .ok tokens := by rwa [hR.content_eq hline]
    refine ⟨_, .child (fits.alike hR hline hparent hnodes) hcount, forall₂_concat hnodes ?_⟩
    exact .subtree hline rfl .nil
  | continuation continues =>
    have hcontinues : line'.continues parent' = true := by rwa [hR.continues_eq hline hparent]
    exact ⟨_, .continuation hcontinues, forall₂_concat hnodes (.continuation hcontinuation)⟩
  | deeper grows ih =>
    -- the last two lines are the parents now, and the forests below them are alike
    obtain ⟨front, last, rfl, hfront, halike⟩ := exists_concat_of_forall₂ hnodes
    cases halike with
    | subtree lines _ below =>
      obtain ⟨others', hgrows, hothers⟩ := ih (hR.parentsAlike lines) below
      refine ⟨_, .deeper hgrows, forall₂_concat hfront ?_⟩
      exact .subtree lines (needsParens_eq_of_forall₂ _ hothers) hothers

/-- Forests that are alike refuse alike, at the same offset of the content. -/
theorem Refuses.alike {fault : Fault} {offset : Nat} (h : Refuses line parent nodes fault offset)
    (hR : KeepsOrder f R) (hline : R line line') (hparent : ParentsAlike f parent parent')
    (hnodes : List.Forall₂ (Alike R K) nodes others) :
    ∃ inner, offset = line.width + inner ∧
      Refuses line' parent' others fault (line'.width + inner) := by
  induction h generalizing parent' others with
  | @misaligned parent nodes sibling tokens children wider mem ne last =>
    obtain ⟨other, hother, halike⟩ := exists_mem_right_of_forall₂ hnodes mem
    cases halike with
    | subtree lines _ _ =>
      refine ⟨0, rfl, .misaligned ?_ hother ?_ fun l' t c' hl' => ?_⟩
      · rw [hR.width_eq hline, hparent.lt_iff hR.strictMono]
        exact wider
      · rw [hR.width_eq lines, hR.width_eq hline]
        exact hR.strictMono.injective.ne ne
      · obtain ⟨node, hnode, halike⟩ := exists_getLast?_of_forall₂ hnodes hl'
        obtain ⟨l, c, rfl, hl⟩ := halike.exists_left
        rw [hR.width_eq hl, hR.width_eq hline, hR.strictMono.le_iff_le]
        exact last l t c hnode
  | @mismatched parent nodes e fits count =>
    have hcount : Token.count line'.content = .error e := by rwa [hR.content_eq hline]
    exact ⟨e.offset, rfl, .mismatched (fits.alike hR hline hparent hnodes) hcount⟩
  | deeper refuses ih =>
    obtain ⟨front, last, rfl, hfront, halike⟩ := exists_concat_of_forall₂ hnodes
    cases halike with
    | subtree lines _ below =>
      obtain ⟨inner, hoffset, hrefuses⟩ := ih (hR.parentsAlike lines) below
      exact ⟨inner, hoffset, .deeper hrefuses⟩

end Steps

end Offside
