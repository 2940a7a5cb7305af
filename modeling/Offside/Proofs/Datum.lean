import Offside.Proofs.Folding
import Offside.Proofs.Signal

/-!
# Reading parenthesised text

What a parenthesised text means is given by a reader for it. A datum is a run of characters and
groups with no gap in it, and a group is a list of data in parentheses: `f(a b)"c d"` is one datum.
The reader goes through the signals of the text with a stack of frames, one for the text and one
for each group that is open. A frame has the data that are complete and the one that is not.

Reading is compositional: what a part reads as does not depend on what stands before it and around
it, as long as it does not touch the datum before it (`run_onto`). So texts on lines of their own
read one after the other (`read_append_feed`), and a text in parentheses reads as one group
(`read_wrap_true`).

A line whose parentheses match is read, as many data as it has tokens (`exists_read_ofBody`). Blanks
in front of a datum are part of it (`exists_of_read_append_blank`).
-/

namespace Offside

/-! ### The reader -/

/-- A character or a group of a datum. -/
inductive Piece where
  | char (c : Char)
  | group (data : List (List Piece))

/-- A datum: pieces without a gap between them. -/
abbrev Datum := List Piece

/-- What has been read of a text or of a group: the data that are complete, and the one that is
not, which is empty behind a gap. -/
structure Frame where
  done : List Datum
  current : Datum

namespace Frame

def empty : Frame := ⟨[], []⟩

/-- The data of a frame that ends here. -/
def data (frame : Frame) : List Datum :=
  if frame.current.isEmpty then frame.done else frame.done ++ [frame.current]

def add (frame : Frame) (piece : Piece) : Frame := ⟨frame.done, frame.current ++ [piece]⟩

def endDatum (frame : Frame) : Frame := ⟨frame.data, []⟩

/-- Take one signal. The innermost frame comes first. -/
def step : List Frame → Signal → Option (List Frame)
  | outer, .opening => some (empty :: outer)
  | top :: outer, .char c => some (top.add (.char c) :: outer)
  | top :: outer, .gap => some (top.endDatum :: outer)
  | top :: next :: outer, .closing => some (next.add (.group top.data) :: outer)
  | _, _ => none

def run (frames : List Frame) (signals : List Signal) : Option (List Frame) :=
  signals.foldlM step frames

end Frame

/-- The data of a list of signals, if every parenthesis has its partner. -/
def Signal.read (signals : List Signal) : Option (List Datum) :=
  match Frame.run [Frame.empty] signals with
  | some [frame] => some frame.data
  | _ => none

/-- The data of a parenthesised text. -/
def Datum.read (text : Text) : Option (List Datum) := Signal.read (Signal.ofText text)

/-! ### Frames behind other frames -/

namespace Frame

/-- What is read behind `before`: the first datum of `frame` carries on the last one of
`before`. -/
def onto (before frame : Frame) : Frame :=
  match frame.done with
  | [] => ⟨before.done, before.current ++ frame.current⟩
  | first :: rest => ⟨before.done ++ (before.current ++ first) :: rest, frame.current⟩

theorem onto_empty (before : Frame) : before.onto empty = before := by
  simp [onto, empty]

theorem onto_add (before frame : Frame) (piece : Piece) :
    before.onto (frame.add piece) = (before.onto frame).add piece := by
  obtain ⟨done, current⟩ := frame
  cases done <;> simp [onto, add]

theorem data_onto_of_cons {before frame : Frame} {first : Datum} {rest : List Datum}
    (h : frame.data = first :: rest) :
    (before.onto frame).data = before.done ++ (before.current ++ first) :: rest := by
  obtain ⟨done, current⟩ := frame
  cases done with
  | nil =>
    cases current with
    | nil => simp [data] at h
    | cons piece current =>
      simp only [data, List.isEmpty_cons, Bool.false_eq_true, if_false, List.nil_append,
        List.cons.injEq] at h
      obtain ⟨rfl, rfl⟩ := h
      simp [onto, data]
  | cons first' rest' =>
    cases current <;> simp_all [onto, data]

theorem data_onto_of_nil {before frame : Frame} (hbefore : before.current = []) :
    (before.onto frame).data = before.done ++ frame.data := by
  obtain ⟨done, current⟩ := frame
  cases done <;> cases current <;> simp [onto, data, hbefore]

theorem onto_endDatum {before frame : Frame} (h : before.current = [] ∨ frame.data ≠ []) :
    before.onto frame.endDatum = (before.onto frame).endDatum := by
  cases hdata : frame.data with
  | nil =>
    have hbefore : before.current = [] := h.resolve_right (by simp [hdata])
    rw [endDatum, endDatum, data_onto_of_nil hbefore, hdata]
    simp [onto, hbefore]
  | cons first rest =>
    rw [endDatum, endDatum, data_onto_of_cons hdata, hdata]
    rfl

theorem data_add_ne_nil (frame : Frame) (piece : Piece) : (frame.add piece).data ≠ [] := by
  simp [data, add]

/-- The lowest frame of a stack may carry on a datum: nothing has to be, or something has been
read, or a group is open. -/
def Touches (before : Frame) (upper : List Frame) (lowest : Frame) : Prop :=
  before.current = [] ∨ upper ≠ [] ∨ lowest.data ≠ []

/-- A step of a stack is a step of the stack above others. -/
theorem step_onto {before lowest : Frame} {upper frames : List Frame} {x : Signal}
    (h : step (upper ++ [lowest]) x = some frames)
    (htouches : Touches before upper lowest ∨ x ≠ .gap) (outer : List Frame) :
    ∃ upper' lowest', frames = upper' ++ [lowest'] ∧ Touches before upper' lowest' ∧
      step (upper ++ before.onto lowest :: outer) x =
        some (upper' ++ before.onto lowest' :: outer) := by
  cases x with
  | opening =>
    obtain rfl := Option.some.inj h
    exact ⟨empty :: upper, lowest, rfl, .inr (.inl (by simp)), rfl⟩
  | char c =>
    cases upper with
    | nil =>
      obtain rfl := Option.some.inj h
      refine ⟨[], lowest.add (.char c), rfl, .inr (.inr (data_add_ne_nil _ _)), ?_⟩
      rw [onto_add]
      rfl
    | cons top upper =>
      obtain rfl := Option.some.inj h
      exact ⟨top.add (.char c) :: upper, lowest, rfl, .inr (.inl (by simp)), rfl⟩
  | gap =>
    -- only here it matters whether the datum before is carried on or ends
    have htouches := htouches.resolve_right (by simp)
    cases upper with
    | nil =>
      obtain rfl := Option.some.inj h
      have hlowest : before.current = [] ∨ lowest.data ≠ [] := by simpa [Touches] using htouches
      refine ⟨[], lowest.endDatum, rfl, by simpa [Touches, endDatum, data] using hlowest, ?_⟩
      rw [onto_endDatum hlowest]
      rfl
    | cons top upper =>
      obtain rfl := Option.some.inj h
      exact ⟨top.endDatum :: upper, lowest, rfl, .inr (.inl (by simp)), rfl⟩
  | closing =>
    match upper with
    | [] => exact absurd h (by simp [step])
    | [top] =>
      obtain rfl := Option.some.inj h
      refine ⟨[], lowest.add (.group top.data), rfl, .inr (.inr (data_add_ne_nil _ _)), ?_⟩
      rw [onto_add]
      rfl
    | top :: next :: upper =>
      obtain rfl := Option.some.inj h
      exact ⟨next.add (.group top.data) :: upper, lowest, rfl, .inr (.inl (by simp)), rfl⟩

theorem run_cons (frames : List Frame) (x : Signal) (signals : List Signal) :
    run frames (x :: signals) = (step frames x).bind fun frames' => run frames' signals := rfl

theorem run_append (frames : List Frame) (signals signals' : List Signal) :
    run frames (signals ++ signals') =
      (run frames signals).bind fun frames' => run frames' signals' :=
  List.foldlM_append

private theorem run_append_onto {before lowest frame : Frame} {upper : List Frame}
    {signals : List Signal}
    (h : run (upper ++ [lowest]) signals = some [frame])
    (htouches : Touches before upper lowest ∨ signals.head? ≠ some .gap) (outer : List Frame) :
    run (upper ++ before.onto lowest :: outer) signals = some (before.onto frame :: outer) := by
  induction signals generalizing upper lowest with
  | nil =>
    have hframes : upper ++ [lowest] = [] ++ [frame] := Option.some.inj h
    obtain ⟨rfl, hlowest⟩ := List.append_inj' hframes rfl
    obtain rfl := List.singleton_inj.mp hlowest
    rfl
  | cons x signals ih =>
    rw [run_cons] at h
    obtain ⟨frames, hstep, hrun⟩ := Option.bind_eq_some_iff.mp h
    have hx : Touches before upper lowest ∨ x ≠ .gap := by simpa using htouches
    obtain ⟨upper', lowest', rfl, htouches', hstep'⟩ := step_onto hstep hx outer
    rw [run_cons, hstep', Option.bind_some]
    exact ih hrun (.inl htouches')

/-- **What is read does not depend on what stands before and around it.** Only a datum before it,
with no gap between, is carried on. -/
theorem run_onto {before frame : Frame} {signals : List Signal}
    (h : run [empty] signals = some [frame])
    (htouches : before.current = [] ∨ signals.head? ≠ some .gap) (outer : List Frame) :
    run (before :: outer) signals = some (before.onto frame :: outer) := by
  have hrun := @run_append_onto before empty frame [] signals h (htouches.imp .inl id) outer
  rwa [onto_empty] at hrun

end Frame

/-! ### Data of a text that is put together -/

namespace Signal

theorem read_eq_some_iff {signals : List Signal} {data : List Datum} :
    read signals = some data ↔
      ∃ frame : Frame, Frame.run [Frame.empty] signals = some [frame] ∧ frame.data = data := by
  rw [read]
  constructor
  · intro h
    split at h
    · next frame hrun => exact ⟨frame, hrun, Option.some.inj h⟩
    · exact absurd h (by simp)
  · rintro ⟨frame, hrun, rfl⟩
    rw [hrun]

theorem read_nil : read [] = some [] := rfl

/-- A gap ends what stands before it. -/
theorem read_append_gap {signals signals' : List Signal} {data data' : List Datum}
    (h : read signals = some data) (h' : read signals' = some data') :
    read (signals ++ gap :: signals') = some (data ++ data') := by
  obtain ⟨frame, hrun, rfl⟩ := read_eq_some_iff.mp h
  obtain ⟨frame', hrun', rfl⟩ := read_eq_some_iff.mp h'
  refine read_eq_some_iff.mpr ⟨frame.endDatum.onto frame', ?_, Frame.data_onto_of_nil rfl⟩
  rw [Frame.run_append, hrun]
  exact Frame.run_onto hrun' (.inl rfl) []

theorem read_append_gaps {signals gaps : List Signal} {data : List Datum}
    (h : read signals = some data) (hgaps : ∀ x ∈ gaps, x = gap) :
    read (signals ++ gaps) = some data := by
  induction gaps generalizing signals with
  | nil => rwa [List.append_nil]
  | cons x gaps ih =>
    obtain rfl := hgaps x (by simp)
    have hgap : read (signals ++ [gap]) = some (data ++ []) := read_append_gap h read_nil
    rw [List.append_nil] at hgap
    rw [List.append_cons]
    exact ih hgap fun y hy => hgaps y (by simp [hy])

/-- What stands in parentheses is one group. -/
theorem read_group {signals : List Signal} {data : List Datum} (h : read signals = some data) :
    read (opening :: (signals ++ [closing])) = some [[.group data]] := by
  obtain ⟨frame, hrun, rfl⟩ := read_eq_some_iff.mp h
  refine read_eq_some_iff.mpr ⟨Frame.empty.add (.group frame.data), ?_, rfl⟩
  have hinside : Frame.run [Frame.empty, Frame.empty] signals =
      some [Frame.empty.onto frame, Frame.empty] := Frame.run_onto hrun (.inl rfl) [Frame.empty]
  have hdata : (Frame.empty.onto frame).data = frame.data := Frame.data_onto_of_nil rfl
  calc Frame.run [Frame.empty] (opening :: (signals ++ [closing]))
      = Frame.run [Frame.empty, Frame.empty] (signals ++ [closing]) := rfl
    _ = Frame.run [Frame.empty.onto frame, Frame.empty] [closing] := by
      rw [Frame.run_append, hinside, Option.bind_some]
    _ = some [Frame.empty.add (.group frame.data)] := by
      rw [← hdata]
      rfl

end Signal

namespace Datum

theorem read_nil : read [] = some [] := rfl

/-- Texts on lines of their own are read one after the other. -/
theorem read_append_feed {s t : Text} {data data' : List Datum} (hs : read s = some data)
    (ht : read t = some data') : read (s ++ '\n' :: t) = some (data ++ data') := by
  rw [read, Signal.ofText_append_feed]
  exact Signal.read_append_gap hs ht

theorem read_append_indent {indent : Text} (h : ∀ c ∈ indent, Line.isIndent c = true) (t : Text) :
    read (indent ++ t) = read t := by
  rw [read, Signal.ofText_append_indent h, read]

/-- A text that is put in parentheses is read as one group. -/
theorem read_wrap_true {indent text : Text} {data : List Datum}
    (hindent : ∀ c ∈ indent, Line.isIndent c = true)
    (htext : ∀ c ∈ text.head?, Line.isIndent c = false) (h : read text = some data) :
    read (Record.wrap true indent text) = some [[.group data]] := by
  obtain ⟨gaps, hgaps, hsignals⟩ := Signal.exists_ofText_wrap_true hindent htext
  rw [read, hsignals, ← List.append_assoc]
  exact Signal.read_group (Signal.read_append_gaps h hgaps)

end Datum

/-! ### The data of a content -/

namespace Frame

/-- A piece starts a datum where it is left as the start of a piece. -/
theorem length_data_add (frame : Frame) (piece : Piece) {c : Char} (hc : c ≠ ' ') (t : Text) :
    (frame.add piece).data.length + Token.starts (!(frame.add piece).current.isEmpty) t =
      frame.data.length + Token.starts (!frame.current.isEmpty) (c :: t) := by
  have hcurrent : (frame.add piece).current.isEmpty = false := by simp [add]
  rw [Token.starts, if_neg hc, hcurrent, ← Nat.add_assoc, data, hcurrent]
  cases hframe : frame.current.isEmpty <;> simp [data, add, hframe]

/-- A character that is not a parenthesis changes only the innermost frame, and starts a datum
there where it starts a piece. -/
theorem exists_step_ofChar {c m : Char} (hopening : m ≠ '(') (hclosing : m ≠ ')') :
    ∃ next : Frame → Frame,
      (∀ top outer, step (top :: outer) (Signal.ofChar c m) = some (next top :: outer)) ∧
        ∀ top t, (next top).data.length + Token.starts (!(next top).current.isEmpty) t =
          top.data.length + Token.starts (!top.current.isEmpty) (m :: t) := by
  rw [Signal.ofChar, if_neg hopening, if_neg hclosing]
  by_cases hm : m = ' '
  · refine ⟨endDatum, fun top outer => by rw [if_pos hm]; rfl, fun top t => ?_⟩
    rw [Token.starts, if_pos hm]
    simp [data, endDatum]
  · refine ⟨fun top => top.add (.char c), fun top outer => by rw [if_neg hm]; rfl, fun top t => ?_⟩
    exact length_data_add top (.char c) hm t

/-- Where folding succeeds, the reader does too, and it has read as many data as pieces are
left. -/
theorem exists_run_of_folds {depth : Nat} {marked : List (Char × Char)} {t : Text}
    (h : Group.Folds depth (marked.map Prod.snd) t) {upper : List Frame}
    (hupper : upper.length = depth) (lowest : Frame) :
    ∃ frame : Frame,
      run (upper ++ [lowest]) (marked.map fun x => Signal.ofChar x.1 x.2) = some [frame] ∧
        frame.data.length = lowest.data.length + Token.starts (!lowest.current.isEmpty) t := by
  induction marked generalizing depth t upper lowest with
  | nil =>
    cases h
    obtain rfl := List.length_eq_zero_iff.mp hupper
    exact ⟨lowest, rfl, rfl⟩
  | cons x marked ih =>
    obtain ⟨c, m⟩ := x
    rw [List.map_cons] at h
    cases h with
    | opening rest =>
      have hlength : (empty :: upper).length = depth + 1 := by simp [hupper]
      exact ih rest hlength lowest
    | closing rest =>
      obtain ⟨top, upper, rfl⟩ := List.exists_cons_of_length_eq_add_one hupper
      obtain ⟨next, upper, rfl⟩ := List.exists_cons_of_length_eq_add_one (Nat.succ.inj hupper)
      have hlength : (next.add (.group top.data) :: upper).length = _ + 1 := Nat.succ.inj hupper
      exact ih rest hlength lowest
    | leave rest =>
      -- the group is one more piece of the datum that is being read
      obtain ⟨top, rfl⟩ := List.length_eq_one_iff.mp hupper
      obtain ⟨frame, hrun, hdata⟩ := ih rest List.length_nil (lowest.add (.group top.data))
      exact ⟨frame, hrun, hdata.trans (length_data_add lowest _ (by decide) _)⟩
    | inside hopening hclosing rest =>
      obtain ⟨top, upper, rfl⟩ := List.exists_cons_of_length_eq_add_one hupper
      obtain ⟨next, hstep, -⟩ := exists_step_ofChar (c := c) hopening hclosing
      have hlength : (next top :: upper).length = _ + 1 := hupper
      obtain ⟨frame, hrun, hdata⟩ := ih rest hlength lowest
      refine ⟨frame, ?_, hdata⟩
      rw [List.map_cons, run_cons, List.cons_append, hstep]
      exact hrun
    | outside hopening hclosing rest =>
      obtain rfl := List.length_eq_zero_iff.mp hupper
      obtain ⟨next, hstep, hstarts⟩ := exists_step_ofChar (c := c) hopening hclosing
      obtain ⟨frame, hrun, hdata⟩ := ih rest List.length_nil (next lowest)
      refine ⟨frame, ?_, hdata.trans (hstarts lowest _)⟩
      rw [List.map_cons, run_cons, List.nil_append, hstep]
      exact hrun

end Frame

namespace Signal

/-- A line whose parentheses match is read, with as many data as pieces are left. -/
theorem exists_read_ofBody {body t : Text}
    (h : Group.Folds 0 (Comment.strip (Literal.mask body)) t) :
    ∃ data, read (ofBody body) = some data ∧ data.length = Token.countPieces t := by
  rw [← map_snd_visible] at h
  obtain ⟨frame, hrun, hdata⟩ := Frame.exists_run_of_folds h List.length_nil Frame.empty
  refine ⟨frame.data, read_eq_some_iff.mpr ⟨frame, hrun, rfl⟩, ?_⟩
  rw [hdata, Token.countPieces_eq]
  simp [Frame.data, Frame.empty]

theorem head?_ofBody_ne_gap {c : Char} (hc : c ≠ ' ') (s : Text) :
    (ofBody (c :: s)).head? ≠ some gap := by
  obtain ⟨m, rest, hmask, hm⟩ := Literal.exists_mask_cons c s
  have hspace : m ≠ ' ' := by
    rcases hm with rfl | rfl
    · exact hc
    · decide
  have hsignal : ofChar c m ≠ gap := by
    rw [ofChar, if_neg hspace]
    split
    · simp
    · split <;> simp
  rw [ofBody, visible, hmask, List.zip_cons_cons, List.takeWhile_cons]
  split
  · simpa using hsignal
  · simp

end Signal

/-! ### Blanks in front of a datum -/

/-- Whether a piece of a datum is a blank character. -/
def Piece.IsBlank : Piece → Prop
  | .char c => Text.isBlank c = true
  | .group _ => False

namespace Frame

/-- Blanks are read as blank data. -/
theorem exists_run_of_blank {blanks : Text} (h : ∀ c ∈ blanks, Text.isBlank c = true)
    (frame : Frame) (hframe : ∀ piece ∈ frame.current, piece.IsBlank) :
    ∃ frame', run [frame] (blanks.map fun c => Signal.ofChar c c) = some [frame'] ∧
      ∀ piece ∈ frame'.current, piece.IsBlank := by
  induction blanks generalizing frame with
  | nil => exact ⟨frame, rfl, hframe⟩
  | cons c blanks ih =>
    have hblanks : ∀ d ∈ blanks, Text.isBlank d = true := fun d hd => h d (by simp [hd])
    have hc := h c (by simp)
    rw [List.map_cons, run_cons]
    cases hsignal : Signal.ofChar c c with
    | gap => exact ih hblanks frame.endDatum (by simp [endDatum])
    | char d =>
      have hd := Signal.isBlank_ofChar hc
      rw [hsignal] at hd
      refine ih hblanks (frame.add (.char d)) fun piece hpiece => ?_
      rcases List.mem_append.mp hpiece with hpiece | hpiece
      · exact hframe piece hpiece
      · rw [List.mem_singleton.mp hpiece]
        exact hd
    | opening | closing =>
      have hparen := Signal.isBlank_ofChar hc
      rw [hsignal] at hparen
      exact hparen.elim

end Frame

/-- Blanks in front of the signals of a datum belong to the datum, if nothing but one datum is read
in all. -/
theorem Signal.exists_of_read_append_blank {blanks : Text} {signals : List Signal}
    {datum first : Datum} {rest : List Datum} (hblanks : ∀ c ∈ blanks, Text.isBlank c = true)
    (hgap : signals.head? ≠ some gap) (hread : read signals = some (first :: rest))
    (h : read ((blanks.map fun c => ofChar c c) ++ signals) = some [datum]) :
    rest = [] ∧ ∃ front, datum = front ++ first ∧ ∀ piece ∈ front, piece.IsBlank := by
  obtain ⟨before, hbefore, hblank⟩ :=
    Frame.exists_run_of_blank hblanks Frame.empty (by simp [Frame.empty])
  obtain ⟨frame, hrun, hdata⟩ := read_eq_some_iff.mp hread
  obtain ⟨whole, hwhole, hdatum⟩ := read_eq_some_iff.mp h
  rw [Frame.run_append, hbefore, Option.bind_some, Frame.run_onto hrun (.inr hgap)] at hwhole
  obtain rfl := List.singleton_inj.mp (Option.some.inj hwhole)
  rw [Frame.data_onto_of_cons hdata] at hdatum
  obtain ⟨-, hcons⟩ | ⟨-, hnil⟩ := List.append_eq_singleton_iff.mp hdatum
  · obtain ⟨rfl, rfl⟩ := List.cons.inj hcons
    exact ⟨rfl, before.current, rfl, hblank⟩
  · exact absurd hnil (by simp)

end Offside
