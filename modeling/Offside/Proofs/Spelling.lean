import Mathlib.Data.Nat.Basic
import Mathlib.Tactic.IntervalCases
import Offside.Text.Quoted
import Offside.Toml.Scalar

/-!
# How numbers and texts are spelled

What is written can be read back. A number in decimal digits is the only one with these digits
(`ofInt_injective`), and it has no space in it, so that in front of a space it can also be told
from what follows it (`ofInt_append_space_inj`). A quoted text is the only one with this form
(`quoted_injective`): the first character is the quote, and from then on each escape ends where
its first two characters say (`unescape_escape`).

A quoted text is made of printable characters (`isPrintable_of_mem_quoted`). Line breaks are not
printable, and so it never takes more than one line.
-/

namespace Offside.Text

/-! ### Decimal digits -/

theorem isDigit_of_mem_ofNat {n : Nat} {c : Char} (h : c ∈ ofNat n) : c.isDigit = true :=
  Nat.isDigit_of_mem_toDigits (by decide) (by decide) h

theorem ofNat_injective : Function.Injective ofNat := by
  intro m n h
  calc m = Nat.ofDigitChars 10 (ofNat m) 0 := Nat.ofDigitChars_ten_toDigits.symm
    _ = Nat.ofDigitChars 10 (ofNat n) 0 := by rw [h]
    _ = n := Nat.ofDigitChars_ten_toDigits

theorem isDigit_of_mem_ofInt {n : Int} {c : Char} (h : c ∈ ofInt n) :
    c = '-' ∨ c.isDigit = true := by
  rcases n with n | n
  · exact .inr (isDigit_of_mem_ofNat h)
  · exact (List.mem_cons.mp h).imp_right isDigit_of_mem_ofNat

theorem not_mem_ofInt {c : Char} (hminus : c ≠ '-') (hdigit : c.isDigit = false) (n : Int) :
    c ∉ ofInt n := by
  intro h
  rcases isDigit_of_mem_ofInt h with heq | hc
  · exact hminus heq
  · simp [hdigit] at hc

/-- A minus sign is in front of negative numbers only. -/
theorem ofNat_ne_minus (m : Nat) (s : Text) : ofNat m ≠ '-' :: s := by
  intro h
  have hminus : '-' ∈ ofNat m := by simp [h]
  exact absurd (isDigit_of_mem_ofNat hminus) (by decide)

theorem ofInt_injective : Function.Injective ofInt := by
  rintro (m | m) (n | n) h
  · exact congrArg Int.ofNat (ofNat_injective h)
  · exact absurd h (ofNat_ne_minus m _)
  · exact absurd h.symm (ofNat_ne_minus n _)
  · have hsucc := ofNat_injective (List.cons.inj h).2
    rw [Nat.succ.inj hsucc]

/-- Texts that end at the first occurrence of a character are the same if what they are part of
is. -/
theorem append_cons_inj {c : Char} {s s' t t' : Text} (hs : c ∉ s) (hs' : c ∉ s')
    (h : s ++ c :: t = s' ++ c :: t') : s = s' ∧ t = t' := by
  rcases List.append_eq_append_iff.mp h with
    ⟨_ | ⟨d, more⟩, rfl, hrest⟩ | ⟨_ | ⟨d, more⟩, rfl, hrest⟩
  · exact ⟨by simp, (List.cons.inj hrest).2⟩
  · exact absurd (by simp [(List.cons.inj hrest).1]) hs'
  · exact ⟨by simp, (List.cons.inj hrest).2.symm⟩
  · exact absurd (by simp [(List.cons.inj hrest).1]) hs

/-- In front of a space, a number ends where its digits do. -/
theorem ofInt_append_space_inj {m n : Int} {s t : Text}
    (h : ofInt m ++ ' ' :: s = ofInt n ++ ' ' :: t) : m = n ∧ s = t := by
  have hspace (k : Int) : ' ' ∉ ofInt k := not_mem_ofInt (by decide) (by decide) k
  obtain ⟨hnumber, hrest⟩ := append_cons_inj (hspace m) (hspace n) h
  exact ⟨ofInt_injective hnumber, hrest⟩

/-! ### Hexadecimal digits -/

theorem hexValue?_digitChar {d : Nat} (h : d < 16) : Toml.hexValue? (Nat.digitChar d) = some d := by
  interval_cases d <;> rfl

theorem length_hex (width n : Nat) : (hex width n).length = width := by
  induction width generalizing n with
  | zero => rfl
  | succ width ih => rw [hex, List.length_append, ih, List.length_singleton]

theorem exists_digit_of_mem_hex {width n : Nat} {c : Char} (h : c ∈ hex width n) :
    ∃ d < 16, c = Nat.digitChar d := by
  induction width generalizing n with
  | zero => simp [hex] at h
  | succ width ih =>
    rw [hex, List.mem_append, List.mem_singleton] at h
    rcases h with h | h
    · exact ih h
    · exact ⟨n % 16, Nat.mod_lt n (by decide), h⟩

/-- Hexadecimal digits spell the number that they were made of, as far as they go. -/
theorem valueIn_hex (width n : Nat) : Toml.valueIn 16 (hex width n) = n % 16 ^ width := by
  induction width generalizing n with
  | zero => simp [hex, Toml.valueIn, Nat.mod_one]
  | succ width ih =>
    have hdigit : Toml.hexValue? (Nat.digitChar (n % 16)) = some (n % 16) :=
      hexValue?_digitChar (Nat.mod_lt n (by decide))
    simp only [Toml.valueIn] at ih ⊢
    rw [hex, List.foldl_append, ih, List.foldl_cons, List.foldl_nil, hdigit,
      Option.getD_some, Nat.pow_succ', Nat.mod_mul]
    omega

/-! ### Printable characters -/

theorem isPrintable_of_ascii {c : Char} (hlow : 0x20 ≤ c.toNat) (hhigh : c.toNat ≤ 0x7E) :
    isPrintable c = true := by
  have hmem : (0x20, 0x7E) ∈ printableLow := by
    rw [printableLow]
    exact List.mem_cons_self
  have hfirst : printableLow.has c = true :=
    List.any_eq_true.mpr ⟨(0x20, 0x7E), hmem, by simp [hlow, hhigh]⟩
  rw [isPrintable, hfirst, Bool.true_or, Bool.true_or]

theorem isPrintable_of_mem_ascii {s : Text}
    (h : s.all (fun c => 0x20 ≤ c.toNat && c.toNat ≤ 0x7E) = true) :
    ∀ c ∈ s, isPrintable c = true := by
  intro c hc
  have hascii := List.all_eq_true.mp h c hc
  simp only [Bool.and_eq_true, decide_eq_true_eq] at hascii
  exact isPrintable_of_ascii hascii.1 hascii.2

theorem isPrintable_of_isDigit {c : Char} (h : c.isDigit = true) : isPrintable c = true := by
  simp only [Char.isDigit, Bool.and_eq_true, decide_eq_true_eq, ge_iff_le,
    UInt32.le_iff_toNat_le] at h
  obtain ⟨hlow, hhigh⟩ := h
  exact isPrintable_of_ascii (Nat.le_trans (by decide) hlow) (Nat.le_trans hhigh (by decide))

theorem isPrintable_of_mem_ofInt {n : Int} {c : Char} (h : c ∈ ofInt n) :
    isPrintable c = true := by
  rcases isDigit_of_mem_ofInt h with rfl | hc
  · exact isPrintable_of_ascii (by decide) (by decide)
  · exact isPrintable_of_isDigit hc

theorem isPrintable_of_mem_hex {width n : Nat} {c : Char} (h : c ∈ hex width n) :
    isPrintable c = true := by
  obtain ⟨d, hd, rfl⟩ := exists_digit_of_mem_hex h
  interval_cases d <;> exact isPrintable_of_ascii (by decide) (by decide)

/-! ### Escapes -/

theorem quoteFor_eq (s : Text) : quoteFor s = '\'' ∨ quoteFor s = '"' := by
  rw [quoteFor]
  split
  · exact .inr rfl
  · exact .inl rfl

/-- The character with the code point that the first `width` hexadecimal digits spell, and the
rest of the text. -/
def codePoint (width : Nat) (s : Text) : Char × Text :=
  (Char.ofNat (Toml.valueIn 16 (s.take width)), s.drop width)

/-- Read one character of a quoted text. A backslash and the character behind it say how long
the escape is. -/
def unescape : Text → Option (Char × Text)
  | [] => none
  | ['\\'] => none
  | '\\' :: 't' :: s => some ('\t', s)
  | '\\' :: 'n' :: s => some ('\n', s)
  | '\\' :: 'r' :: s => some ('\r', s)
  | '\\' :: 'x' :: s => some (codePoint 2 s)
  | '\\' :: 'u' :: s => some (codePoint 4 s)
  | '\\' :: 'U' :: s => some (codePoint 8 s)
  | '\\' :: c :: s => some (c, s)
  | c :: s => some (c, s)

theorem codePoint_hex {width : Nat} {c : Char} (h : c.toNat < 16 ^ width) (s : Text) :
    codePoint width (hex width c.toNat ++ s) = (c, s) := by
  have hlength := length_hex width c.toNat
  rw [codePoint, List.take_left' hlength, List.drop_left' hlength, valueIn_hex, Nat.mod_eq_of_lt h,
    Char.ofNat_toNat]

theorem unescape_of_ne {c : Char} (h : c ≠ '\\') (s : Text) : unescape (c :: s) = some (c, s) := by
  rw [unescape] <;> simp_all

theorem toNat_lt (c : Char) : c.toNat < 16 ^ 8 := by
  have hvalid : c.toNat < 0xD800 ∨ 0xDFFF < c.toNat ∧ c.toNat < 0x110000 := c.valid
  omega

section Escape

variable {quote : Char} (hquote : quote = '\'' ∨ quote = '"')

include hquote

/-- Reading undoes escaping, whatever follows. -/
theorem unescape_escape (c : Char) (s : Text) : unescape (escape quote c ++ s) = some (c, s) := by
  rw [escape]
  split_ifs with hself htab hfeed hreturn hprintable hbyte hword
  · obtain rfl | rfl | rfl : c = '\'' ∨ c = '"' ∨ c = '\\' := by
      rcases hquote with rfl | rfl <;> simp only [Bool.or_eq_true, decide_eq_true_eq] at hself <;>
        tauto
    all_goals rfl
  · rw [htab]
    rfl
  · rw [hfeed]
    rfl
  · rw [hreturn]
    rfl
  · exact unescape_of_ne (fun heq => hself (by simp [heq])) s
  · exact congrArg some (codePoint_hex hbyte s)
  · exact congrArg some (codePoint_hex hword s)
  · exact congrArg some (codePoint_hex (toNat_lt c) s)

theorem escape_append_inj {c d : Char} {s t : Text}
    (h : escape quote c ++ s = escape quote d ++ t) : c = d ∧ s = t := by
  have hread := congrArg unescape h
  rwa [unescape_escape hquote, unescape_escape hquote, Option.some.injEq, Prod.mk.injEq] at hread

theorem escape_append_ne_nil (c : Char) (s : Text) : escape quote c ++ s ≠ [] := by
  intro h
  have hread := unescape_escape hquote c s
  rw [h] at hread
  simp [unescape] at hread

/-- Escapes in a row are read one by one. -/
theorem flatMap_escape_injective :
    Function.Injective fun s : Text => s.flatMap (escape quote) := by
  intro s
  induction s with
  | nil =>
    rintro (_ | ⟨d, t⟩) h
    · rfl
    · exact absurd h.symm (escape_append_ne_nil hquote d _)
  | cons c s ih =>
    rintro (_ | ⟨d, t⟩) h
    · exact absurd h (escape_append_ne_nil hquote c _)
    · obtain ⟨rfl, hrest⟩ := escape_append_inj hquote h
      rw [ih hrest]

theorem isPrintable_of_mem_escape {c d : Char} (h : d ∈ escape quote c) : isPrintable d = true := by
  -- an escape is a backslash, a letter or quote, and hexadecimal digits
  have hescape {e : Char} {digits : Text} (he : 0x20 ≤ e.toNat ∧ e.toNat ≤ 0x7E)
      (hdigits : ∀ x ∈ digits, isPrintable x = true) (hd : d ∈ '\\' :: e :: digits) :
      isPrintable d = true := by
    rcases List.mem_cons.mp hd with rfl | hd
    · exact isPrintable_of_ascii (by decide) (by decide)
    rcases List.mem_cons.mp hd with rfl | hd
    · exact isPrintable_of_ascii he.1 he.2
    · exact hdigits d hd
  rw [escape] at h
  split_ifs at h with hself htab hfeed hreturn hprintable hbyte hword
  · refine hescape ?_ (by simp) h
    rcases hquote with rfl | rfl <;> simp only [Bool.or_eq_true, decide_eq_true_eq] at hself <;>
      rcases hself with rfl | rfl <;> decide
  · exact hescape (by decide) (by simp) h
  · exact hescape (by decide) (by simp) h
  · exact hescape (by decide) (by simp) h
  · rwa [List.mem_singleton.mp h]
  · exact hescape (by decide) (fun x hx => isPrintable_of_mem_hex hx) h
  · exact hescape (by decide) (fun x hx => isPrintable_of_mem_hex hx) h
  · exact hescape (by decide) (fun x hx => isPrintable_of_mem_hex hx) h

end Escape

/-! ### Quoted texts -/

/-- **A quoted text tells what it quotes.** -/
theorem quoted_injective : Function.Injective quoted := by
  intro s t h
  obtain ⟨hquote, hbody⟩ := List.cons.inj h
  rw [hquote] at hbody
  exact flatMap_escape_injective (quoteFor_eq t) (List.append_cancel_right hbody)

theorem isPrintable_of_mem_quoted {s : Text} {c : Char} (h : c ∈ quoted s) :
    isPrintable c = true := by
  have hquote : isPrintable (quoteFor s) = true := by
    rcases quoteFor_eq s with heq | heq <;> rw [heq] <;>
      exact isPrintable_of_ascii (by decide) (by decide)
  rw [quoted, List.mem_cons, List.mem_append, List.mem_singleton] at h
  rcases h with rfl | h | rfl
  · exact hquote
  · obtain ⟨d, -, hd⟩ := List.mem_flatMap.mp h
    exact isPrintable_of_mem_escape (quoteFor_eq s) hd
  · exact hquote

end Offside.Text
