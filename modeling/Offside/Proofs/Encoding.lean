import Mathlib.Tactic.SplitIfs
import Offside.Text.Utf8

/-!
# Texts as octets

The octets of a text decode to that text (`decode_encode`). One character at a time: its first
octet fixes how many follow and what the second may be, and the number that the octets carry is
put together again, six bits with each octet. The second octet is within its limits since the
character needs as many octets as it has, and since there are no characters in the range of the
surrogates.
-/

namespace Offside.Utf8

variable {pos : Nat} {b : UInt8} {bs : List UInt8}

/-! ### One octet -/

theorem decodeFrom_ascii (h : b < 0x80) :
    decodeFrom pos none (b :: bs) =
      (decodeFrom (pos + 1) none bs).map (Char.ofNat b.toNat :: ·) := by
  rw [decodeFrom, if_pos h]

theorem decodeFrom_lead {missing low high value : Nat} (hb : ¬ b < 0x80)
    (h : lead? b.toNat = some (missing, low, high, value)) :
    decodeFrom pos none (b :: bs) =
      decodeFrom (pos + 1) (some ⟨pos, b, 1, missing, low, high, value⟩) bs := by
  rw [decodeFrom, if_neg hb, h]

/-- An octet within the limits, with more to come. -/
theorem decodeFrom_more {p : Partial} (hb : p.low ≤ b.toNat ∧ b.toNat ≤ p.high)
    (h : 1 < p.missing) :
    decodeFrom pos (some p) (b :: bs) =
      decodeFrom (pos + 1)
        (some ⟨p.start, p.lead, p.size + 1, p.missing - 1, 0x80, 0xBF,
          p.value * 64 + (b.toNat - 0x80)⟩) bs := by
  rw [decodeFrom, if_pos hb]
  exact if_neg (Nat.not_le.mpr h)

/-- The last octet of a character. -/
theorem decodeFrom_last {p : Partial} (hb : p.low ≤ b.toNat ∧ b.toNat ≤ p.high)
    (h : p.missing ≤ 1) :
    decodeFrom pos (some p) (b :: bs) =
      (decodeFrom (pos + 1) none bs).map (Char.ofNat (p.value * 64 + (b.toNat - 0x80)) :: ·) := by
  rw [decodeFrom, if_pos hb]
  exact if_pos h

/-! ### One character -/

theorem not_lt_of_le_toNat (h : 0x80 ≤ b.toNat) : ¬ b < 0x80 := by
  rw [UInt8.lt_iff_toNat_lt]
  exact Nat.not_lt.mpr h

/-- The octet that carries the last six bits of a number. -/
def sextet (n : Nat) : UInt8 := .ofNat (0x80 + n % 64)

theorem toNat_sextet (n : Nat) : (sextet n).toNat = 0x80 + n % 64 :=
  UInt8.toNat_ofNat_of_lt (show _ < 256 by omega)

theorem sextet_within (n : Nat) : 0x80 ≤ (sextet n).toNat ∧ (sextet n).toNat ≤ 0xBF := by
  rw [toNat_sextet]
  omega

/-- The bits in front and the last six of them are the number. -/
theorem mul_add_sextet {value n : Nat} (h : value = n / 64) :
    value * 64 + ((sextet n).toNat - 0x80) = n := by
  rw [toNat_sextet]
  omega

/-- The octets of a character by its number. -/
theorem encodeChar_eq (c : Char) :
    encodeChar c =
      if c.toNat < 0x80 then [.ofNat c.toNat]
      else if c.toNat < 0x800 then [.ofNat (0xC0 + c.toNat / 64), sextet c.toNat]
      else if c.toNat < 0x10000 then
        [.ofNat (0xE0 + c.toNat / 4096), sextet (c.toNat / 64), sextet c.toNat]
      else
        [.ofNat (0xF0 + c.toNat / 262144), sextet (c.toNat / 4096), sextet (c.toNat / 64),
          sextet c.toNat] := by
  have hzero : c.toNat / Nat.pow 64 0 = c.toNat := Nat.div_one _
  simp only [encodeChar, hzero]
  rfl

variable {n : Nat}

theorem decodeFrom_one (h : n < 0x80) (pos : Nat) (bs : List UInt8) :
    decodeFrom pos none (.ofNat n :: bs) =
      (decodeFrom (pos + 1) none bs).map (Char.ofNat n :: ·) := by
  have hb : (UInt8.ofNat n).toNat = n := UInt8.toNat_ofNat_of_lt (show _ < 256 by omega)
  have hlt : UInt8.ofNat n < 0x80 := by
    rw [UInt8.lt_iff_toNat_lt, hb]
    exact h
  rw [decodeFrom_ascii hlt, hb]

theorem decodeFrom_two (hlow : 0x80 ≤ n) (hhigh : n < 0x800) (pos : Nat) (bs : List UInt8) :
    decodeFrom pos none (.ofNat (0xC0 + n / 64) :: sextet n :: bs) =
      (decodeFrom (pos + 2) none bs).map (Char.ofNat n :: ·) := by
  have hb : (UInt8.ofNat (0xC0 + n / 64)).toNat = 0xC0 + n / 64 :=
    UInt8.toNat_ofNat_of_lt (show _ < 256 by omega)
  have hlead : lead? (UInt8.ofNat (0xC0 + n / 64)).toNat = some (1, 0x80, 0xBF, n / 64) := by
    rw [hb, lead?, if_neg (by omega), if_pos (by omega), Nat.add_sub_cancel_left]
  rw [decodeFrom_lead (not_lt_of_le_toNat (by omega)) hlead,
    decodeFrom_last (sextet_within n) (Nat.le_refl 1), mul_add_sextet rfl]

theorem decodeFrom_three (hlow : 0x800 ≤ n) (hhigh : n < 0x10000)
    (hvalid : n < 0xD800 ∨ 0xDFFF < n) (pos : Nat) (bs : List UInt8) :
    decodeFrom pos none (.ofNat (0xE0 + n / 4096) :: sextet (n / 64) :: sextet n :: bs) =
      (decodeFrom (pos + 3) none bs).map (Char.ofNat n :: ·) := by
  have hb : (UInt8.ofNat (0xE0 + n / 4096)).toNat = 0xE0 + n / 4096 :=
    UInt8.toNat_ofNat_of_lt (show _ < 256 by omega)
  have hlead : lead? (UInt8.ofNat (0xE0 + n / 4096)).toNat =
      some (2, if 0xE0 + n / 4096 = 0xE0 then 0xA0 else 0x80,
        if 0xE0 + n / 4096 = 0xED then 0x9F else 0xBF, n / 4096) := by
    rw [hb, lead?, if_neg (by omega), if_neg (by omega), if_pos (by omega),
      Nat.add_sub_cancel_left]
  -- what needs two octets and the surrogates are just outside of the limits
  have hsecond : (if 0xE0 + n / 4096 = 0xE0 then 0xA0 else 0x80) ≤ (sextet (n / 64)).toNat ∧
      (sextet (n / 64)).toNat ≤ if 0xE0 + n / 4096 = 0xED then 0x9F else 0xBF := by
    rw [toNat_sextet]
    grind
  have hfront : n / 4096 * 64 + ((sextet (n / 64)).toNat - 0x80) = n / 64 :=
    mul_add_sextet (by omega)
  rw [decodeFrom_lead (not_lt_of_le_toNat (by omega)) hlead,
    decodeFrom_more hsecond (Nat.lt_add_one 1), hfront,
    decodeFrom_last (sextet_within n) (Nat.le_refl 1), mul_add_sextet rfl]

theorem decodeFrom_four (hlow : 0x10000 ≤ n) (hhigh : n < 0x110000) (pos : Nat)
    (bs : List UInt8) :
    decodeFrom pos none
        (.ofNat (0xF0 + n / 262144) :: sextet (n / 4096) :: sextet (n / 64) :: sextet n :: bs) =
      (decodeFrom (pos + 4) none bs).map (Char.ofNat n :: ·) := by
  have hb : (UInt8.ofNat (0xF0 + n / 262144)).toNat = 0xF0 + n / 262144 :=
    UInt8.toNat_ofNat_of_lt (show _ < 256 by omega)
  have hlead : lead? (UInt8.ofNat (0xF0 + n / 262144)).toNat =
      some (3, if 0xF0 + n / 262144 = 0xF0 then 0x90 else 0x80,
        if 0xF0 + n / 262144 = 0xF4 then 0x8F else 0xBF, n / 262144) := by
    rw [hb, lead?, if_neg (by omega), if_neg (by omega), if_neg (by omega), if_pos (by omega),
      Nat.add_sub_cancel_left]
  -- what needs three octets and what is beyond the last character are just outside of the limits
  have hsecond : (if 0xF0 + n / 262144 = 0xF0 then 0x90 else 0x80) ≤ (sextet (n / 4096)).toNat ∧
      (sextet (n / 4096)).toNat ≤ if 0xF0 + n / 262144 = 0xF4 then 0x8F else 0xBF := by
    rw [toNat_sextet]
    grind
  have hfront : n / 262144 * 64 + ((sextet (n / 4096)).toNat - 0x80) = n / 4096 :=
    mul_add_sextet (by omega)
  have hmiddle : n / 4096 * 64 + ((sextet (n / 64)).toNat - 0x80) = n / 64 :=
    mul_add_sextet (by omega)
  rw [decodeFrom_lead (not_lt_of_le_toNat (by omega)) hlead,
    decodeFrom_more hsecond (show 1 < 3 by omega), hfront,
    decodeFrom_more (sextet_within (n / 64)) (Nat.lt_add_one 1), hmiddle,
    decodeFrom_last (sextet_within n) (Nat.le_refl 1), mul_add_sextet rfl]

/-- The octets of a character are read off as that character. -/
theorem decodeFrom_encodeChar (pos : Nat) (c : Char) (bs : List UInt8) :
    ∃ pos', decodeFrom pos none (encodeChar c ++ bs) =
      (decodeFrom pos' none bs).map (c :: ·) := by
  have hc : Char.ofNat c.toNat = c := c.ofNat_toNat
  have hvalid : c.toNat < 0xD800 ∨ 0xDFFF < c.toNat ∧ c.toNat < 0x110000 := c.valid
  rw [encodeChar_eq]
  split_ifs with hone htwo hthree
  · exact ⟨_, hc ▸ decodeFrom_one hone pos bs⟩
  · exact ⟨_, hc ▸ decodeFrom_two (by omega) htwo pos bs⟩
  · exact ⟨_, hc ▸ decodeFrom_three (by omega) hthree (by omega) pos bs⟩
  · exact ⟨_, hc ▸ decodeFrom_four (by omega) (by omega) pos bs⟩

/-! ### Texts -/

theorem decodeFrom_encode (pos : Nat) (s : Text) : decodeFrom pos none (encode s) = .ok s := by
  induction s generalizing pos with
  | nil => rfl
  | cons c s ih =>
    obtain ⟨pos', hpos'⟩ := decodeFrom_encodeChar pos c (encode s)
    rw [encode, List.flatMap_cons, ← encode, hpos', ih pos']
    rfl

/-- The octets of a text decode to that text. -/
theorem decode_encode (s : Text) : decode (encode s) = .ok s := decodeFrom_encode 0 s

end Offside.Utf8
