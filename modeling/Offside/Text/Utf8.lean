import Offside.Text

/-!
# UTF-8

Texts are stored as octets in UTF-8. Decoding takes one octet at a time and remembers which
octets may come next. It fails at the first octet that cannot be part of a character, and says
where the character began, how many octets of it were good, and what is wrong:

* an octet that cannot begin a character,
* an octet that cannot continue the character,
* the end of the octets in the middle of a character.

The limits on the second octet keep out long forms, surrogates and numbers beyond the last
character.
-/

namespace Offside.Utf8

/-- Why octets are not UTF-8. -/
inductive Reason where
  | invalidStart
  | invalidContinuation
  | unexpectedEnd
  deriving DecidableEq, Repr

/-- The reason in words. -/
def Reason.message : Reason → Text
  | .invalidStart => "invalid start byte".toList
  | .invalidContinuation => "invalid continuation byte".toList
  | .unexpectedEnd => "unexpected end of data".toList

/-- Octets that are not UTF-8: where they begin, the first of them, how many there are, and what
is wrong with them. -/
structure Malformed where
  start : Nat
  lead : UInt8
  size : Nat
  reason : Reason
  deriving DecidableEq, Repr

/-- What is wrong, in words. A single octet is shown by its value. -/
def Malformed.message (m : Malformed) : Text :=
  "'utf-8' codec can't decode byte".toList
    ++ (if m.size = 1 then
        " 0x".toList ++ Text.hex 2 m.lead.toNat ++ " in position ".toList ++ Text.ofNat m.start
      else
        "s in position ".toList ++ Text.ofNat m.start ++ '-' :: Text.ofNat (m.start + m.size - 1))
    ++ ": ".toList ++ m.reason.message

/-! ### Encoding -/

/-- The octets of a character. -/
def encodeChar (c : Char) : List UInt8 :=
  let n := c.toNat
  let tail (k : Nat) : UInt8 := .ofNat (0x80 + n / Nat.pow 64 k % 64)
  if n < 0x80 then [.ofNat n]
  else if n < 0x800 then [.ofNat (0xC0 + n / 64), tail 0]
  else if n < 0x10000 then [.ofNat (0xE0 + n / 4096), tail 1, tail 0]
  else [.ofNat (0xF0 + n / 262144), tail 2, tail 1, tail 0]

/-- The octets of a text. -/
def encode (s : Text) : List UInt8 := s.flatMap encodeChar

/-! ### Decoding -/

/-- A character of which some octets are read: where it began and with which octet, how many
octets are read and how many are missing, the limits of the next one, and the number so far. -/
structure Partial where
  start : Nat
  lead : UInt8
  size : Nat
  missing : Nat
  low : Nat
  high : Nat
  value : Nat
  deriving Repr

/-- The beginning of a character of more than one octet: the octets missing, the limits of the
second one, and the part of the number in the first. -/
def lead? (b : Nat) : Option (Nat × Nat × Nat × Nat) :=
  if b < 0xC2 then none
  else if b ≤ 0xDF then some (1, 0x80, 0xBF, b - 0xC0)
  else if b ≤ 0xEF then
    some (2, if b = 0xE0 then 0xA0 else 0x80, if b = 0xED then 0x9F else 0xBF, b - 0xE0)
  else if b ≤ 0xF4 then
    some (3, if b = 0xF0 then 0x90 else 0x80, if b = 0xF4 then 0x8F else 0xBF, b - 0xF0)
  else none

/-- Decode the octets from a position on, within a character or between characters. -/
def decodeFrom : Nat → Option Partial → List UInt8 → Except Malformed Text
  | _, none, [] => .ok []
  | _, some p, [] => .error ⟨p.start, p.lead, p.size, .unexpectedEnd⟩
  | pos, none, b :: bs =>
    if b < 0x80 then (decodeFrom (pos + 1) none bs).map (Char.ofNat b.toNat :: ·)
    else
      match lead? b.toNat with
      | some (missing, low, high, value) =>
        decodeFrom (pos + 1) (some ⟨pos, b, 1, missing, low, high, value⟩) bs
      | none => .error ⟨pos, b, 1, .invalidStart⟩
  | pos, some p, b :: bs =>
    if p.low ≤ b.toNat ∧ b.toNat ≤ p.high then
      let value := p.value * 64 + (b.toNat - 0x80)
      if p.missing ≤ 1 then (decodeFrom (pos + 1) none bs).map (Char.ofNat value :: ·)
      else
        decodeFrom (pos + 1)
          (some ⟨p.start, p.lead, p.size + 1, p.missing - 1, 0x80, 0xBF, value⟩) bs
    else .error ⟨p.start, p.lead, p.size, .invalidContinuation⟩

/-- The text that octets stand for. -/
def decode (bytes : List UInt8) : Except Malformed Text := decodeFrom 0 none bytes

end Offside.Utf8
