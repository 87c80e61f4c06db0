/-!
# Decoding UTF-8

Bytes are decoded from left to right. The first sequence that is not well
formed ends the decoding: it is either invalid, with the number of bytes that
belong together before the offending one, or cut off by the end of the bytes.
Overlong spellings, surrogates and code points past the last one are invalid at
their second byte.
-/

namespace Scriptlet.Text

/-- Why bytes are not UTF-8. -/
inductive Utf8Fault where
  /-- A sequence at this index goes wrong after this many bytes. -/
  | invalid (index length : Nat)
  /-- The bytes end inside the sequence at this index. -/
  | incomplete (index : Nat)
deriving DecidableEq, Repr

/-- The wording of a decoding error. -/
def Utf8Fault.message : Utf8Fault → String
  | invalid index length =>
    "invalid utf-8 sequence of " ++ toString length ++ " bytes from index " ++ toString index
  | incomplete index => "incomplete utf-8 byte sequence from index " ++ toString index

/-- What the first byte of a sequence of several bytes announces. -/
structure Lead where
  /-- How many bytes follow. -/
  following : Nat
  /-- The least second byte allowed. -/
  low : UInt8
  /-- The greatest second byte allowed. -/
  high : UInt8
  /-- The bits that the first byte gives to the code point. -/
  bits : Nat

/-- The sequence that a first byte announces, if it announces one. -/
def lead? (b : UInt8) : Option Lead :=
  if 0xC2 ≤ b ∧ b ≤ 0xDF then some ⟨1, 0x80, 0xBF, b.toNat % 32⟩
  else if b = 0xE0 then some ⟨2, 0xA0, 0xBF, 0⟩
  else if b = 0xED then some ⟨2, 0x80, 0x9F, 13⟩
  else if 0xE1 ≤ b ∧ b ≤ 0xEF then some ⟨2, 0x80, 0xBF, b.toNat % 16⟩
  else if b = 0xF0 then some ⟨3, 0x90, 0xBF, 0⟩
  else if 0xF1 ≤ b ∧ b ≤ 0xF3 then some ⟨3, 0x80, 0xBF, b.toNat % 8⟩
  else if b = 0xF4 then some ⟨3, 0x80, 0x8F, 4⟩
  else none

/-- Whether a byte continues a sequence. -/
def continues (b : UInt8) : Bool := 0x80 ≤ b && b ≤ 0xBF

/-- Append the six bits of a continuing byte. -/
def extend (bits : Nat) (b : UInt8) : Nat := bits * 64 + b.toNat % 64

/-- Decode bytes, the first of which has the given index. -/
def decodeFrom (index : Nat) : List UInt8 → Except Utf8Fault (List Char)
  | [] => .ok []
  | b :: rest =>
    if b < 0x80 then (Char.ofNat b.toNat :: ·) <$> decodeFrom (index + 1) rest
    else match lead? b with
    | none => .error (.invalid index 1)
    | some lead => match rest with
      | [] => .error (.incomplete index)
      | b₁ :: rest₁ =>
        if b₁ < lead.low ∨ lead.high < b₁ then .error (.invalid index 1)
        else if lead.following = 1 then
          (Char.ofNat (extend lead.bits b₁) :: ·) <$> decodeFrom (index + 2) rest₁
        else match rest₁ with
        | [] => .error (.incomplete index)
        | b₂ :: rest₂ =>
          if continues b₂ = false then .error (.invalid index 2)
          else if lead.following = 2 then
            (Char.ofNat (extend (extend lead.bits b₁) b₂) :: ·) <$> decodeFrom (index + 3) rest₂
          else match rest₂ with
          | [] => .error (.incomplete index)
          | b₃ :: rest₃ =>
            if continues b₃ = false then .error (.invalid index 3)
            else (Char.ofNat (extend (extend (extend lead.bits b₁) b₂) b₃) :: ·) <$>
              decodeFrom (index + 4) rest₃

/-- Decode bytes into a text. -/
def decode (bytes : List UInt8) : Except Utf8Fault String := String.ofList <$> decodeFrom 0 bytes

/-- The UTF-8 bytes of a text. -/
def encode (s : String) : List UInt8 := s.toUTF8.toList

end Scriptlet.Text
