import Scriptlet.Text.Hidden

/-!
# Quoted names

Names of classes and files are shown between double quotes. Quotes, backslashes
and the common control characters have short escapes; characters that cannot be
seen are spelled by their code point; all others, the apostrophe among them,
stand for themselves.
-/

namespace Scriptlet.Text

/-- The spelling of one character inside a quoted text. -/
def quotedChar (c : Char) : List Char :=
  if c.toNat = 0 then ['\\', '0']
  else if c = '\t' then ['\\', 't']
  else if c = '\r' then ['\\', 'r']
  else if c = '\n' then ['\\', 'n']
  else if c = '"' then ['\\', '"']
  else if c = '\\' then ['\\', '\\']
  else if 32 ≤ c.toNat ∧ c.toNat < 127 then [c]
  else if isHidden c then
    "\\u\x7b".toList ++ Nat.toDigits 16 c.toNat ++ "\x7d".toList
  else [c]

/-- A text between double quotes. -/
def quoted (s : String) : String := String.ofList ('"' :: s.toList.flatMap quotedChar ++ ['"'])

end Scriptlet.Text
