import AccessControl.Text.Invisible
import AccessControl.Numeral

/-!
# Quoted text in messages

A text in a message stands between double quotes. Quotes, backslashes and line breaks are written
as escapes, and a character that is not seen by itself is written as its code point.
-/

namespace AccessControl.Text

/-- The code point of a character as an escape. -/
def codePointEscape (c : Char) : List Char :=
  ['\\', 'u', '\x7b'] ++ Numeral.hex c.toNat ++ ['\x7d']

/-- A character as it is written between quotes. -/
def quotedChar (c : Char) : List Char :=
  if c = '"' then ['\\', '"']
  else if c = '\\' then ['\\', '\\']
  else if c = '\n' then ['\\', 'n']
  else if c = '\r' then ['\\', 'r']
  else if c = '\t' then ['\\', 't']
  else if c = '\x00' then ['\\', '0']
  else if isInvisible c then codePointEscape c
  else [c]

/-- A text between quotes. -/
def quoted (s : String) : String := String.ofList ('"' :: s.toList.flatMap quotedChar ++ ['"'])

end AccessControl.Text
