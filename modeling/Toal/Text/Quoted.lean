import Toal.Text.Extending
import Toal.Text.Unprintable

/-!
# Quoted text

In outlines a text stands in double quotes, and every character of it can be
seen: quotes and backslashes have a backslash before them, a few controls a
letter of their own, and other characters that cannot be shown, or would merge
with their neighbour, are written by their number.
-/

namespace Toal.Text

/-- A character by its number. -/
def numbered (c : Char) : List Char :=
  ['\\', 'u', '{'] ++ Nat.toDigits 16 c.toNat ++ ['}']

/-- A character inside quotes. -/
def escaped (c : Char) : List Char :=
  if c = '"' then ['\\', '"']
  else if c = '\\' then ['\\', '\\']
  else if c = '\x00' then ['\\', '0']
  else if c = '\t' then ['\\', 't']
  else if c = '\r' then ['\\', 'r']
  else if c = '\n' then ['\\', 'n']
  else if isExtending c || isUnprintable c then numbered c
  else [c]

/-- A text in quotes. -/
def quote (s : String) : String :=
  String.ofList ('"' :: s.toList.flatMap escaped ++ ['"'])

end Toal.Text
