import Qudit.Text.Extending
import Qudit.Text.Unprintable

/-!
# Quoted texts

A text inside a message stands between double quotes, and everything a
reader could not tell apart is written out: the quote and the backslash
behind a backslash, the common controls by a letter, and every character
that is unprintable or joins the one before it by its code point in
hexadecimal.
-/

namespace Qudit.Text

/-- The characters that stand for one character between quotes. -/
def escape (c : Char) : List Char :=
  if c = '"' then ['\\', '"']
  else if c = '\\' then ['\\', '\\']
  else if c = '\n' then ['\\', 'n']
  else if c = '\r' then ['\\', 'r']
  else if c = '\t' then ['\\', 't']
  else if c = '\x00' then ['\\', '0']
  else if extending.holds c || unprintable.holds c then
    ['\\', 'u', '\x7b'] ++ Nat.toDigits 16 c.toNat ++ ['\x7d']
  else [c]

/-- **A text between double quotes.** -/
def quoted (s : String) : String :=
  String.ofList ('"' :: s.toList.flatMap escape ++ ['"'])

/-- A list of numbers, separated by commas. -/
def commaSeparated (xs : List Nat) : String := ", ".intercalate (xs.map toString)

/-- A list of numbers between brackets. -/
def bracketed (xs : List Nat) : String := "[" ++ commaSeparated xs ++ "]"

end Qudit.Text
