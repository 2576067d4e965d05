import Qudit.Text.Ranges

/-!
# Blank characters

The characters with the Unicode property `White_Space`. `Text.trim` takes
them off both ends of a text.
-/

namespace Qudit.Text

/-- The characters with the property `White_Space`. -/
def blank : Ranges :=
  [(0x0009, 0x000d), (0x0020, 0x0020), (0x0085, 0x0085), (0x00a0, 0x00a0), (0x1680, 0x1680),
  (0x2000, 0x200a), (0x2028, 0x2029), (0x202f, 0x202f), (0x205f, 0x205f), (0x3000, 0x3000)]

/-- The characters of a text without the blank ones at its ends. -/
def trimList (cs : List Char) : List Char :=
  ((cs.dropWhile blank.holds).reverse.dropWhile blank.holds).reverse

/-- **A text without the blank characters at its ends.** -/
def trim (s : String) : String := String.ofList (trimList s.toList)

/-- A text without the blank characters at its end. -/
def trimEnd (s : String) : String :=
  String.ofList (s.toList.reverse.dropWhile blank.holds).reverse

end Qudit.Text
