/-!
# Sets of characters

A property of characters is given as a list of ranges of code points, each
with both of its ends.
-/

namespace Qudit.Text

/-- **A set of characters**, as ranges of code points. -/
abbrev Ranges := List (Nat × Nat)

/-- Whether a character lies in one of the ranges. -/
def Ranges.holds (ranges : Ranges) (c : Char) : Bool :=
  ranges.any fun r => Nat.ble r.1 c.toNat && Nat.ble c.toNat r.2

end Qudit.Text
