import Qudit.Text.Cut

/-!
# Removal deadlines

What is deprecated is removed with a version, written `vX.Y` with two runs of
digits. A **deadline** keeps the text it was read from and the place of the
point in it (`Deadline.parse?`); the two runs are cut out of the text when
they are asked for (`Deadline.major`, `Deadline.minor`).
-/

namespace Qudit

/-- Whether a list of characters is a run of at least one decimal digit. -/
def isDigitRun (cs : List Char) : Bool := !cs.isEmpty && cs.all Char.isDigit

/-- **The version by which something is removed.** -/
structure Deadline where
  /-- The text, as it was written. -/
  text : String
  /-- The place of the point in the text, in bytes. -/
  dot : Nat
  deriving DecidableEq

namespace Deadline

/-- **The deadline that a text spells.** -/
def parse? (s : String) : Option Deadline :=
  match s.toList with
  | 'v' :: rest =>
    match Text.splitOnce '.' rest with
    | some (major, minor) =>
      if isDigitRun major && isDigitRun minor then
        some ⟨s, 1 + (String.ofList major).utf8ByteSize⟩
      else none
    | none => none
  | _ => none

/-- **The digits before the point**: what is between the letter and the
point. -/
def major (d : Deadline) : Except Fault String := Text.between d.text 1 d.dot

/-- **The digits after the point**: all that is behind it. -/
def minor (d : Deadline) : Except Fault String :=
  Text.between d.text (d.dot + 1) d.text.utf8ByteSize

end Deadline

end Qudit
