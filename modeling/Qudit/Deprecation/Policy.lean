import Qudit.Text.Blank

/-!
# Policies

A **policy** says what a use of something deprecated comes to: a warning
each time, a warning the first time only, or a refusal.
-/

namespace Qudit

/-- **What a deprecated use comes to.** -/
inductive Policy where
  /-- Every use warns. -/
  | warn
  /-- Each message is a warning once. -/
  | warnOnce
  /-- Every use is refused. -/
  | error
  deriving DecidableEq

namespace Policy

/-- The policy that a text spells, blanks around it and the case of its
letters aside. -/
def parse? (s : String) : Option Policy :=
  let cs := (Text.trimList s.toList).map Char.toLower
  if cs = "warn".toList then some warn
  else if cs = "once".toList ∨ cs = "warn_once".toList then some warnOnce
  else if cs = "error".toList then some error
  else none

/-- What is quoted of a text that spells no policy. -/
def unknownText (s : String) : String :=
  String.ofList ((Text.trimList s.toList).map Char.toLower)

end Policy

end Qudit
